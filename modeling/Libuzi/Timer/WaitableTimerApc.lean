import Libuzi.Timer.WaitableTimer
import Mathlib.Data.List.Range
import Mathlib.Tactic.Linarith
import Mathlib.Tactic.Ring

/-!
# The schedule of a timer with a completion routine

A timer with a completion routine is a POSIX timer: the kernel signals each expiration, and
`WaitableTimerSignalHandler` calls the routine. The kernel would go on by itself, every
`it_interval`; but the handler of a periodic timer arms it again, with the `timeout` that
`SetWaitableTimer` has left, and the `it_value` in there is the due time.

| expiration | without the handler | with it |
|---|---|---|
| first | `s + d` | `s + d` |
| second | `s + d + p` | `s + d + d` |
| `k`-th | `s + d + (k - 1) * p` | `s + k * d` |

So the period is never seen, unless it is the due time (`WaitableTimer.schedule_iff`).
-/

namespace Libuzi

namespace WaitableTimer

/-! ### The kernel's timer -/

section Kernel

/-- Times that `timer_settime` accepts. -/
def Itimerspec.Valid (new : Itimerspec) : Prop :=
  0 ≤ new.itValue.tvSec.toInt ∧ new.itValue.Normal ∧
    0 ≤ new.itInterval.tvSec.toInt ∧ new.itInterval.Normal

instance (new : Itimerspec) : Decidable new.Valid :=
  inferInstanceAs (Decidable (_ ∧ (_ ∧ _) ∧ _ ∧ _ ∧ _))

/-- A POSIX timer. -/
structure KernelTimer where
  /-- When it expires next, if it is armed. -/
  next : Option ℤ
  /-- How long after that it expires again, if it does. -/
  interval : ℤ
  deriving DecidableEq

/-- `timer_settime` at the time `now`: the timer, and what is returned. What was scheduled
before is forgotten. -/
def timerSettime (now : ℤ) (new : Itimerspec) (k : KernelTimer) : KernelTimer × ℤ :=
  if new.Valid then
    ({ next := if new.itValue = .zero then none else some (now + new.itValue.toNs)
       interval := new.itInterval.toNs }, 0)
  else (k, -1)

/-- What an expiration leaves. -/
def KernelTimer.expire (k : KernelTimer) : KernelTimer :=
  { k with next := if k.interval = 0 then none else k.next.map (· + k.interval) }

end Kernel

/-! ### Expirations -/

section Expirations

/-- A call of a completion routine. -/
structure Invocation where
  time : ℤ
  routine : ℕ
  argument : Option ℕ
  deriving DecidableEq

/-- A timer, its POSIX timer, and the calls of the completion routine so far. -/
structure Apc where
  timer : WinprTimer
  kernel : KernelTimer
  invocations : List Invocation

/-- `WaitableTimerSignalHandler`, at the time `now`. -/
def waitableTimerSignalHandler (now : ℤ) (s : Apc) : Apc :=
  match s.timer.pfnCompletionRoutine with
  | none => s
  | some routine =>
    let s := { s with
      invocations := s.invocations ++ [⟨now, routine, s.timer.lpArgToCompletionRoutine⟩] }
    if s.timer.lPeriod ≠ 0 then
      let timeout := { s.timer.timeout with
        itInterval :=
          ⟨(s.timer.lPeriod / 1000).toInt64, (s.timer.lPeriod % 1000 * 1000000).toInt64⟩ }
      { s with
        timer := { s.timer with timeout }
        kernel := (timerSettime now timeout s.kernel).1 }
    else s

/-- The next expiration, with the handler at the same instant. -/
def expiration (s : Apc) : Option Apc :=
  s.kernel.next.map fun now => waitableTimerSignalHandler now { s with kernel := s.kernel.expire }

/-- A number of expirations, one after the other. -/
def expirations : ℕ → Apc → Option Apc
  | 0, s => some s
  | n + 1, s => (expirations n s).bind expiration

/-- What the calls of `timer_settime` in a log do to the POSIX timer. -/
def settimes (now : ℤ) (k : KernelTimer) (log : List Effect) : KernelTimer :=
  log.foldl (fun k e => match e with
    | .timerSettime _ new => (timerSettime now new k).1
    | _ => k) k

/-- A call of `SetWaitableTimer` at the time `now`, when no routine has been called yet. -/
def armedAt (now : ℤ) (answers : Answers) (request : Request) (timer : WinprTimer)
    (k : KernelTimer) : Apc where
  timer := (setWaitableTimer answers request timer).timer
  kernel := settimes now k (setWaitableTimer answers request timer).log
  invocations := []

/-- What `timer_settime` answers is what the kernel says. -/
def KernelAnswers (now : ℤ) (answers : Answers) (request : Request) (timer : WinprTimer)
    (k : KernelTimer) : Prop :=
  ∀ tid new, .timerSettime tid new ∈ (setWaitableTimer answers request timer).log →
    answers.timerSettime = (timerSettime now new k).2

/-- The `k`-th call of the completion routine, counted from one, is at the time `t`. -/
def InvokedAt (s : Apc) (k : ℕ) (t : ℤ) : Prop :=
  ∃ n s', expirations n s = some s' ∧ (s'.invocations.map Invocation.time)[k - 1]? = some t

/-- The completion routine is called at the time `first`, and then once in every `period`. -/
def OnSchedule (s : Apc) (first period : ℤ) : Prop :=
  ∀ n : ℕ, 1 ≤ n → InvokedAt s n (first + (n - 1) * period)

end Expirations

/-! ### The schedule -/

section Schedule

variable {answers : Answers} {request : Request} {timer t : WinprTimer} {quadPart : Int64}
  {log : List Effect} {k : KernelTimer} {s s' : Apc} {now due : ℤ} {n : ℕ}

/-- `timer_settime` returns zero for the times that it accepts. -/
theorem timerSettime_eq_zero {new : Itimerspec} : (timerSettime now new k).2 = 0 ↔ new.Valid := by
  rw [timerSettime]
  split
  · next h => exact iff_of_true rfl h
  · next h => exact iff_of_false (Int.negSucc_ne_zero 0) h

/-- A timer that the handler arms again with the due time `due`, and does not change. -/
structure Rearms (timer : WinprTimer) (due : ℤ) : Prop where
  routine : timer.pfnCompletionRoutine ≠ none
  period : timer.lPeriod ≠ 0
  interval : timer.timeout.itInterval =
    ⟨(timer.lPeriod / 1000).toInt64, (timer.lPeriod % 1000 * 1000000).toInt64⟩
  valid : timer.timeout.Valid
  armed : timer.timeout.itValue ≠ .zero
  value : timer.timeout.itValue.toNs = due

/-- `timer_settime` schedules the first expiration after the value. -/
theorem timerSettime_next {new : Itimerspec} (hvalid : new.Valid) (harmed : new.itValue ≠ .zero) :
    (timerSettime now new k).1.next = some (now + new.itValue.toNs) := by
  rw [timerSettime, if_pos hvalid]
  exact if_neg harmed

/-- The handler calls the routine and arms the timer with the times it was armed with. -/
theorem Rearms.handler (h : Rearms s.timer due) (now : ℤ) :
    ∃ routine, waitableTimerSignalHandler now s = { s with
      kernel := (timerSettime now s.timer.timeout s.kernel).1
      invocations :=
        s.invocations ++ [⟨now, routine, s.timer.lpArgToCompletionRoutine⟩] } := by
  obtain ⟨routine, hroutine⟩ := Option.ne_none_iff_exists'.mp h.routine
  refine ⟨routine, ?_⟩
  unfold waitableTimerSignalHandler
  split
  · next hnone => exact absurd (hroutine.symm.trans hnone) (Option.some_ne_none routine)
  · next found hfound =>
    obtain rfl := Option.some.inj (hroutine.symm.trans hfound)
    dsimp only
    rw [if_pos h.period, ← h.interval]

/-- **One expiration**: the routine is called, and the next expiration is one due time later. -/
theorem Rearms.expiration (h : Rearms s.timer due) (hnext : s.kernel.next = some now) :
    ∃ s', expiration s = some s' ∧ s'.timer = s.timer ∧ s'.kernel.next = some (now + due) ∧
      s'.invocations.map Invocation.time = s.invocations.map Invocation.time ++ [now] := by
  have h' : Rearms { s with kernel := s.kernel.expire }.timer due := h
  obtain ⟨routine, hhandler⟩ := h'.handler now
  rw [WaitableTimer.expiration, hnext, Option.map_some, hhandler]
  refine ⟨_, rfl, rfl, ?_, List.map_append⟩
  dsimp only
  rw [timerSettime_next h.valid h.armed, h.value]

/-- The times of the first `n` calls, one due time apart. -/
theorem Rearms.expirations (h : Rearms s.timer due) (hnext : s.kernel.next = some (now + due))
    (hnone : s.invocations = []) (n : ℕ) :
    ∃ s', expirations n s = some s' ∧ s'.timer = s.timer ∧
      s'.kernel.next = some (now + (n + 1 : ℕ) * due) ∧
      s'.invocations.map Invocation.time =
        (List.range n).map fun i => now + ((i + 1 : ℕ) : ℤ) * due := by
  induction n with
  | zero =>
    refine ⟨s, rfl, rfl, ?_, by rw [hnone]; rfl⟩
    rw [hnext, Nat.cast_one, one_mul]
  | succ n ih =>
    obtain ⟨s₁, hrun, htimer, hnext₁, htimes⟩ := ih
    have h₁ : Rearms s₁.timer due := htimer ▸ h
    obtain ⟨s₂, hstep, htimer₂, hnext₂, htimes₂⟩ := h₁.expiration hnext₁
    refine ⟨s₂, ?_, htimer₂.trans htimer, ?_, ?_⟩
    · rw [WaitableTimer.expirations, hrun]
      exact hstep
    · rw [hnext₂, Nat.cast_add_one (n + 1), add_one_mul, add_assoc]
    · rw [htimes₂, htimes, List.range_succ, List.map_append]
      rfl

/-- **The `k`-th call is `k` due times after the start.** -/
theorem Rearms.invokedAt_iff (h : Rearms s.timer due) (hnext : s.kernel.next = some (now + due))
    (hnone : s.invocations = []) (n : ℕ) (time : ℤ) :
    InvokedAt s (n + 1) time ↔ time = now + ((n + 1 : ℕ) : ℤ) * due := by
  constructor
  · rintro ⟨m, s', hrun, htime⟩
    obtain ⟨s₁, hrun₁, -, -, htimes⟩ := h.expirations hnext hnone m
    obtain rfl := Option.some.inj (hrun.symm.trans hrun₁)
    rw [htimes, Nat.add_sub_cancel, List.getElem?_map] at htime
    obtain ⟨i, hi, rfl⟩ := Option.map_eq_some_iff.mp htime
    obtain ⟨-, rfl⟩ := List.getElem?_eq_some_iff.mp hi
    rw [List.getElem_range]
  · rintro rfl
    obtain ⟨s₁, hrun₁, -, -, htimes⟩ := h.expirations hnext hnone (n + 1)
    refine ⟨n + 1, s₁, hrun₁, ?_⟩
    rw [htimes, Nat.add_sub_cancel, List.getElem?_map, List.getElem?_range (Nat.lt_succ_self n)]
    rfl

theorem settimes_append (now : ℤ) (k : KernelTimer) (log log' : List Effect) :
    settimes now k (log ++ log') = settimes now (settimes now k log) log' := List.foldl_append

/-- Becoming ready does nothing to the POSIX timer. -/
theorem Readies.settimes (h : Readies answers request timer t log) : settimes now k log = k := by
  cases h with
  | already => rfl
  | now _ hi hok =>
    cases hi with
    | freed | closed | refused => exact absurd hok (Int.negSucc_ne_zero 0)
    | descriptor | posix => rfl

/-- Times that the kernel accepts are those that were asked for: it refuses those of the least due
time. -/
theorem rightTimes_of_valid {lPeriod : Int32} (hneg : quadPart < 0) (hperiod : 0 < lPeriod)
    (hvalid : (requestedTimeout quadPart lPeriod).Valid) :
    RightTimes quadPart lPeriod (requestedTimeout quadPart lPeriod) := by
  refine (rightTimes_requestedTimeout_iff (Int64.le_of_lt hneg) (Int32.le_of_lt hperiod)).mpr
    ⟨?_, ?_⟩
  · rintro rfl
    have hnsec : (valueOf Int64.minValue).tvNsec.toInt < 0 := by decide
    exact absurd hvalid.2.1.1 (not_le.mpr hnsec)
  · rintro ⟨rfl, -⟩
    exact absurd hneg (by decide)

/-- **What `SetWaitableTimer` leaves**, when it has armed a periodic timer with a routine. -/
theorem rearms_armedAt (hdue : request.lpDueTime = some quadPart) (hneg : quadPart < 0)
    (hperiod : 0 < request.lPeriod) (hpfn : request.pfnCompletionRoutine ≠ none)
    (hkernel : KernelAnswers now answers request timer k)
    (htrue : (setWaitableTimer answers request timer).result = true) :
    Rearms (armedAt now answers request timer k).timer (|quadPart.toInt| * 100) ∧
      (armedAt now answers request timer k).kernel.next =
        some (now + |quadPart.toInt| * 100) := by
  have hsets := sets answers request timer
  rw [KernelAnswers] at hkernel
  rw [armedAt]
  generalize setWaitableTimer answers request timer = o at hsets hkernel htrue
  cases hsets with
  | rejected | uninitialized => exact absurd htrue Bool.false_ne_true
  | @ready other hother _ t log hready a ha =>
    obtain rfl := Option.some.inj (hdue.symm.trans hother)
    have hkept := hready.kept
    cases ha with
    | unsupported hpos => exact absurd hneg (Int64.not_lt.mpr (Int64.le_of_lt hpos))
    | descriptor _ hnone => exact absurd (hkept.pfnCompletionRoutine.symm.trans hnone) hpfn
    | posix hle hsome =>
      have hvalid : (requestedTimeout quadPart request.lPeriod).Valid := by
        have hstatus := hkernel _ _ (List.mem_append_right log List.mem_cons_self)
        rw [of_decide_eq_true htrue] at hstatus
        exact timerSettime_eq_zero.mp hstatus.symm
      have hright := rightTimes_of_valid hneg hperiod hvalid
      have hzero : t.lPeriod ≠ 0 := by
        rw [hkept.lPeriod]
        exact (Int32.ne_of_lt hperiod).symm
      have hinterval : (requestedTimeout quadPart request.lPeriod).itInterval =
          ⟨(t.lPeriod / 1000).toInt64, (t.lPeriod % 1000 * 1000000).toInt64⟩ := by
        rw [hkept.lPeriod]
        exact if_pos hperiod
      refine ⟨⟨hsome, hzero, hinterval, hvalid, hright.armed, hright.value hneg⟩, ?_⟩
      have hsettimes : settimes now k
          (log ++ [.timerSettime t.tid (requestedTimeout quadPart request.lPeriod)]) =
            (timerSettime now (requestedTimeout quadPart request.lPeriod) k).1 := by
        rw [settimes_append, hready.settimes]
        rfl
      rw [hsettimes, timerSettime_next hvalid hright.armed, hright.value hneg]

/-- **The routine of a periodic timer is called according to its period if and only if the period
is the due time.** -/
theorem schedule_iff (hdue : request.lpDueTime = some quadPart) (hneg : quadPart < 0)
    (hperiod : 0 < request.lPeriod) (hpfn : request.pfnCompletionRoutine ≠ none)
    (hkernel : KernelAnswers now answers request timer k)
    (htrue : (setWaitableTimer answers request timer).result = true) :
    OnSchedule (armedAt now answers request timer k) (now + |quadPart.toInt| * 100)
        (request.lPeriod.toInt * 1000000) ↔
      |quadPart.toInt| * 100 = request.lPeriod.toInt * 1000000 := by
  obtain ⟨hrearms, hnext⟩ := rearms_armedAt hdue hneg hperiod hpfn hkernel htrue
  constructor
  · intro h
    have hsecond := (hrearms.invokedAt_iff hnext rfl 1 _).mp (h 2 one_le_two)
    push_cast at hsecond
    linarith
  · intro heq n hn
    obtain ⟨m, rfl⟩ := Nat.exists_eq_add_of_le' hn
    refine (hrearms.invokedAt_iff hnext rfl m _).mpr ?_
    rw [← heq]
    push_cast
    ring

/-- Every two seconds, with a routine and its argument: the due time is the period. -/
def everyTwo : Request where
  lpDueTime := some (-20000000)
  lPeriod := 2000
  pfnCompletionRoutine := some 100
  lpArgToCompletionRoutine := some 200

/-- A second and a half, then every two seconds. -/
def thenEveryTwo : Request := { everyTwo with lpDueTime := some (-15000000) }

/-- The kernel accepts the times of both. -/
theorem kernelAnswers_every_two :
    KernelAnswers 0 granted everyTwo createWaitableTimerA ⟨none, 0⟩ ∧
      KernelAnswers 0 granted thenEveryTwo createWaitableTimerA ⟨none, 0⟩ := by
  constructor
  · rintro tid new hmem
    rcases List.mem_pair.mp hmem with h | h
    · exact absurd h (by simp)
    · obtain ⟨-, rfl⟩ := Effect.timerSettime.inj h
      rfl
  · rintro tid new hmem
    rcases List.mem_pair.mp hmem with h | h
    · exact absurd h (by simp)
    · obtain ⟨-, rfl⟩ := Effect.timerSettime.inj h
      rfl

theorem schedule_every_two :
    OnSchedule (armedAt 0 granted everyTwo createWaitableTimerA ⟨none, 0⟩) 2000000000
      2000000000 := by
  have hdue : |(-20000000 : Int64).toInt| * 100 = 2000000000 := by decide
  have hperiod : everyTwo.lPeriod.toInt * 1000000 = 2000000000 := by decide
  have h := (schedule_iff rfl (by decide)
    (by decide) (by decide) kernelAnswers_every_two.1 rfl).mpr (hdue.trans hperiod.symm)
  rwa [hdue, hperiod, zero_add] at h

/-- A due time of a second and a half with a period of two: the second call is three seconds
after the start, and not three and a half. -/
theorem schedule_then_every_two :
    ¬∀ (answers : Answers) (request : Request) (timer : WinprTimer) (quadPart : Int64) (now : ℤ)
      (k : KernelTimer), request.lpDueTime = some quadPart → quadPart < 0 → 0 < request.lPeriod →
      request.pfnCompletionRoutine ≠ none → request.lpArgToCompletionRoutine ≠ none →
      KernelAnswers now answers request timer k →
      (setWaitableTimer answers request timer).result = true →
      OnSchedule (armedAt now answers request timer k) (now + |quadPart.toInt| * 100)
        (request.lPeriod.toInt * 1000000) := by
  intro h
  have hsecond := h granted thenEveryTwo createWaitableTimerA (-15000000) 0 ⟨none, 0⟩ rfl
    (by decide) (by decide) (by decide) (by decide) kernelAnswers_every_two.2 rfl 2 one_le_two
  obtain ⟨hrearms, hnext⟩ := rearms_armedAt rfl
    (by decide) (by decide) (by decide) kernelAnswers_every_two.2 rfl
  exact absurd ((hrearms.invokedAt_iff hnext rfl 1 _).mp hsecond) (by decide)

end Schedule

end WaitableTimer

end Libuzi
