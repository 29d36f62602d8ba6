import Libuzi.Runs
import Libuzi.Timer.WaitableTimer

/-!
# The backend that is armed

Over a run of calls, a timer gets one backend: the first call that passes the checks creates
it, and what that call has for `lpArgToCompletionRoutine` decides which. Every call arms the
backend that its `pfnCompletionRoutine` decides. The invariant of a run says which backend there
is (`WaitableTimer.Backend`):

| backend | `bInit` | `fd` | created so far |
|---|---|---|---|
| none yet | no | `-1` | nothing |
| a descriptor | yes | positive | `fd`, and no POSIX timer |
| a POSIX timer | yes | `-1` | `tid`, and no descriptor |

So a call arms what has been created exactly when its routine goes with the backend
(`WaitableTimer.founded_iff`).
-/

namespace Libuzi

open Runs

namespace WaitableTimer

/-! ### Runs of calls -/

section Run

/-- A timer, unless it has been freed, and the system calls made for it, the latest first. -/
structure Record where
  timer : Option WinprTimer
  log : List Effect

/-- The record of a new timer. -/
def Record.new : Record := ⟨some createWaitableTimerA, []⟩

/-- A call of `SetWaitableTimer`, with the answers of the system, on a timer that has not been
freed. -/
def callStep (s : Record) (c : Answers × Request) : Option Record :=
  match s.timer with
  | none => none
  | some timer =>
    let o := setWaitableTimer c.1 c.2 timer
    some ⟨if .free ∈ o.log then none else some o.timer, o.log.reverse ++ s.log⟩

/-- The system calls that create a backend succeed. -/
def Succeeds (answers : Answers) : Prop :=
  0 ≤ answers.timerfdCreate ∧ answers.fcntl = 0 ∧ answers.timerCreate ≠ none

instance (answers : Answers) : Decidable (Succeeds answers) :=
  inferInstanceAs (Decidable (_ ∧ _ ∧ _))

/-- **What is armed has been created**: every descriptor and every timer that is armed was
returned earlier, the list being the latest first. -/
def Founded : List Effect → Prop
  | [] => True
  | .timerfdSettime fd _ :: log => .timerfdCreate fd ∈ log ∧ Founded log
  | .timerSettime tid _ :: log => .timerCreate tid ∈ log ∧ Founded log
  | _ :: log => Founded log

/-- The call gets as far as arming: the arguments pass the checks, and a descriptor that is
created is not `0`, which `InitializeWaitableTimer` takes for a failure. -/
def GetsToArm (answers : Answers) (request : Request) (timer : WinprTimer) : Prop :=
  (∃ quadPart ∈ request.lpDueTime, quadPart ≤ 0) ∧ 0 ≤ request.lPeriod ∧
    (timer.bInit = false → request.lpArgToCompletionRoutine = none → 0 < answers.timerfdCreate)

/-- The routine of a call goes with the backend: the one there is, or the one that the argument
decides. -/
def Matches (request : Request) (timer : WinprTimer) : Prop :=
  if timer.bInit then request.pfnCompletionRoutine = none ↔ timer.fd ≠ -1
  else request.pfnCompletionRoutine = none ↔ request.lpArgToCompletionRoutine = none

/-- **The condition on a call.** -/
def ArmsItsBackend (s : Record) (c : Answers × Request) : Prop :=
  ∀ timer ∈ s.timer, GetsToArm c.1 c.2 timer → Matches c.2 timer

instance (answers : Answers) (request : Request) (timer : WinprTimer) :
    Decidable (GetsToArm answers request timer) :=
  inferInstanceAs (Decidable (_ ∧ _ ∧ _))

instance (request : Request) (timer : WinprTimer) : Decidable (Matches request timer) :=
  inferInstanceAs (Decidable (if timer.bInit then _ ↔ timer.fd ≠ -1 else _ ↔ _ = none))

instance (s : Record) (c : Answers × Request) : Decidable (ArmsItsBackend s c) :=
  inferInstanceAs (Decidable (∀ timer ∈ s.timer, GetsToArm c.1 c.2 timer → Matches c.2 timer))

end Run

/-! ### The backend of a timer -/

section Backend

variable {answers : Answers} {request : Request} {timer t : WinprTimer} {quadPart : Int64}
  {lPeriod : Int32} {log log' : List Effect}

/-- **The backend of a timer.** -/
inductive Backend (timer : WinprTimer) (log : List Effect) : Prop
  | none (hinit : timer.bInit = false) (hfd : timer.fd = -1)
      (hfds : ∀ fd, .timerfdCreate fd ∉ log) (htids : ∀ tid, .timerCreate tid ∉ log)
  | descriptor (hinit : timer.bInit = true) (hfd : 0 < timer.fd)
      (hcreated : .timerfdCreate timer.fd ∈ log) (htids : ∀ tid, .timerCreate tid ∉ log)
  | posix (hinit : timer.bInit = true) (hfd : timer.fd = -1)
      (hcreated : .timerCreate timer.tid ∈ log) (hfds : ∀ fd, .timerfdCreate fd ∉ log)

/-- The descriptor has been created exactly when it is one. -/
theorem Backend.fd_created_iff (h : Backend timer log) :
    .timerfdCreate timer.fd ∈ log ↔ timer.fd ≠ -1 := by
  cases h with
  | none _ hfd hfds => exact iff_of_false (hfds _) (not_not.mpr hfd)
  | descriptor _ hfd hcreated => exact iff_of_true hcreated (by omega)
  | posix _ hfd _ hfds => exact iff_of_false (hfds _) (not_not.mpr hfd)

/-- The POSIX timer of an initialised timer has been created exactly when there is no
descriptor. -/
theorem Backend.tid_created_iff (h : Backend timer log) (hinit : timer.bInit = true) :
    .timerCreate timer.tid ∈ log ↔ timer.fd = -1 := by
  cases h with
  | none hinit' => exact absurd (hinit'.symm.trans hinit) Bool.false_ne_true
  | descriptor _ hfd _ htids => exact iff_of_false (htids _) (by omega)
  | posix _ hfd hcreated => exact iff_of_true hcreated hfd

/-- What does not create a backend leaves the backend. -/
theorem Backend.congr (h : Backend timer log) (hinit : t.bInit = timer.bInit)
    (hfd : t.fd = timer.fd) (htid : t.tid = timer.tid)
    (hfds : ∀ fd, .timerfdCreate fd ∈ log' ↔ .timerfdCreate fd ∈ log)
    (htids : ∀ tid, .timerCreate tid ∈ log' ↔ .timerCreate tid ∈ log) : Backend t log' := by
  cases h with
  | none hinit' hfd' hfds' htids' =>
    exact .none (hinit.trans hinit') (hfd.trans hfd') (fun fd h => hfds' fd ((hfds fd).mp h))
      fun tid h => htids' tid ((htids tid).mp h)
  | descriptor hinit' hfd' hcreated htids' =>
    exact .descriptor (hinit.trans hinit') (hfd ▸ hfd') ((hfds _).mpr (hfd ▸ hcreated))
      fun tid h => htids' tid ((htids tid).mp h)
  | posix hinit' hfd' hcreated hfds' =>
    exact .posix (hinit.trans hinit') (hfd.trans hfd') ((htids _).mpr (htid ▸ hcreated))
      fun fd h => hfds' fd ((hfds fd).mp h)

/-- **A timer that becomes ready has a backend**, and the routine of the call goes with it when
it goes with the one there was or the argument. -/
theorem Readies.backend (h : Readies answers request timer t log) (hbackend : Backend timer log') :
    Backend t (log.reverse ++ log') ∧ t.bInit = true ∧
      t.pfnCompletionRoutine = request.pfnCompletionRoutine ∧
      (Matches request timer ↔ (request.pfnCompletionRoutine = none ↔ t.fd ≠ -1)) := by
  cases h with
  | already hinit =>
    refine ⟨hbackend.congr rfl rfl rfl (fun _ => Iff.rfl) fun _ => Iff.rfl, hinit, rfl, ?_⟩
    rw [Matches, if_pos hinit]
    exact Iff.rfl
  | now hinit hi hok =>
    have hmatches : Matches request timer ↔
        (request.pfnCompletionRoutine = none ↔ request.lpArgToCompletionRoutine = none) := by
      rw [Matches, hinit]
      exact Iff.rfl
    -- a timer that is initialised now had no backend
    have hno : timer.fd = -1 ∧ (∀ fd, .timerfdCreate fd ∉ log') ∧
        ∀ tid, .timerCreate tid ∉ log' := by
      cases hbackend with
      | none _ hfd hfds htids => exact ⟨hfd, hfds, htids⟩
      | descriptor hinit' | posix hinit' =>
        exact absurd (hinit.symm.trans hinit') Bool.false_ne_true
    obtain ⟨hfd, hfds, htids⟩ := hno
    rw [hmatches]
    cases hi with
    | freed | closed | refused => exact absurd hok (Int.negSucc_ne_zero 0)
    | descriptor harg hpos =>
      refine ⟨.descriptor rfl hpos List.mem_cons_self fun tid h => ?_, rfl, rfl, ?_⟩
      · exact (List.mem_cons.mp h).elim (by simp) (htids tid)
      · exact iff_congr Iff.rfl (iff_of_true harg (by dsimp only; omega))
    | posix harg =>
      refine ⟨.posix rfl hfd List.mem_cons_self fun fd h => ?_, rfl, rfl, ?_⟩
      · exact (List.mem_cons.mp h).elim (by simp) (hfds fd)
      · exact iff_congr Iff.rfl (iff_of_false harg (not_not.mpr hfd))

/-- Becoming ready arms nothing. -/
theorem Readies.isFounded_iff (h : Readies answers request timer t log) :
    Founded (log.reverse ++ log') ↔ Founded log' := by
  cases h with
  | already => exact Iff.rfl
  | now _ hi hok =>
    cases hi with
    | freed | closed | refused => exact absurd hok (Int.negSucc_ne_zero 0)
    | descriptor | posix => exact Iff.rfl

/-- **Arming keeps the backend**, and arms it exactly when the routine goes with it. -/
theorem Arms.backend {a : Outcome Bool} (ha : Arms answers quadPart lPeriod t a)
    (h : Backend t log) (hinit : t.bInit = true) :
    Backend a.timer (a.log.reverse ++ log) ∧ .free ∉ a.log ∧
      (Founded (a.log.reverse ++ log) ↔ Founded log ∧
        (quadPart ≤ 0 → (t.pfnCompletionRoutine = none ↔ t.fd ≠ -1))) := by
  cases ha with
  | unsupported hdue =>
    refine ⟨h.congr rfl rfl rfl (fun _ => Iff.rfl) fun _ => Iff.rfl, List.not_mem_nil, ?_⟩
    exact (and_iff_left fun hle => absurd hdue (Int64.not_lt.mpr hle)).symm
  | descriptor hdue hpfn =>
    refine ⟨h.congr rfl rfl rfl (by simp) (by simp), by simp, ?_⟩
    have hfounded : Founded (.timerfdSettime t.fd (requestedTimeout quadPart lPeriod) :: log) ↔
        .timerfdCreate t.fd ∈ log ∧ Founded log := Iff.rfl
    rw [hpfn, List.reverse_singleton, List.singleton_append, hfounded, h.fd_created_iff, and_comm]
    exact and_congr_right fun _ => ⟨fun hfd _ => iff_of_true rfl hfd, fun h => (h hdue).mp rfl⟩
  | posix hdue hpfn =>
    refine ⟨h.congr rfl rfl rfl (by simp) (by simp), by simp, ?_⟩
    have hfounded : Founded (.timerSettime t.tid (requestedTimeout quadPart lPeriod) :: log) ↔
        .timerCreate t.tid ∈ log ∧ Founded log := Iff.rfl
    rw [List.reverse_singleton, List.singleton_append, hfounded, h.tid_created_iff hinit, and_comm]
    refine and_congr_right fun _ => ⟨fun hfd _ => iff_of_false hpfn (not_not.mpr hfd), fun h => ?_⟩
    exact not_not.mp (mt (h hdue).mpr hpfn)

end Backend

/-! ### The run -/

section Founded

variable {answers : Answers} {request : Request} {timer : WinprTimer} {log : List Effect}
  {s s' : Record} {c : Answers × Request} {cs : List (Answers × Request)}

/-- The timer of a record has a backend. -/
def HasBackend (s : Record) : Prop := ∀ timer ∈ s.timer, Backend timer s.log

theorem hasBackend_new : HasBackend .new := by
  rintro timer htimer
  obtain rfl := Option.some.inj htimer
  exact .none rfl rfl (fun _ => List.not_mem_nil) fun _ => List.not_mem_nil

/-- A call whose timer is ready arms it, if the due time is not positive. -/
theorem Readies.getsToArm_iff {t : WinprTimer} {readyLog : List Effect} {quadPart : Int64}
    (h : Readies answers request timer t readyLog) (hdue : request.lpDueTime = some quadPart)
    (hperiod : ¬request.lPeriod < 0) : GetsToArm answers request timer ↔ quadPart ≤ 0 := by
  constructor
  · rintro ⟨⟨other, hother, hle⟩, -⟩
    obtain rfl := Option.some.inj (hdue.symm.trans hother)
    exact hle
  · intro hle
    refine ⟨⟨quadPart, hdue, hle⟩, Int32.not_lt.mp hperiod, fun hnew harg => ?_⟩
    cases h with
    | already hold => exact absurd (hnew.symm.trans hold) Bool.false_ne_true
    | now _ hi hzero =>
      cases hi with
      | freed | closed | refused => exact absurd hzero (Int.negSucc_ne_zero 0)
      | descriptor _ hfd => exact hfd
      | posix hne => exact absurd harg hne

/-- **What one call does to the record**: it keeps the backend, unless it frees the timer, and
arms what has been created exactly when the routine goes with the backend. -/
theorem Sets.backend {o : Outcome Bool} (h : Sets answers request timer o)
    (hok : Succeeds answers) (hbackend : Backend timer log) :
    (.free ∉ o.log → Backend o.timer (o.log.reverse ++ log)) ∧
      (Founded (o.log.reverse ++ log) ↔
        Founded log ∧ (GetsToArm answers request timer → Matches request timer)) := by
  cases h with
  | rejected hrejected =>
    have hnot : ¬GetsToArm answers request timer := by
      rintro ⟨⟨quadPart, hdue, -⟩, hperiod, -⟩
      rcases hrejected with hnone | hneg
      · exact Option.some_ne_none quadPart (hdue.symm.trans hnone)
      · exact absurd hneg (Int32.not_lt.mpr hperiod)
    exact ⟨fun _ => hbackend, (and_iff_left fun h => absurd h hnot).symm⟩
  | uninitialized _ _ hinit hi hfail =>
    obtain ⟨-, hfcntl, hcreate⟩ := hok
    cases hi with
    | freed harg hfd =>
      have hnot : ¬GetsToArm answers request timer := fun h =>
        absurd (h.2.2 hinit harg) (not_lt.mpr hfd)
      refine ⟨fun hfree => absurd (by simp) hfree, ?_⟩
      exact (and_iff_left fun h => absurd h hnot).symm
    | closed _ _ hne => exact absurd hfcntl hne
    | refused _ hnone => exact absurd hnone hcreate
    | descriptor | posix => exact absurd hfail (lt_irrefl 0)
  | @ready quadPart hdue hperiod t readyLog hready a ha =>
    obtain ⟨ht, hinit, hpfn, hmatches⟩ := hready.backend hbackend
    obtain ⟨hkept, -, hfounded⟩ := ha.backend ht hinit
    have hlog : (readyLog ++ a.log).reverse ++ log =
        a.log.reverse ++ (readyLog.reverse ++ log) := by
      rw [List.reverse_append, List.append_assoc]
    rw [hlog, hfounded, hready.isFounded_iff, hready.getsToArm_iff hdue hperiod, hmatches, hpfn]
    exact ⟨fun _ => hkept, Iff.rfl⟩

/-- **One call of a run.** -/
theorem callStep_founded (h : HasBackend s) (hok : Succeeds c.1) (hstep : callStep s c = some s') :
    HasBackend s' ∧ (Founded s'.log ↔ Founded s.log ∧ ArmsItsBackend s c) := by
  obtain ⟨timer, log⟩ := s
  cases timer with
  | none => exact absurd hstep.symm (Option.some_ne_none s')
  | some timer =>
    obtain rfl := Option.some.inj hstep
    obtain ⟨hkept, hfounded⟩ := (sets c.1 c.2 timer).backend hok (h timer rfl)
    have harms : ArmsItsBackend ⟨some timer, log⟩ c ↔
        (GetsToArm c.1 c.2 timer → Matches c.2 timer) :=
      ⟨fun h => h timer rfl, fun h t ht => by obtain rfl := Option.some.inj ht; exact h⟩
    rw [harms]
    refine ⟨fun t ht => ?_, hfounded⟩
    dsimp only at ht
    split at ht
    · exact absurd ht.symm (Option.some_ne_none t)
    · next hfree =>
      obtain rfl := Option.some.inj ht
      exact hkept hfree

/-- **A run arms the backends it created if and only if the routine of every call that gets as
far as arming goes with the backend.** -/
theorem founded_iff (hok : AllMeet callStep (fun _ c => Succeeds c.1) .new cs)
    (hrun : run callStep .new cs = some s) :
    Founded s.log ↔ AllMeet callStep ArmsItsBackend .new cs := by
  have hall := run_iff_allMeet_of (P := fun s => Founded s.log) (I := HasBackend) hasBackend_new
    hok (fun _ _ _ h hok hstep => callStep_founded h hok hstep) hrun
  exact hall.2.trans (and_iff_right trivial)

/-- The same with a routine and its argument. -/
def everyPeriodApc : Request :=
  { everyPeriod with pfnCompletionRoutine := some 100, lpArgToCompletionRoutine := some 200 }

/-- A timer that is always used without a routine, and one that is always used with one. -/
theorem founded_every_period :
    (∃ s, run callStep .new [(granted, everyPeriod), (granted, everyPeriod)] = some s ∧
      Founded s.log) ∧
    ∃ s, run callStep .new [(granted, everyPeriodApc), (granted, everyPeriodApc)] = some s ∧
      Founded s.log :=
  ⟨⟨_, run_eq_final rfl, (founded_iff (by decide) (run_eq_final rfl)).mpr (by decide)⟩,
    ⟨_, run_eq_final rfl, (founded_iff (by decide) (run_eq_final rfl)).mpr (by decide)⟩⟩

/-- A timer that is used with a routine first, and then without: `timerfd_settime` is called for
the descriptor `-1`. -/
theorem founded_fails :
    ¬∀ (cs : List (Answers × Request)) (s : Record),
      AllMeet callStep (fun _ c => Succeeds c.1) .new cs → run callStep .new cs = some s →
      Founded s.log := by
  intro h
  have hfounded := h [(granted, everyPeriodApc), (granted, everyPeriod)] _ (by decide)
    (run_eq_final rfl)
  exact absurd hfounded.1 (by decide)

end Founded

end WaitableTimer

end Libuzi
