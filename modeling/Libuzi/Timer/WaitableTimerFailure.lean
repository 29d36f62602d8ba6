import Libuzi.Timer.WaitableTimer

/-!
# A call of `SetWaitableTimer` that fails

`SetWaitableTimer` has exits before, between and after the places where it writes, and what is
left behind depends on the exit.

| exit | what is left |
|---|---|
| the arguments are refused | nothing |
| `timerfd_create` fails | the timer is **freed** |
| `fcntl` fails | the descriptor is closed and **stays in the timer** |
| `timer_create` fails | the period, the routine and its argument are the new ones |
| the due time is absolute | these, and `timeout` is zero |
| the backend cannot be armed | these, and `timeout` is what was asked for |

So a failed call leaves the timer as it was when it gets no further than the arguments, or when
what it writes is what was there (`WaitableTimer.failed_changes_nothing_iff`).
-/

namespace Libuzi

namespace WaitableTimer

section Failure

variable {answers : Answers} {request : Request} {timer t : WinprTimer} {quadPart : Int64}
  {log : List Effect} {o : Outcome Bool}

/-- **The call has changed nothing**: the timer is allocated, no descriptor that the call has
opened is left in it after being closed, and its fields are what they were. -/
structure Unchanged (timer : WinprTimer) (o : Outcome Bool) : Prop where
  allocated : .free ∉ o.log
  descriptor : ∀ fd, .timerfdCreate fd ∈ o.log → .close fd ∈ o.log → o.timer.fd ≠ fd
  lPeriod : o.timer.lPeriod = timer.lPeriod
  pfnCompletionRoutine : o.timer.pfnCompletionRoutine = timer.pfnCompletionRoutine
  lpArgToCompletionRoutine : o.timer.lpArgToCompletionRoutine = timer.lpArgToCompletionRoutine
  timeout : o.timer.timeout = timer.timeout

/-- The period, the routine and its argument are in the timer already. -/
def Stored (request : Request) (timer : WinprTimer) : Prop :=
  request.lPeriod = timer.lPeriod ∧
    request.pfnCompletionRoutine = timer.pfnCompletionRoutine ∧
    request.lpArgToCompletionRoutine = timer.lpArgToCompletionRoutine

/-- The backend that the call creates is refused by the system: the descriptor. -/
def DescriptorRefused (answers : Answers) (request : Request) (timer : WinprTimer) : Prop :=
  timer.bInit = false ∧ request.lpArgToCompletionRoutine = none ∧
    (answers.timerfdCreate ≤ 0 ∨ answers.fcntl ≠ 0)

/-- The backend that the call creates is refused by the system: the POSIX timer. -/
def PosixRefused (answers : Answers) (request : Request) (timer : WinprTimer) : Prop :=
  timer.bInit = false ∧ request.lpArgToCompletionRoutine ≠ none ∧ answers.timerCreate = none

/-- The backend that the call arms is armed. -/
def Armed (answers : Answers) (request : Request) : Prop :=
  match request.pfnCompletionRoutine with
  | none => answers.timerfdSettime = 0
  | some _ => answers.timerSettime = 0

/-- **When a call that fails leaves no trace.** -/
def LeavesNoTrace (answers : Answers) (request : Request) (timer : WinprTimer) : Prop :=
  match request.lpDueTime with
  | none => True
  | some quadPart =>
    request.lPeriod < 0 ∨ ¬DescriptorRefused answers request timer ∧
      (PosixRefused answers request timer → Stored request timer) ∧
      (¬PosixRefused answers request timer →
        if 0 < quadPart then Stored request timer ∧ timer.timeout = .zero
        else ¬Armed answers request → Stored request timer ∧
          timer.timeout = requestedTimeout quadPart request.lPeriod)

/-- A timer becomes ready when its backend is not refused. -/
theorem Readies.not_refused (h : Readies answers request timer t log) :
    ¬DescriptorRefused answers request timer ∧ ¬PosixRefused answers request timer := by
  cases h with
  | already hinit =>
    constructor
    · rintro ⟨hinit', -⟩
      exact Bool.false_ne_true (hinit'.symm.trans hinit)
    · rintro ⟨hinit', -⟩
      exact Bool.false_ne_true (hinit'.symm.trans hinit)
  | now _ hi hok =>
    cases hi with
    | freed | closed | refused => exact absurd hok (Int.negSucc_ne_zero 0)
    | descriptor harg hfd hfcntl =>
      constructor
      · rintro ⟨-, -, hle | hne⟩
        · omega
        · exact hne hfcntl
      · rintro ⟨-, hne, -⟩
        exact hne harg
    | posix harg hcreate =>
      constructor
      · rintro ⟨-, hnone, -⟩
        exact harg hnone
      · rintro ⟨-, -, hnone⟩
        exact Option.some_ne_none _ (hcreate.symm.trans hnone)

/-- What arming leaves is unchanged when the arguments and the times were there. -/
theorem Kept.unchanged_iff (h : Kept request timer t log) (timeout : Itimerspec) (result : Bool)
    {armLog : List Effect} (hfree : .free ∉ armLog) (hclose : ∀ fd, .close fd ∉ armLog) :
    Unchanged timer ⟨{ t with timeout }, result, log ++ armLog⟩ ↔
      Stored request timer ∧ timer.timeout = timeout := by
  have hnone : ∀ fd, .close fd ∉ log ++ armLog := fun fd hmem =>
    (List.mem_append.mp hmem).elim (h.close fd) (hclose fd)
  constructor
  · intro hun
    refine ⟨⟨?_, ?_, ?_⟩, hun.timeout.symm⟩
    · exact h.lPeriod.symm.trans hun.lPeriod
    · exact h.pfnCompletionRoutine.symm.trans hun.pfnCompletionRoutine
    · exact h.lpArgToCompletionRoutine.symm.trans hun.lpArgToCompletionRoutine
  · rintro ⟨⟨hperiod, hpfn, harg⟩, htimeout⟩
    refine ⟨?_, fun fd _ hmem => absurd hmem (hnone fd), ?_, ?_, ?_, htimeout.symm⟩
    · exact fun hmem => (List.mem_append.mp hmem).elim h.free hfree
    · exact h.lPeriod.trans hperiod
    · exact h.pfnCompletionRoutine.trans hpfn
    · exact h.lpArgToCompletionRoutine.trans harg

/-- **What arming leaves**, a call being one that is ready to arm. -/
theorem Kept.leavesNoTrace_iff (h : Kept request timer t log) {a : Outcome Bool}
    (ha : Arms answers quadPart request.lPeriod t a) :
    (a.result = false → Unchanged timer ⟨a.timer, a.result, log ++ a.log⟩) ↔
      if 0 < quadPart then Stored request timer ∧ timer.timeout = .zero
      else ¬Armed answers request → Stored request timer ∧
        timer.timeout = requestedTimeout quadPart request.lPeriod := by
  have hpfn := h.pfnCompletionRoutine
  cases ha with
  | unsupported hpos =>
    rw [if_pos hpos]
    exact (imp_iff_right rfl).trans
      (h.unchanged_iff .zero false List.not_mem_nil fun _ => List.not_mem_nil)
  | descriptor hle hnone =>
    have harmed : Armed answers request ↔ answers.timerfdSettime = 0 := by
      rw [Armed, ← hpfn, hnone]
    rw [if_neg (Int64.not_lt.mpr hle), harmed]
    exact imp_congr decide_eq_false_iff_not (h.unchanged_iff _ _ (by simp) (by simp))
  | posix hle hsome =>
    have harmed : Armed answers request ↔ answers.timerSettime = 0 := by
      obtain ⟨pfn, hpfn'⟩ := Option.ne_none_iff_exists'.mp hsome
      rw [Armed, ← hpfn, hpfn']
    rw [if_neg (Int64.not_lt.mpr hle), harmed]
    exact imp_congr decide_eq_false_iff_not (h.unchanged_iff _ _ (by simp) (by simp))

/-- **What a failed initialisation leaves**: only a POSIX timer that is refused leaves the timer as
the arguments were stored in it. -/
theorem Initializes.leavesNoTrace_iff {i : Outcome ℤ}
    (hi : Initializes answers (store request timer) i) (hfail : i.result < 0)
    (hdue : request.lpDueTime = some quadPart) (hperiod : ¬request.lPeriod < 0)
    (hinit : timer.bInit = false) :
    Unchanged timer ⟨i.timer, false, i.log⟩ ↔ LeavesNoTrace answers request timer := by
  rw [LeavesNoTrace, hdue]
  cases hi with
  | freed harg hfd =>
    refine iff_of_false (fun h => h.allocated (by simp)) ?_
    rintro (hneg | ⟨hnot, -⟩)
    · exact hperiod hneg
    · exact hnot ⟨hinit, harg, Or.inl hfd⟩
  | closed harg hfd hfcntl =>
    refine iff_of_false (fun h => h.descriptor answers.timerfdCreate (by simp) (by simp) rfl) ?_
    rintro (hneg | ⟨hnot, -⟩)
    · exact hperiod hneg
    · exact hnot ⟨hinit, harg, Or.inr hfcntl⟩
  | refused harg hcreate =>
    have hposix : PosixRefused answers request timer := ⟨hinit, harg, hcreate⟩
    have hnot : ¬DescriptorRefused answers request timer := fun h => harg h.2.1
    constructor
    · intro h
      refine Or.inr ⟨hnot, fun _ => ?_, fun h => absurd hposix h⟩
      exact ⟨h.lPeriod, h.pfnCompletionRoutine, h.lpArgToCompletionRoutine⟩
    · rintro (hneg | ⟨-, hstored, -⟩)
      · exact absurd hneg hperiod
      · obtain ⟨hperiod', hpfn, harg'⟩ := hstored hposix
        exact ⟨List.not_mem_nil, fun _ h => absurd h List.not_mem_nil, hperiod', hpfn, harg', rfl⟩
  | descriptor | posix => exact absurd hfail (lt_irrefl 0)

/-- **When a failed call of `SetWaitableTimer` changes nothing**, whatever the timer, the
arguments and the answers of the system. -/
theorem failed_changes_nothing_iff (answers : Answers) (request : Request) (timer : WinprTimer) :
    ((setWaitableTimer answers request timer).result = false →
        Unchanged timer (setWaitableTimer answers request timer)) ↔
      LeavesNoTrace answers request timer := by
  have hsets := sets answers request timer
  generalize setWaitableTimer answers request timer = o at hsets
  cases hsets with
  | rejected hrejected =>
    refine iff_of_true (fun _ => ?_) ?_
    · exact ⟨List.not_mem_nil, fun _ h => absurd h List.not_mem_nil, rfl, rfl, rfl, rfl⟩
    · rw [LeavesNoTrace]
      cases hdue : request.lpDueTime with
      | none => trivial
      | some quadPart =>
        rw [hdue] at hrejected
        exact Or.inl (hrejected.resolve_left (Option.some_ne_none quadPart))
  | uninitialized hdue hperiod hinit hi hfail =>
    obtain ⟨quadPart, hdue⟩ := Option.ne_none_iff_exists'.mp hdue
    rw [imp_iff_right rfl]
    exact hi.leavesNoTrace_iff hfail hdue hperiod hinit
  | ready hdue hperiod hready ha =>
    obtain ⟨hdescriptor, hposix⟩ := hready.not_refused
    rw [LeavesNoTrace, hdue, hready.kept.leavesNoTrace_iff ha]
    constructor
    · exact fun h => Or.inr ⟨hdescriptor, fun h => absurd h hposix, fun _ => h⟩
    · rintro (hneg | ⟨-, -, h⟩)
      · exact absurd hneg hperiod
      · exact h hposix

/-- A new timer for which there is no descriptor: the call fails, and the timer is freed. -/
theorem failed_frees_timer :
    ¬∀ (answers : Answers) (request : Request),
      (setWaitableTimer answers request createWaitableTimerA).result = false →
      Unchanged createWaitableTimerA (setWaitableTimer answers request createWaitableTimerA) := by
  intro h
  have hfree := (h { granted with timerfdCreate := -1 } everyPeriod rfl).allocated
  exact hfree (List.mem_cons_of_mem _ List.mem_cons_self)

end Failure

end WaitableTimer

end Libuzi
