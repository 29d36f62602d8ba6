import Libuzi.Runs
import Mathlib.Algebra.Group.Nat.Defs

/-!
# A thread's end against the closing of its handle

Whoever comes last frees a `WINPR_THREAD`: the thread itself, at the end of
`thread_launcher`, if its handle has been closed, and `ThreadCloseHandle`, if the thread
has ended. The two tell each other by a flag each. The thread sets its event and then looks
at `detached`; the closing side looks at the event, by a wait without a timeout, and then
sets `detached`.

Here one such thread and one such call run against each other, step by step
(`libuzi/thread.c`): the stores and tests of either side, the wait with its join, and the
calls on the dictionary, of which the closing side holds the lock from `ListDictionary_Lock`
on. What the closing side does after the unlock does not concern the handle.

Between the look at the event and the store to `detached` the closing side has decided that
the thread will free the object, and the thread does not know yet. If it sets its event and
makes its test there, nobody frees the object (`cleanup_lost`). In every other
interleaving it is freed exactly once (`cleanup_once_iff`).
-/

namespace Libuzi

open Runs

namespace Thread

namespace CloseRace

/-! ### The model -/

/-- Where a party stands in `cleanup_handle`. -/
inductive CleanupPc
  /-- At its start: the condition and the mutexes are destroyed, the descriptors closed. -/
  | destroy
  /-- About to call `ListDictionary_Contains`. -/
  | contains
  /-- About to call `ListDictionary_Remove`. -/
  | remove
  /-- About to free the object. -/
  | free
  deriving DecidableEq

/-- Where the thread stands, after its function has returned. -/
inductive LauncherPc
  /-- About to store the exit code. -/
  | storeCode
  /-- About to set the event. -/
  | setEvent
  /-- About to test `detached`. -/
  | test
  /-- In `cleanup_handle`. -/
  | cleanup (pc : CleanupPc)
  /-- The thread has ended. -/
  | ended
  deriving DecidableEq

/-- Where the closing side stands in `ThreadCloseHandle`. -/
inductive CloserPc
  /-- About to call `ListDictionary_Contains`. -/
  | contains
  /-- About to lock the dictionary. -/
  | lock
  /-- About to poll the event, in `WaitForSingleObject(thread, 0)`. -/
  | poll
  /-- In `ThreadCleanupHandle`, about to join the thread if it has not been joined. -/
  | join
  /-- In `cleanup_handle`. -/
  | cleanup (pc : CleanupPc)
  /-- The wait has timed out; about to store `detached`. -/
  | storeDetached
  /-- About to call `pthread_detach`. -/
  | detach
  /-- About to unlock the dictionary. -/
  | unlock
  /-- Done with the handle. -/
  | done
  deriving DecidableEq

/-- The two parties. -/
inductive Party
  | launcher
  | closer
  deriving DecidableEq

/-- The state of the two parties and of the object between them. -/
structure State where
  /-- Where the thread stands. -/
  launcher : LauncherPc
  /-- Where the closing side stands. -/
  closer : CloserPc
  /-- What the thread function has returned. -/
  rc : ℕ
  /-- `started`. -/
  started : Bool
  /-- `exited`. -/
  exited : Bool
  /-- `dwExitCode`. -/
  dwExitCode : ℕ
  /-- Whether the event is set. -/
  signalled : Bool
  /-- `detached`. -/
  detached : Bool
  /-- `joined`. -/
  joined : Bool
  /-- The object's entry is in `thread_list`. -/
  registered : Bool
  /-- The closing side holds the lock of the dictionary. -/
  locked : Bool
  /-- How often `cleanup_handle` has been called on the object. -/
  cleanups : ℕ
  deriving DecidableEq

/-- A step of `cleanup_handle`, whose caller goes on at `goto`, and at `after` once it is over. -/
def cleanupStep (s : State) (goto : CleanupPc → State → State) (after : State → State) :
    CleanupPc → State
  | .destroy => goto .contains { s with cleanups := s.cleanups + 1 }
  | .contains => goto (if s.registered then .remove else .free) s
  | .remove => goto .free { s with registered := false }
  | .free => after s

/-- A step of the thread. -/
def launcherStep (s : State) : Option State :=
  match s.launcher with
  | .storeCode =>
    some { s with
      launcher := .setEvent
      dwExitCode := if s.exited then s.dwExitCode else s.rc % 2 ^ 32 }
  | .setEvent => some { s with launcher := .test, signalled := true }
  | .test =>
    some { s with launcher := if s.detached || !s.started then .cleanup .destroy else .ended }
  | .cleanup pc =>
    -- The calls on the dictionary wait for its lock.
    if s.locked && (pc = .contains || pc = .remove) then none
    else some (cleanupStep s (fun pc s => { s with launcher := .cleanup pc })
      (fun s => { s with launcher := .ended }) pc)
  | .ended => none

/-- A step of the closing side. -/
def closerStep (s : State) : Option State :=
  match s.closer with
  | .contains => some { s with closer := if s.registered then .lock else .done }
  | .lock => if s.locked then none else some { s with closer := .poll, locked := true }
  | .poll =>
    if s.started then some { s with closer := if s.signalled then .join else .storeDetached }
    else some { s with closer := .cleanup .destroy }
  | .join =>
    if s.joined then some { s with closer := .cleanup .destroy }
    else if s.launcher = .ended then some { s with closer := .cleanup .destroy, joined := true }
    else none
  | .cleanup pc =>
    some (cleanupStep s (fun pc s => { s with closer := .cleanup pc })
      (fun s => { s with closer := .unlock }) pc)
  | .storeDetached => some { s with closer := .detach, detached := true }
  | .detach => some { s with closer := .unlock }
  | .unlock => some { s with closer := .done, locked := false }
  | .done => none

/-- **One step** of the party that moves. -/
def step (s : State) : Party → Option State
  | .launcher => launcherStep s
  | .closer => closerStep s

/-- The start: the thread function has returned `rc`, and `CloseHandle` is called. Whether
`exited` is set, and what the exit code is then, is left open. -/
def start (rc : ℕ) (exited : Bool) (dwExitCode : ℕ) : State where
  launcher := .storeCode
  closer := .contains
  rc := rc
  started := true
  exited := exited
  dwExitCode := dwExitCode
  signalled := false
  detached := false
  joined := false
  registered := true
  locked := false
  cleanups := 0

/-- Both parties are done. -/
def State.Finished (s : State) : Prop := s.launcher = .ended ∧ s.closer = .done

/-- **The condition**: the thread does not make its test of `detached` while the closing side is
between its unsuccessful wait and its store to `detached`. -/
def TestOutside (s : State) : Party → Prop
  | .launcher => ¬ (s.launcher = .test ∧ s.closer = .storeDetached)
  | .closer => True

instance (s : State) : (e : Party) → Decidable (TestOutside s e)
  | .launcher => inferInstanceAs (Decidable (¬ (s.launcher = .test ∧ s.closer = .storeDetached)))
  | .closer => inferInstanceAs (Decidable True)

/-! ### Who frees the object -/

/-- The thread has not come to its test. -/
def LauncherPc.early : LauncherPc → Bool
  | .storeCode | .setEvent | .test => true
  | _ => false

/-- The thread has begun to clean up, or has ended. -/
def LauncherPc.cleaned : LauncherPc → Bool
  | .cleanup .contains | .cleanup .remove | .cleanup .free | .ended => true
  | _ => false

/-- **The object is being looked after**: by the closing side, by the thread, or by whoever will
come second. -/
def Good (s : State) : Prop :=
  s.started = true ∧
    match s.closer with
    | .contains | .lock | .poll =>
      s.detached = false ∧ s.joined = false ∧ s.cleanups = 0 ∧ s.registered = true ∧
        (s.launcher.early = true ∨ s.launcher = .ended) ∧
        (s.signalled = true ↔ s.launcher = .test ∨ s.launcher = .ended)
    | .join =>
      s.detached = false ∧ s.joined = false ∧ s.cleanups = 0 ∧
        (s.launcher = .test ∨ s.launcher = .ended)
    | .cleanup .destroy => s.launcher = .ended ∧ s.detached = false ∧ s.cleanups = 0
    | .cleanup _ => s.launcher = .ended ∧ s.detached = false ∧ s.cleanups = 1
    | .storeDetached => s.detached = false ∧ s.cleanups = 0 ∧ s.launcher.early = true
    | .detach => s.detached = true ∧ s.cleanups = if s.launcher.cleaned then 1 else 0
    | .unlock | .done =>
      s.detached = true ∧ s.cleanups = (if s.launcher.cleaned then 1 else 0) ∨
        s.launcher = .ended ∧ s.cleanups = 1

/-- **The object is lost**: the thread has ended without it, and the closing side leaves it to
the thread. -/
def Lost (s : State) : Prop :=
  s.launcher = .ended ∧ s.cleanups = 0 ∧
    (s.closer = .storeDetached ∨ s.closer = .detach ∨ s.closer = .unlock ∨ s.closer = .done)

/-- The step that the condition excludes loses an object that was being looked after. -/
theorem lost_of_not_testOutside {s s' : State} {e : Party} (hg : Good s)
    (hok : ¬ TestOutside s e) (h : step s e = some s') : Lost s' := by
  cases e with
  | closer => exact absurd trivial hok
  | launcher =>
    obtain ⟨hl, hc⟩ := not_not.mp hok
    obtain ⟨hs, hg⟩ := hg
    simp only [hc] at hg
    simp only [step, launcherStep, hl, hs, hg.1, Bool.not_true, Bool.or_self,
      Bool.false_eq_true, if_false, Option.some.injEq] at h
    subst h
    exact ⟨rfl, hg.2.1, .inl hc⟩

/-- A lost object stays lost. -/
theorem lost_step {s s' : State} {e : Party} (hl : Lost s) (h : step s e = some s') :
    Lost s' := by
  obtain ⟨hl, hn, hc⟩ := hl
  cases e with
  | launcher => simp [step, launcherStep, hl] at h
  | closer =>
    rcases hc with hc | hc | hc | hc
    all_goals
      simp only [step, closerStep, hc, Option.some.injEq, reduceCtorEq] at h
    all_goals
      subst h
      simp [Lost, hl, hn]

/-- A step of the thread keeps the object looked after. -/
theorem good_launcherStep {s s' : State} (hg : Good s) (hok : TestOutside s .launcher)
    (h : launcherStep s = some s') : Good s' := by
  obtain ⟨hs, hg⟩ := hg
  obtain ⟨l, c, rc, st, ex, dw, sg, de, jo, re, lo, n⟩ := s
  subst hs
  cases l with
  | storeCode =>
    obtain rfl := Option.some.inj h
    refine ⟨rfl, ?_⟩
    rcases c with _ | _ | _ | _ | (_ | _ | _ | _) | _ | _ | _ | _ <;>
      simp_all [LauncherPc.early, LauncherPc.cleaned]
  | setEvent =>
    obtain rfl := Option.some.inj h
    refine ⟨rfl, ?_⟩
    rcases c with _ | _ | _ | _ | (_ | _ | _ | _) | _ | _ | _ | _ <;>
      simp_all [LauncherPc.early, LauncherPc.cleaned]
  | test =>
    obtain rfl := Option.some.inj h
    refine ⟨rfl, ?_⟩
    rcases c with _ | _ | _ | _ | (_ | _ | _ | _) | _ | _ | _ | _ <;>
      simp_all [LauncherPc.early, LauncherPc.cleaned, TestOutside]
  | cleanup pc =>
    obtain ⟨-, h⟩ := Option.ite_none_left_eq_some.mp h
    obtain rfl := Option.some.inj h
    refine ⟨by cases pc <;> rfl, ?_⟩
    cases pc with
    | contains =>
      cases re <;> rcases c with _ | _ | _ | _ | (_ | _ | _ | _) | _ | _ | _ | _ <;>
        simp_all [LauncherPc.early, LauncherPc.cleaned, cleanupStep]
    | _ =>
      rcases c with _ | _ | _ | _ | (_ | _ | _ | _) | _ | _ | _ | _ <;>
        simp_all [LauncherPc.early, LauncherPc.cleaned, cleanupStep]
  | ended => cases h

/-- A step of the closing side keeps the object looked after. -/
theorem good_closerStep {s s' : State} (hg : Good s) (h : closerStep s = some s') : Good s' := by
  obtain ⟨hs, hg⟩ := hg
  obtain ⟨l, c, rc, st, ex, dw, sg, de, jo, re, lo, n⟩ := s
  subst hs
  cases c with
  | contains =>
    obtain ⟨-, -, -, rfl, -⟩ := id hg
    obtain rfl := Option.some.inj h
    exact ⟨rfl, hg⟩
  | lock =>
    obtain ⟨-, h⟩ := Option.ite_none_left_eq_some.mp h
    obtain rfl := Option.some.inj h
    exact ⟨rfl, hg⟩
  | poll =>
    obtain ⟨hd, hj, hn, hr, hl, hsg⟩ := hg
    obtain rfl := Option.some.inj h
    refine ⟨rfl, ?_⟩
    rcases Bool.eq_false_or_eq_true sg with rfl | rfl
    · exact ⟨hd, hj, hn, hsg.mp rfl⟩
    · refine ⟨hd, hn, hl.resolve_right fun he => ?_⟩
      exact absurd (hsg.mpr (.inr he)) Bool.false_ne_true
  | join =>
    obtain ⟨hd, rfl, hn, -⟩ := hg
    obtain ⟨he, h⟩ := Option.ite_none_right_eq_some.mp h
    obtain rfl := Option.some.inj h
    exact ⟨rfl, he, hd, hn⟩
  | cleanup pc =>
    obtain rfl := Option.some.inj h
    cases pc with
    | destroy => exact ⟨rfl, hg.1, hg.2.1, congrArg (· + 1) hg.2.2⟩
    | contains =>
      refine ⟨rfl, ?_⟩
      cases re <;> exact hg
    | remove => exact ⟨rfl, hg⟩
    | free => exact ⟨rfl, .inr ⟨hg.1, hg.2.2⟩⟩
  | storeDetached =>
    obtain ⟨-, hn, hl⟩ := hg
    obtain rfl := Option.some.inj h
    have hl : l.cleaned = false := by cases l <;> simp_all [LauncherPc.early, LauncherPc.cleaned]
    refine ⟨rfl, rfl, ?_⟩
    rw [if_neg (by simp [hl]), ← hn]
  | detach =>
    obtain rfl := Option.some.inj h
    exact ⟨rfl, .inl hg⟩
  | unlock =>
    obtain rfl := Option.some.inj h
    exact ⟨rfl, hg⟩
  | done => cases h

theorem good_step {s s' : State} {e : Party} (hg : Good s) (hok : TestOutside s e)
    (h : step s e = some s') : Good s' := by
  cases e with
  | launcher => exact good_launcherStep hg hok h
  | closer => exact good_closerStep hg h

theorem good_start (rc : ℕ) (exited : Bool) (dwExitCode : ℕ) :
    Good (start rc exited dwExitCode) := by
  refine ⟨rfl, rfl, rfl, rfl, rfl, .inl rfl, ?_⟩
  simp [start]

/-- A lost object is lost for good. -/
theorem lost_run {es : List Party} {s s' : State} (hl : Lost s) (h : run step s es = some s') :
    Lost s' := by
  induction es generalizing s with
  | nil =>
    obtain rfl := Option.some.inj h
    exact hl
  | cons e es ih =>
    obtain ⟨t, hst, ht⟩ := Option.bind_eq_some_iff.mp h
    exact ih (lost_step hl hst) ht

/-- Along a run, the object is looked after as long as every step meets the condition, and lost
from the first step on that does not. -/
theorem good_or_lost_run {es : List Party} {s s' : State} (hg : Good s)
    (h : run step s es = some s') :
    AllMeet step TestOutside s es ∧ Good s' ∨ ¬ AllMeet step TestOutside s es ∧ Lost s' := by
  induction es generalizing s with
  | nil =>
    obtain rfl := Option.some.inj h
    exact .inl ⟨trivial, hg⟩
  | cons e es ih =>
    obtain ⟨t, hst, ht⟩ := Option.bind_eq_some_iff.mp h
    by_cases hok : TestOutside s e
    · refine (ih (good_step hg hok hst) ht).imp (fun h => ⟨⟨hok, fun u hu => ?_⟩, h.2⟩)
        fun h => ⟨fun hm => h.1 (hm.2 t hst), h.2⟩
      obtain rfl := Option.some.inj (hst.symm.trans hu)
      exact h.1
    · exact .inr ⟨fun hm => hok hm.1, lost_run (lost_of_not_testOutside hg hok hst) ht⟩

/-! ### Exactly once -/

theorem Good.cleanups_eq {s : State} (hg : Good s) (hf : s.Finished) : s.cleanups = 1 := by
  obtain ⟨-, hg⟩ := hg
  simp only [hf.1, hf.2] at hg
  rcases hg with ⟨-, hn⟩ | ⟨-, hn⟩ <;> exact hn

/-- **The object is cleaned up exactly once just when the thread's test falls outside the gap**:
for every interleaving of the end of a thread with a call that closes its handle, once both are
done, `cleanup_handle` has been called exactly once if and only if the thread did not test
`detached` between the closing side's unsuccessful wait and its store to `detached`. -/
theorem cleanup_once_iff (rc : ℕ) (exited : Bool) (dwExitCode : ℕ) (es : List Party) (s : State)
    (h : run step (start rc exited dwExitCode) es = some s) (hf : s.Finished) :
    s.cleanups = 1 ↔ AllMeet step TestOutside (start rc exited dwExitCode) es := by
  rcases good_or_lost_run (good_start rc exited dwExitCode) h with ⟨hm, hg⟩ | ⟨hm, hl⟩
  · exact iff_of_true (hg.cleanups_eq hf) hm
  · refine iff_of_false ?_ hm
    rw [hl.2.1]
    exact Nat.zero_ne_one

/-- The handle is closed while the thread function runs, and the thread cleans up. -/
def closedFirst : List Party :=
  List.replicate 6 .closer ++ List.replicate 7 .launcher

/-- A thread whose handle is closed first cleans up after itself, once. -/
theorem cleanup_once_closedFirst :
    (run step (start 0 false 0) closedFirst).isSome = true ∧
      (final step (start 0 false 0) closedFirst).cleanups = 1 := by
  refine ⟨by decide +kernel, ?_⟩
  exact (cleanup_once_iff 0 false 0 closedFirst _ (run_eq_final (by decide +kernel))
    (by unfold State.Finished; decide +kernel)).mpr (by decide +kernel)

/-- The thread ends while the closing side has seen its event unset and not yet stored
`detached`. -/
def endsInGap : List Party :=
  List.replicate 3 .closer ++ List.replicate 3 .launcher ++ List.replicate 3 .closer

/-- **The cleanup is lost** when the thread ends in the gap. -/
theorem cleanup_lost :
    ¬ ∀ (rc : ℕ) (exited : Bool) (dwExitCode : ℕ) (es : List Party) (s : State),
      run step (start rc exited dwExitCode) es = some s → s.Finished → s.cleanups = 1 := by
  intro h
  have hc := h 0 false 0 endsInGap _ (run_eq_final (by decide +kernel))
    (by unfold State.Finished; decide +kernel)
  exact absurd hc (by decide +kernel)

end CloseRace

end Thread

end Libuzi
