import Libuzi.Runs
import Libuzi.Lists.ListDictionary
import Mathlib.Logic.Function.Basic

/-!
# The gate in front of a thread function

A new thread is to call its function only when it has an entry in `thread_list`. So
`winpr_StartThread` (`libuzi/thread.c`) adds the entry under `threadIsReadyMutex` and signals
`threadIsReady`, and `thread_launcher`, under the same mutex, looks the thread up and waits
for the signal if it is not there. Here the two run against each other, each call of the
pthread library and of the dictionary one step, and any of them may fail where the code looks
at its result. The setting up of the attributes and of the event is left out, and what
`thread_launcher` does after the thread function is one step.

The gate is open too early in two ways, each of which needs a coincidence. The look-up goes by
`pthread_t`, and another entry may have an equal one: that of a thread that has been joined,
while its handle is still open. And the wait stands in an `if`, not in a loop, so a wait that
ends without a signal is taken for a signal. Where neither happens, and no cleanup of another
handle takes the new entry for its own before the thread function is called, the gate holds
(`gate_holds`).
-/

namespace Libuzi

open Runs

namespace Thread

namespace StartGate

/-! ### The model -/

/-- The two that share the mutex. -/
inductive Party
  | starter
  | launcher
  deriving DecidableEq

/-- Where `winpr_StartThread` stands. -/
inductive StarterPc
  /-- About to call `pthread_create`. -/
  | create
  /-- About to lock `threadIsReadyMutex`. -/
  | lock
  /-- About to call `ListDictionary_Add`. -/
  | add
  /-- About to signal `threadIsReady`. -/
  | signal
  /-- About to unlock the mutex, all having gone well. -/
  | unlock
  /-- About to unlock the mutex after a failure. -/
  | abandon
  /-- It has returned. -/
  | returned (result : Bool)
  deriving DecidableEq

/-- Where `thread_launcher` stands. -/
inductive LauncherPc
  /-- There is no thread yet. -/
  | notStarted
  /-- About to test `lpStartAddress`. -/
  | begin
  /-- About to lock `threadIsReadyMutex`. -/
  | lock
  /-- About to call `ListDictionary_Contains`. -/
  | contains
  /-- About to call `pthread_cond_wait`. -/
  | wait
  /-- In `pthread_cond_wait`, without the mutex. -/
  | waiting
  /-- In `pthread_cond_wait`, about to take the mutex again. -/
  | reacquire
  /-- About to unlock the mutex after `pthread_cond_wait` has failed. -/
  | waitFailed
  /-- About to unlock the mutex. -/
  | unlock
  /-- About to look the thread up for the assertion. -/
  | assert
  /-- The assertion has failed. -/
  | aborted
  /-- In the thread function. -/
  | running
  /-- At the label `exit`. -/
  | exit
  /-- It has returned. -/
  | ended
  deriving DecidableEq

/-- What the two share. -/
structure State where
  /-- The field `thread` of the objects, by address. -/
  thread : ℕ → ℕ
  /-- `thread_list`. An item's key is given by the object whose `pthread_t` it points to. -/
  threadList : List (ℕ × ℕ)
  /-- Whether `lpStartAddress` is not `NULL`. -/
  lpStartAddress : Bool
  /-- Who holds `threadIsReadyMutex`. -/
  mutex : Option Party
  /-- `threadIsReady` has been signalled to the thread that waits. -/
  woken : Bool
  /-- Where `winpr_StartThread` stands. -/
  starter : StarterPc
  /-- Where `thread_launcher` stands. -/
  launcher : LauncherPc
  /-- The entry of the new thread has been added. -/
  added : Bool

/-- The start of `winpr_StartThread`, whatever is in `thread_list`. -/
def start (thread : ℕ → ℕ) (threadList : List (ℕ × ℕ)) (lpStartAddress : Bool) : State where
  thread := thread
  threadList := threadList
  lpStartAddress := lpStartAddress
  mutex := none
  woken := false
  starter := .create
  launcher := .notStarted
  added := false

/-- How a call of a library function ends. -/
inductive Answer
  /-- It succeeds. -/
  | go
  /-- It fails. -/
  | fail
  /-- `pthread_create` succeeds, and the new thread is `tid`. -/
  | pthread (tid : ℕ)
  deriving DecidableEq

/-- What is done for another object, at `k`. -/
inductive Other
  /-- A thread is created for it. -/
  | create (k tid : ℕ)
  /-- Its entry is added. -/
  | add (k : ℕ)
  /-- `cleanup_handle` looks for its entry, and removes what it finds. -/
  | remove (k : ℕ)
  deriving DecidableEq

/-- The other object. -/
def Other.object : Other → ℕ
  | .create k _ | .add k | .remove k => k

/-- A step of the whole. -/
inductive Label
  | starter (a : Answer)
  | launcher (a : Answer)
  /-- `pthread_cond_wait` ends without a signal. -/
  | wake
  | other (o : Other)
  deriving DecidableEq

/-- `thread_compare` of a key with a pointer to the `pthread_t` of the object at `k`. -/
def State.threadCompare (s : State) (k : ℕ) (key : ℕ) : Bool :=
  decide (s.thread key = s.thread k)

/-- `ListDictionary_Contains(thread_list, &thread->thread)`, for the object at `k`. -/
def State.contains (s : State) (k : ℕ) : Bool :=
  ListDictionary.contains (s.threadCompare k) s.threadList

/-- A step of `winpr_StartThread`, for the object at `h`. -/
def starterStep (h : ℕ) (s : State) (a : Answer) : Option State :=
  match s.starter, a with
  | .create, .pthread tid =>
    some { s with
      thread := Function.update s.thread h tid
      starter := .lock
      launcher := .begin }
  | .create, .fail => some { s with starter := .returned false }
  | .lock, .go =>
    if s.mutex = none then some { s with mutex := some .starter, starter := .add } else none
  | .lock, .fail => some { s with starter := .returned false }
  | .add, .go =>
    some { s with
      threadList := ListDictionary.add s.threadList h h
      starter := .signal
      added := true }
  | .add, .fail => some { s with starter := .abandon }
  | .signal, .go =>
    -- a signal that nobody waits for is lost
    some { s with woken := s.woken || decide (s.launcher = .waiting), starter := .unlock }
  | .signal, .fail => some { s with starter := .abandon }
  | .unlock, .go => some { s with mutex := none, starter := .returned true }
  | .unlock, .fail => some { s with starter := .returned false }
  | .abandon, .go => some { s with mutex := none, starter := .returned false }
  | _, _ => none

/-- A step of `thread_launcher`, for the object at `h`. -/
def launcherStep (h : ℕ) (s : State) (a : Answer) : Option State :=
  match s.launcher, a with
  | .begin, .go => some { s with launcher := if s.lpStartAddress then .lock else .exit }
  | .lock, .go =>
    if s.mutex = none then some { s with mutex := some .launcher, launcher := .contains }
    else none
  | .lock, .fail => some { s with launcher := .exit }
  | .contains, .go => some { s with launcher := if s.contains h then .unlock else .wait }
  | .wait, .go => some { s with mutex := none, woken := false, launcher := .waiting }
  | .wait, .fail => some { s with launcher := .waitFailed }
  | .waiting, .go => if s.woken then some { s with launcher := .reacquire } else none
  | .reacquire, .go =>
    if s.mutex = none then some { s with mutex := some .launcher, launcher := .unlock } else none
  | .waitFailed, .go => some { s with mutex := none, launcher := .exit }
  | .unlock, .go => some { s with mutex := none, launcher := .assert }
  | .unlock, .fail => some { s with launcher := .exit }
  | .assert, .go => some { s with launcher := if s.contains h then .running else .aborted }
  | .running, .go => some { s with launcher := .exit }
  | .exit, .go => some { s with launcher := .ended }
  | _, _ => none

/-- What is done for another object. -/
def otherStep (s : State) : Other → State
  | .create k tid => { s with thread := Function.update s.thread k tid }
  | .add k => { s with threadList := ListDictionary.add s.threadList k k }
  | .remove k =>
    { s with threadList :=
        if s.contains k then ListDictionary.remove (s.threadCompare k) s.threadList
        else s.threadList }

/-- **One step**, for the object at `h`. -/
def step (h : ℕ) (s : State) : Label → Option State
  | .starter a => starterStep h s a
  | .launcher a => launcherStep h s a
  | .wake => if s.launcher = .waiting then some { s with launcher := .reacquire } else none
  | .other o => if o.object = h then none else some (otherStep s o)

/-- The places from which the thread may still come to its assertion. -/
def LauncherPc.mayAssert : LauncherPc → Bool
  | .waitFailed | .aborted | .running | .exit | .ended => false
  | _ => true

/-- **The gate is not passed by accident.** Until the entry of the new thread has been added, the
wait does not end without a signal, and the thread is not looked up while an entry has an equal
`pthread_t`; and from then on until the assertion no cleanup of another handle comes upon the
entry of the new thread. -/
def NoAccident (h : ℕ) (s : State) : Label → Prop
  | .wake => s.added = true
  | .launcher _ =>
    s.launcher = .contains → s.added = true ∨ ∀ item ∈ s.threadList, s.thread item.1 ≠ s.thread h
  | .other (.remove k) =>
    s.added = true → s.launcher.mayAssert = true →
      ListDictionary.getItemValue (s.threadCompare k) s.threadList ≠ some h
  | _ => True

instance (h : ℕ) (s : State) (l : Label) : Decidable (NoAccident h s l) := by
  unfold NoAccident
  split <;> infer_instance

/-- **What the gate is for**: the thread function is not called before the entry has been added,
and the assertion does not fail. -/
def GateHolds (s : State) : Prop :=
  (s.launcher = .running → s.added = true) ∧ s.launcher ≠ .aborted

/-! ### What a step leaves alone -/

variable {h : ℕ} {s s' : State} {a : Answer} {l : Label}

/-- `pthread_create` succeeds. -/
theorem starterStep_pthread {tid : ℕ} (hs : starterStep h s (.pthread tid) = some s') :
    s.starter = .create ∧ s' = { s with
      thread := Function.update s.thread h tid
      starter := .lock
      launcher := .begin } := by
  cases hpc : s.starter <;>
    simp only [starterStep, hpc, reduceCtorEq, Option.some.injEq] at hs
  exact ⟨rfl, hs.symm⟩

/-- Any other step of `winpr_StartThread` has nothing to do with the new thread, and only
`ListDictionary_Add` changes the list. -/
theorem starterStep_frame (hs : starterStep h s a = some s') (ha : ∀ tid, a ≠ .pthread tid) :
    s'.launcher = s.launcher ∧ s'.thread = s.thread ∧
      (s.starter = .add ∨ s'.threadList = s.threadList) ∧ s'.starter ≠ .create ∧
      (s.starter = .create → s'.starter = .returned false) := by
  cases a with
  | pthread tid => exact absurd rfl (ha tid)
  | go =>
    cases hpc : s.starter <;>
      simp only [starterStep, hpc, reduceCtorEq, Option.some.injEq,
        Option.ite_none_right_eq_some] at hs
    case lock =>
      obtain ⟨-, rfl⟩ := hs
      simp
    all_goals
      subst hs
      simp
  | fail =>
    cases hpc : s.starter <;>
      simp only [starterStep, hpc, reduceCtorEq, Option.some.injEq] at hs
    all_goals
      subst hs
      simp

/-- The new thread, once there is one, changes neither the list nor where `winpr_StartThread`
stands. -/
theorem launcherStep_frame (hs : launcherStep h s a = some s') :
    s.launcher ≠ .notStarted ∧ s'.launcher ≠ .notStarted ∧ s'.thread = s.thread ∧
      s'.threadList = s.threadList ∧ s'.starter = s.starter := by
  cases hpc : s.launcher <;> cases a <;>
    simp only [launcherStep, hpc, reduceCtorEq, Option.some.injEq,
      Option.ite_none_right_eq_some] at hs
  case begin.go | contains.go | assert.go =>
    subst hs
    refine ⟨by decide, ?_, rfl, rfl, rfl⟩
    change (if _ then _ else _) ≠ _
    split <;> decide
  case lock.go | waiting.go | reacquire.go =>
    obtain ⟨-, rfl⟩ := hs
    simp
  all_goals
    subst hs
    simp

/-! ### The invariant -/

/-- The places behind the gate, up to the thread function. -/
def LauncherPc.past : LauncherPc → Bool
  | .reacquire | .unlock | .assert | .running => true
  | _ => false

/-- **The invariant**: behind the gate the entry has been added, and then it is there until the
assertion. -/
structure Inv (h : ℕ) (s : State) : Prop where
  fresh : s.starter = .create → s.added = false
  past : s.launcher.past = true → s.added = true
  woken : s.woken = true → s.added = true
  signal : s.starter = .signal → s.added = true
  entry : s.added = true → s.launcher.mayAssert = true → (h, h) ∈ s.threadList
  notAborted : s.launcher ≠ .aborted

theorem inv_start (thread : ℕ → ℕ) (threadList : List (ℕ × ℕ)) (lpStartAddress : Bool) :
    Inv h (start thread threadList lpStartAddress) where
  fresh := fun _ => rfl
  past := nofun
  woken := nofun
  signal := nofun
  entry := nofun
  notAborted := nofun

/-- The thread finds its own entry. -/
theorem contains_of_mem (hmem : (h, h) ∈ s.threadList) : s.contains h = true :=
  List.any_eq_true.mpr ⟨(h, h), hmem, decide_eq_true rfl⟩

/-- A step of `winpr_StartThread` that neither starts the thread nor adds the entry. -/
theorem Inv.setStarter (hinv : Inv h s) {pc : StarterPc} (hpc : pc ≠ .signal)
    (hstarted : pc ≠ .create) (mutex : Option Party) :
    Inv h { s with mutex := mutex, starter := pc } where
  fresh := fun hcreate => absurd hcreate hstarted
  past := hinv.past
  woken := hinv.woken
  signal := fun hsignal => absurd hsignal hpc
  entry := hinv.entry
  notAborted := hinv.notAborted

/-- A step of `thread_launcher` that does not pass the gate, or is behind it. -/
theorem Inv.setLauncher (hinv : Inv h s) {pc : LauncherPc} (hpast : pc.past = true → s.added = true)
    (hassert : pc.mayAssert = true → s.launcher.mayAssert = true) (hpc : pc ≠ .aborted)
    (mutex : Option Party) :
    Inv h { s with mutex := mutex, launcher := pc } where
  fresh := hinv.fresh
  past := hpast
  woken := hinv.woken
  signal := hinv.signal
  entry := fun hadded hpc => hinv.entry hadded (hassert hpc)
  notAborted := hpc

/-- `winpr_StartThread` keeps the invariant. -/
theorem inv_starterStep (hinv : Inv h s) (hs : starterStep h s a = some s') : Inv h s' := by
  cases hpc : s.starter <;> cases a <;>
    simp only [starterStep, hpc, reduceCtorEq, Option.some.injEq,
      Option.ite_none_right_eq_some] at hs
  case create.pthread tid =>
    subst hs
    -- there is no entry yet
    have hadded : s.added = false := hinv.fresh hpc
    refine ⟨nofun, nofun, hinv.woken, nofun, fun hnew => ?_, nofun⟩
    rw [hadded] at hnew
    cases hnew
  case lock.go =>
    obtain ⟨-, rfl⟩ := hs
    exact hinv.setStarter (by decide) (by decide) _
  case add.go =>
    subst hs
    exact ⟨nofun, fun _ => rfl, fun _ => rfl, fun _ => rfl,
      fun _ _ => List.mem_append_right _ List.mem_cons_self, hinv.notAborted⟩
  case signal.go =>
    -- the entry has been added before the signal is sent
    subst hs
    have hadded : s.added = true := hinv.signal hpc
    exact ⟨nofun, fun _ => hadded, fun _ => hadded, nofun, hinv.entry, hinv.notAborted⟩
  case create.fail | lock.fail | add.fail | signal.fail | unlock.go | unlock.fail | abandon.go =>
    subst hs
    exact hinv.setStarter (by decide) (by decide) _

/-- `thread_launcher` keeps the invariant, unless it is let through by accident. -/
theorem inv_launcherStep (hinv : Inv h s) (hok : NoAccident h s (.launcher a))
    (hs : launcherStep h s a = some s') : Inv h s' := by
  cases hpc : s.launcher <;> cases a <;>
    simp only [launcherStep, hpc, reduceCtorEq, Option.some.injEq,
      Option.ite_none_right_eq_some] at hs
  case begin.go =>
    subst hs
    have hnext : (if s.lpStartAddress then LauncherPc.lock else .exit).past = false := by
      cases s.lpStartAddress <;> rfl
    exact hinv.setLauncher (fun hpast => absurd (hnext.symm.trans hpast) (by decide))
      (fun _ => by rw [hpc]; rfl) (by split <;> decide) _
  case contains.go =>
    subst hs
    refine hinv.setLauncher (fun hpast => ?_) (fun _ => by rw [hpc]; rfl) (by split <;> decide) _
    cases hcontains : s.contains h with
    | false =>
      rw [hcontains] at hpast
      cases hpast
    | true =>
      -- what has been found is an entry with an equal `pthread_t`
      obtain ⟨item, hitem, hequal⟩ := List.any_eq_true.mp hcontains
      refine (hok hpc).resolve_right fun hnone => ?_
      exact hnone item hitem (of_decide_eq_true hequal)
  case waiting.go =>
    obtain ⟨hwoken, rfl⟩ := hs
    exact hinv.setLauncher (fun _ => hinv.woken hwoken) (fun _ => by rw [hpc]; rfl) (by decide) _
  case wait.go =>
    subst hs
    exact ⟨hinv.fresh, nofun, nofun, hinv.signal,
      fun hadded _ => hinv.entry hadded (by rw [hpc]; rfl), nofun⟩
  case reacquire.go =>
    obtain ⟨-, rfl⟩ := hs
    exact hinv.setLauncher (fun _ => hinv.past (by rw [hpc]; rfl)) (fun _ => by rw [hpc]; rfl)
      (by decide) _
  case unlock.go =>
    subst hs
    exact hinv.setLauncher (fun _ => hinv.past (by rw [hpc]; rfl)) (fun _ => by rw [hpc]; rfl)
      (by decide) _
  case assert.go =>
    subst hs
    have hadded : s.added = true := hinv.past (by rw [hpc]; rfl)
    rw [contains_of_mem (hinv.entry hadded (by rw [hpc]; rfl))]
    exact hinv.setLauncher (fun _ => hadded) (fun _ => by rw [hpc]; rfl) (by decide) _
  case lock.go =>
    obtain ⟨-, rfl⟩ := hs
    exact hinv.setLauncher (fun hpast => (by cases hpast)) (fun _ => by rw [hpc]; rfl)
      (by decide) _
  case lock.fail | wait.fail | waitFailed.go | unlock.fail | running.go | exit.go =>
    subst hs
    exact hinv.setLauncher (fun hpast => (by cases hpast)) (fun hplace => (by cases hplace))
      (by decide) _

/-- What is done for another object keeps the invariant, unless it takes the entry for its own. -/
theorem inv_otherStep {o : Other} (hinv : Inv h s) (hok : NoAccident h s (.other o)) :
    Inv h (otherStep s o) := by
  cases o with
  | create k tid =>
    exact ⟨hinv.fresh, hinv.past, hinv.woken, hinv.signal, hinv.entry, hinv.notAborted⟩
  | add k =>
    exact ⟨hinv.fresh, hinv.past, hinv.woken, hinv.signal,
      fun hadded hpc => List.mem_append_left _ (hinv.entry hadded hpc), hinv.notAborted⟩
  | remove k =>
    refine ⟨hinv.fresh, hinv.past, hinv.woken, hinv.signal, fun hadded hpc => ?_,
      hinv.notAborted⟩
    change (h, h) ∈ if s.contains k then _ else _
    split
    · exact ListDictionary.mem_remove_of_ne (hinv.entry hadded hpc) (hok hadded hpc)
    · exact hinv.entry hadded hpc

/-- **One step** keeps the invariant, unless the gate is passed by accident. -/
theorem inv_step (hinv : Inv h s) (hok : NoAccident h s l) (hs : step h s l = some s') :
    Inv h s' := by
  cases l with
  | starter a => exact inv_starterStep hinv hs
  | launcher a => exact inv_launcherStep hinv hok hs
  | wake =>
    obtain ⟨hpc, hs⟩ := Option.ite_none_right_eq_some.mp hs
    obtain rfl := Option.some.inj hs
    exact hinv.setLauncher (fun _ => hok) (fun _ => by rw [hpc]; rfl) (by decide) _
  | other o =>
    obtain ⟨-, hs⟩ := Option.ite_none_left_eq_some.mp hs
    obtain rfl := Option.some.inj hs
    exact inv_otherStep hinv hok

/-! ### The gate -/

/-- **The gate holds, as long as it is not passed by accident**: in every run of
`winpr_StartThread` against `thread_launcher`, whatever is in `thread_list` and whatever is done
for other objects, the thread function is called only after the entry of the thread has been
added, and the assertion that it is there does not fail. -/
theorem gate_holds {thread : ℕ → ℕ} {threadList : List (ℕ × ℕ)} {lpStartAddress : Bool}
    (hrun : ReachesIf (step h) (NoAccident h) (start thread threadList lpStartAddress) s) :
    GateHolds s := by
  have hinv : Inv h s :=
    hrun.invariant (inv_start thread threadList lpStartAddress)
      fun t t' l ht hok hs => inv_step ht hok hs
  exact ⟨fun hrunning => hinv.past (by rw [hrunning]; rfl), hinv.notAborted⟩

/-- The new thread, 7, waits for its entry, while the handle of another is closed. -/
def waitsForEntry : List Label :=
  [.starter (.pthread 7), .launcher .go, .launcher .go, .launcher .go, .launcher .go,
    .other (.remove 5), .starter .go, .starter .go, .starter .go, .launcher .go, .starter .go,
    .launcher .go, .launcher .go, .launcher .go]

theorem gate_holds_waitsForEntry :
    ∃ s, run (step 4) (start (fun _ => 6) [(5, 5)] true) waitsForEntry = some s ∧
      s.launcher = .running ∧ GateHolds s := by
  have hrun : run (step 4) (start (fun _ => 6) [(5, 5)] true) waitsForEntry =
      some (final _ _ _) := run_eq_final (by decide)
  exact ⟨_, hrun, by decide, gate_holds (reachesIf_of_run _ (by decide) hrun)⟩

/-- The wait of the new thread ends before anything has been signalled. -/
def wakesSpuriously : List Label :=
  [.starter (.pthread 7), .launcher .go, .launcher .go, .launcher .go, .launcher .go, .wake,
    .launcher .go, .launcher .go, .launcher .go]

/-- The new thread has the `pthread_t` of a thread that has been joined, whose handle is open. -/
def findsStaleEntry : List Label :=
  [.starter (.pthread 6), .launcher .go, .launcher .go, .launcher .go, .launcher .go, .launcher .go]

/-- **The gate does not hold.** After a wait that ends by itself the assertion fails, and with the
entry of another thread in the list the thread function is called before there is one of its own. -/
theorem gate_fails :
    (∃ s, run (step 4) (start (fun _ => 6) [] true) wakesSpuriously = some s ∧
      s.launcher = .aborted ∧ ¬GateHolds s) ∧
    ∃ s, run (step 4) (start (fun _ => 6) [(5, 5)] true) findsStaleEntry = some s ∧
      s.launcher = .running ∧ s.added = false ∧ ¬GateHolds s := by
  have hwakes : run (step 4) (start (fun _ => 6) [] true) wakesSpuriously = some (final _ _ _) :=
    run_eq_final (by decide)
  have hstale : run (step 4) (start (fun _ => 6) [(5, 5)] true) findsStaleEntry =
      some (final _ _ _) := run_eq_final (by decide)
  exact ⟨⟨_, hwakes, by decide, fun hgate => hgate.2 (by decide)⟩,
    ⟨_, hstale, by decide, by decide, fun hgate => absurd (hgate.1 (by decide)) (by decide)⟩⟩

end StartGate

end Thread

end Libuzi
