import Libuzi.Threads

/-!
# When a thread is joined

A thread is joined inside the wait for its handle: `WaitForSingleObject` (`libuzi/wait.c`) polls
the event of the thread, and if it is set calls `ThreadCleanupHandle`, which joins the thread
unless `joined` says that this has been done. So everything depends on what the event, `started`,
`joined` and `detached` say of the pthread, and these are written all over `libuzi/thread.c`.

| | sets the event | resets the event | touches the pthread |
|---|---|---|---|
| `CreateThread`, suspended | yes | | |
| `winpr_StartThread` | | yes | `pthread_create` |
| the end of `thread_launcher` | yes | | |
| `ThreadCleanupHandle` | | | `pthread_join` |
| `ThreadCloseHandle` | | | `pthread_detach`, if the wait in it fails |

Here any number of threads make these calls on one handle, step by step, against the thread that
it stands for. Other handles can be noticed in one way only, by the answer of
`ListDictionary_Contains` in `ThreadCloseHandle`, which is left open; the lock of `thread_list`,
for which a step may have to wait, is left out.

The first line of the table is a mistake: the event of a thread that has not been created is set,
so a wait for it joins a `pthread_t` that nobody has stored. Apart from this, and from a wait that
is still going on when the handle is closed, joining is in order (`join_disciplined`).
-/

namespace Libuzi

open Runs Threads

namespace Thread

namespace JoinDiscipline

/-! ### The model -/

/-- The calls of the pthread library that end a thread. -/
inductive Event
  /-- `pthread_join` of `tid`, when `created` is what `pthread_create` has stored for the
  handle. -/
  | join (tid : ℕ) (created : Option ℕ)
  /-- `pthread_detach`. -/
  | detach
  deriving DecidableEq

/-- The handle. -/
inductive Status (κ : Type*)
  /-- `CreateThread` has not been called. -/
  | absent
  /-- The thread `i` is in `CreateThread`. -/
  | creating (i : κ)
  /-- `CreateThread` has returned `NULL`. -/
  | null
  /-- It can be used. -/
  | isOpen
  /-- The thread `i` has called `CloseHandle`. -/
  | closed (i : κ)
  deriving DecidableEq

/-- What is known of the handle: the fields of the `WINPR_THREAD`, and the pthread. -/
structure Shared (κ : Type*) where
  /-- The handle. -/
  status : Status κ
  /-- `started`. -/
  started : Bool
  /-- Whether the event is set. -/
  signalled : Bool
  /-- `detached`. -/
  detached : Bool
  /-- `joined`. -/
  joined : Bool
  /-- `thread`, the `pthread_t`. -/
  thread : ℕ
  /-- Who holds `mutex`. -/
  mutex : Option κ
  /-- What a `pthread_create` that has succeeded has stored. -/
  created : Option ℕ
  /-- The pthread has ended. -/
  ended : Bool
  /-- Who is in `pthread_join`. -/
  joining : Option κ
  /-- The calls that end a thread, the latest first. -/
  log : List Event
  deriving DecidableEq

/-- Who has called `winpr_StartThread`. -/
inductive Starter
  | createThread
  | resumeThread
  deriving DecidableEq

/-- Places in `winpr_StartThread`. -/
inductive StartPc
  /-- About to store `started`. -/
  | storeStarted
  /-- About to reset the event. -/
  | resetEvent
  /-- About to call `pthread_create`. -/
  | pthreadCreate
  /-- About to add the entry to `thread_list` and to signal it. -/
  | register
  deriving DecidableEq

/-- Places in `WaitForSingleObject`. -/
inductive WaitPc
  /-- About to poll the event. -/
  | poll
  /-- In `ThreadCleanupHandle`, about to lock `mutex`. -/
  | lock
  /-- In `ThreadCleanupHandle`, about to test `joined`. -/
  | test
  /-- In `pthread_join`. -/
  | join
  /-- About to unlock `mutex`, and to return `WAIT_OBJECT_0` or `WAIT_FAILED`. -/
  | unlock (object0 : Bool)
  deriving DecidableEq

/-- Places in `ThreadCloseHandle`, outside the wait. -/
inductive ClosePc
  /-- About to call `ListDictionary_Contains`. -/
  | contains
  /-- About to test `started`. -/
  | testStarted
  /-- About to store `detached`. -/
  | storeDetached
  /-- About to call `pthread_detach`. -/
  | detach
  /-- About to call `cleanup_handle`. -/
  | cleanup
  deriving DecidableEq

/-- Places in `thread_launcher`. -/
inductive LauncherPc
  /-- There is no thread yet. -/
  | notStarted
  /-- In the thread function. -/
  | running
  /-- About to set the event. -/
  | setEvent
  /-- About to test `detached` and `started`. -/
  | test
  /-- About to call `cleanup_handle`. -/
  | cleanup
  /-- About to end. -/
  | last
  /-- The thread has ended. -/
  | ended
  deriving DecidableEq

/-- Where a thread stands. -/
inductive Local
  /-- In no call on the handle. -/
  | idle
  /-- In `CreateThread`, about to set up the object. -/
  | setUp (suspended : Bool)
  /-- In `CreateThread`, about to set the event of a thread that is suspended. -/
  | setEvent
  /-- In `winpr_StartThread`. -/
  | start (starter : Starter) (pc : StartPc)
  /-- In `ResumeThread`, about to lock `mutex`. -/
  | resumeLock
  /-- In `ResumeThread`, about to test `started`. -/
  | resumeTest
  /-- In `ResumeThread`, about to unlock `mutex`. -/
  | resumeUnlock
  /-- In `WaitForSingleObject`, which `ThreadCloseHandle` has called or not. -/
  | wait (closing : Bool) (pc : WaitPc)
  /-- In `ThreadCloseHandle`. -/
  | close (pc : ClosePc)
  /-- The thread that the handle stands for. -/
  | launcher (pc : LauncherPc)
  deriving DecidableEq

/-- What is chosen for a step. -/
inductive Choice
  /-- Call `CreateThread`. -/
  | create (suspended : Bool)
  /-- Call `ResumeThread`. -/
  | resume
  /-- Call `WaitForSingleObject`, with whatever timeout. -/
  | wait
  /-- Call `CloseHandle`. -/
  | close
  /-- Go on. -/
  | go
  /-- Go on, with a library call that fails. -/
  | fail
  /-- `poll` times out. -/
  | timeout
  /-- `pthread_create` succeeds, and the new thread is `tid`. -/
  | pthread (tid : ℕ)
  /-- `pthread_create` fails, and leaves `tid` in `thread`. -/
  | noThread (tid : ℕ)
  /-- `ListDictionary_Contains` returns `found`. -/
  | answer (found : Bool)
  deriving DecidableEq

variable {κ : Type*}

/-- `WaitForSingleObject` returns. -/
def waitReturn (closing object0 : Bool) : Local :=
  if closing then .close (if object0 then .cleanup else .storeDetached) else .idle

/-- `winpr_StartThread` returns: `CreateThread` returns the handle or `NULL`, and `ResumeThread`
unlocks `mutex`. -/
def startReturn (s : Shared κ) (result : Bool) : Starter → Shared κ × Local
  | .createThread => ({ s with status := if result then .isOpen else .null }, .idle)
  | .resumeThread => (s, .resumeUnlock)

/-- `pthread_join`: whether it succeeds; `none` as long as it does not return. -/
def pthreadJoin (s : Shared κ) : Option Bool :=
  if s.created ≠ some s.thread ∨ .detach ∈ s.log then some false
  else if s.ended then some true
  else none

/-- A call begins. A handle is used from its creation until it is given to `CloseHandle`. -/
def callStep [DecidableEq κ] (i : κ) (s : Shared κ) : Choice → Option (Shared κ × Local)
  | .create suspended =>
    if s.status = .absent then some ({ s with status := .creating i }, .setUp suspended) else none
  | .resume => if s.status = .isOpen then some (s, .resumeLock) else none
  | .wait => if s.status = .isOpen then some (s, .wait false .poll) else none
  | .close =>
    if s.status = .isOpen then some ({ s with status := .closed i }, .close .contains) else none
  | _ => none

/-- A step of `winpr_StartThread`. -/
def startStep (s : Shared κ) (starter : Starter) (pc : StartPc) (a : Choice) :
    Option (Shared κ × Local) :=
  match pc, a with
  | .storeStarted, .go => some ({ s with started := true }, .start starter .resetEvent)
  | .resetEvent, .go => some ({ s with signalled := false }, .start starter .pthreadCreate)
  -- the result of `reset_event` is not looked at
  | .resetEvent, .fail => some (s, .start starter .pthreadCreate)
  | .pthreadCreate, .pthread tid =>
    some ({ s with thread := tid, created := some tid }, .start starter .register)
  | .pthreadCreate, .noThread tid => some (startReturn { s with thread := tid } false starter)
  | .register, .go => some (startReturn s true starter)
  | .register, .fail => some (startReturn s false starter)
  | _, _ => none

/-- A step of `WaitForSingleObject`. -/
def waitStep (i : κ) (s : Shared κ) (closing : Bool) (pc : WaitPc) (a : Choice) :
    Option (Shared κ × Local) :=
  match pc, a with
  | .poll, .go => if s.signalled then some (s, .wait closing .lock) else none
  | .poll, .timeout => if s.signalled then none else some (s, waitReturn closing false)
  | .poll, .fail => some (s, waitReturn closing false)
  | .lock, .go =>
    if s.mutex.isNone then some ({ s with mutex := some i }, .wait closing .test) else none
  | .lock, .fail => some (s, waitReturn closing false)
  | .test, .go =>
    if s.joined then some (s, .wait closing (.unlock true))
    else
      some ({ s with joining := some i, log := .join s.thread s.created :: s.log },
        .wait closing .join)
  | .join, .go =>
    (pthreadJoin s).map fun joined =>
      ({ s with joining := none, joined := joined }, .wait closing (.unlock joined))
  | .unlock object0, .go => some ({ s with mutex := none }, waitReturn closing object0)
  | _, _ => none

/-- A step of `ThreadCloseHandle`. -/
def closeStep (s : Shared κ) (pc : ClosePc) (a : Choice) : Option (Shared κ × Local) :=
  match pc, a with
  | .contains, .answer found => some (s, if found then .close .testStarted else .idle)
  | .testStarted, .go => some (s, if s.started then .wait true .poll else .close .cleanup)
  | .storeDetached, .go => some ({ s with detached := true }, .close .detach)
  | .detach, .go => some ({ s with log := .detach :: s.log }, .idle)
  | .cleanup, .go => some (s, .idle)
  | _, _ => none

/-- A step of `thread_launcher`. -/
def launcherStep (s : Shared κ) (pc : LauncherPc) (a : Choice) : Option (Shared κ × Local) :=
  match pc, a with
  | .notStarted, .go => if s.created.isSome then some (s, .launcher .running) else none
  | .running, .go => some (s, .launcher .setEvent)
  | .setEvent, .go => some ({ s with signalled := true }, .launcher .test)
  | .test, .go =>
    some (s, .launcher (if s.detached || !s.started then .cleanup else .last))
  | .cleanup, .go => some (s, .launcher .last)
  | .last, .go => some ({ s with ended := true }, .launcher .ended)
  | _, _ => none

/-- **One step** of a thread. -/
def joinStep [DecidableEq κ] (i : κ) (a : Choice) (s : Shared κ) (l : Local) :
    Option (Shared κ × Local) :=
  match l, a with
  | .idle, a => callStep i s a
  | .setUp suspended, .go =>
    some (s, if suspended then .setEvent else .start .createThread .storeStarted)
  | .setUp _, .fail => some ({ s with status := .null }, .idle)
  | .setEvent, .go => some ({ s with signalled := true, status := .isOpen }, .idle)
  | .setEvent, .fail => some ({ s with status := .null }, .idle)
  | .start starter pc, a => startStep s starter pc a
  | .resumeLock, .go =>
    if s.mutex.isNone then some ({ s with mutex := some i }, .resumeTest) else none
  | .resumeLock, .fail => some (s, .idle)
  | .resumeTest, .go =>
    some (s, if s.started then .resumeUnlock else .start .resumeThread .storeStarted)
  | .resumeUnlock, .go => some ({ s with mutex := none }, .idle)
  | .wait closing pc, a => waitStep i s closing pc a
  | .close pc, a => closeStep s pc a
  | .launcher pc, a => launcherStep s pc a
  | _, _ => none

/-- The start: the handle is there for a thread to create, and the thread that it will stand for is
`t`. -/
def start [DecidableEq κ] (t : κ) : Config κ (Shared κ) Local where
  shared :=
    { status := .absent
      started := false
      signalled := false
      detached := false
      joined := false
      thread := 0
      mutex := none
      created := none
      ended := false
      joining := none
      log := [] }
  locals := Function.update (fun _ => .idle) t (.launcher .notStarted)

/-- About to poll the event. -/
def Local.polls : Local → Bool
  | .wait _ .poll => true
  | _ => false

/-- In a call of `WaitForSingleObject` that is not part of `CloseHandle`. -/
def Local.waits : Local → Bool
  | .wait false _ => true
  | _ => false

/-- **The condition.** No wait finds the event set of a thread that has not been created, and the
handle is not closed while another thread waits for it. -/
def Orderly (c : Config κ (Shared κ) Local) (e : κ × Choice) : Prop :=
  (e.2 = .go → (c.locals e.1).polls = true → c.shared.created.isSome = true) ∧
    (e.2 = .close → ∀ j, (c.locals j).waits = false)

instance [Fintype κ] (c : Config κ (Shared κ) Local) (e : κ × Choice) : Decidable (Orderly c e) :=
  inferInstanceAs (Decidable (_ ∧ _))

/-- A call of `pthread_join`. -/
def Event.isJoin : Event → Bool
  | .join _ _ => true
  | .detach => false

/-- **The discipline**, for the calls so far. -/
structure Disciplined (log : List Event) : Prop where
  /-- What is joined is what a successful `pthread_create` has stored for the handle. -/
  created : ∀ tid created, .join tid created ∈ log → created = some tid
  /-- Nothing is joined twice. -/
  once : log.countP Event.isJoin ≤ 1
  /-- Nothing is joined after it has been detached. -/
  notAfter : log.Pairwise fun later earlier => later.isJoin = true → earlier ≠ .detach

/-! ### The invariant -/

/-- The handle has been returned by `CreateThread`. -/
def Status.given : Status κ → Bool
  | .isOpen | .closed _ => true
  | _ => false

/-- The thread `i` holds `mutex`, and is not in `pthread_join`. -/
def Shared.heldBy (s : Shared κ) (i : κ) : Prop := s.mutex = some i ∧ s.joining = none

/-- The thread `i` may be in `winpr_StartThread`: it is creating the handle, or it holds `mutex`. -/
def Shared.startedBy (s : Shared κ) (i : κ) : Starter → Prop
  | .createThread => s.status = .creating i
  | .resumeThread => s.status.given = true ∧ s.heldBy i

theorem Shared.startedBy.ne_absent {s : Shared κ} {i : κ} {starter : Starter}
    (hstarts : s.startedBy i starter) : s.status ≠ .absent := by
  intro habsent
  cases starter with
  | createThread => cases habsent.symm.trans hstarts
  | resumeThread =>
    obtain ⟨hgiven, -⟩ := hstarts
    rw [habsent] at hgiven
    cases hgiven

/-- What is known in `winpr_StartThread`. -/
def StartPc.Inv (s : Shared κ) : StartPc → Prop
  | .storeStarted => s.started = false
  | .resetEvent | .pthreadCreate => s.started = true ∧ s.created = none
  | .register => True

/-- The thread `i` may wait: the handle is open, or it is the one that closes it, and has not
detached the thread. -/
def Shared.waitedBy (s : Shared κ) (i : κ) : Bool → Prop
  | false => s.status = .isOpen
  | true => s.status = .closed i ∧ .detach ∉ s.log

/-- What is known in `WaitForSingleObject`. -/
def WaitPc.Inv (i : κ) (s : Shared κ) : WaitPc → Prop
  | .poll => True
  | .lock => s.created.isSome = true
  | .test => s.created.isSome = true ∧ s.heldBy i
  | .join => s.created.isSome = true ∧ s.mutex = some i ∧ s.joining = some i
  | .unlock _ => s.heldBy i

/-- **What is known where the thread `i` stands.** -/
def LocalInv (i : κ) (s : Shared κ) : Local → Prop
  | .idle | .launcher _ => True
  | .setUp _ | .setEvent => s.status = .creating i ∧ s.started = false
  | .start starter pc => s.startedBy i starter ∧ pc.Inv s
  | .resumeLock => s.status.given = true
  | .resumeTest | .resumeUnlock => s.status.given = true ∧ s.heldBy i
  | .wait closing pc => s.waitedBy i closing ∧ pc.Inv i s
  | .close _ => s.status = .closed i ∧ .detach ∉ s.log

/-- **What is known of the handle.** -/
structure GlobalInv (s : Shared κ) : Prop where
  first : s.status = .absent → s.started = false
  /-- What is stored is still there. -/
  created : ∀ tid, s.created = some tid → s.thread = tid
  started : s.started = false → s.created = none
  notClosed : (∀ i, s.status ≠ .closed i) → .detach ∉ s.log
  joining : ∀ j, s.joining = some j → s.mutex = some j
  /-- What has been joined is marked so, or somebody is about to. -/
  fresh : s.joined = false → s.joining = none → s.log.countP Event.isJoin = 0
  disciplined : Disciplined s.log

/-- **The invariant.** -/
structure Inv (c : Config κ (Shared κ) Local) : Prop where
  shared : GlobalInv c.shared
  locals : ∀ i, LocalInv i c.shared (c.locals i)

variable {i j : κ} {s s' : Shared κ} {l l' : Local} {a : Choice} {starter : Starter}
  {closing : Bool}

/-- Who waits has a handle of which the thread has not been detached. -/
theorem GlobalInv.not_detached (hs : GlobalInv s) (hwaits : s.waitedBy i closing) :
    .detach ∉ s.log := by
  cases closing with
  | true => exact hwaits.2
  | false =>
    have hopen : s.status = .isOpen := hwaits
    refine hs.notClosed fun j hclosed => ?_
    cases hopen.symm.trans hclosed

/-- Nobody is in `pthread_join` while `mutex` is free. -/
theorem GlobalInv.joining_eq_none (hs : GlobalInv s) (hfree : s.mutex = none) :
    s.joining = none := by
  refine Option.eq_none_iff_forall_ne_some.mpr fun j hj => ?_
  exact absurd (hfree.symm.trans (hs.joining j hj)) (Option.some_ne_none j).symm

/-- `mutex` changes hands while nobody is in `pthread_join`. -/
theorem GlobalInv.setMutex (hs : GlobalInv s) (hjoining : s.joining = none) (mutex : Option κ) :
    GlobalInv { s with mutex := mutex } where
  first := hs.first
  created := hs.created
  started := hs.started
  notClosed := hs.notClosed
  joining := by
    intro j hj
    exact absurd (hjoining.symm.trans hj) (Option.some_ne_none j).symm
  fresh := hs.fresh
  disciplined := hs.disciplined

/-- The event and the flags that no join depends on. -/
theorem GlobalInv.setFlags (hs : GlobalInv s) (signalled detached ended : Bool) :
    GlobalInv { s with signalled := signalled, detached := detached, ended := ended } where
  first := hs.first
  created := hs.created
  started := hs.started
  notClosed := hs.notClosed
  joining := hs.joining
  fresh := hs.fresh
  disciplined := hs.disciplined

/-- **A change that only the thread `i` notices**: it leaves the handle where it is; it takes or
gives back a `mutex` that no other thread holds; it starts the thread with `mutex` in hand; and it
detaches the thread if it is the one that closes the handle. -/
structure Frame (i : κ) (s s' : Shared κ) : Prop where
  status : s'.status = s.status
  mutex : s'.mutex = s.mutex ∧ s'.joining = s.joining ∨ s.mutex = none ∨ s.mutex = some i
  started : s'.started = s.started ∧ s'.created = s.created ∨
    s.status.given = true ∧ s.mutex = some i
  created : s.created.isSome = true → s'.created.isSome = true
  log : .detach ∈ s'.log → .detach ∈ s.log ∨ s.status = .closed i

/-- A change of the event, or of another field that no other thread relies on. -/
theorem Frame.of_eq (hstatus : s'.status = s.status) (hmutex : s'.mutex = s.mutex)
    (hjoining : s'.joining = s.joining) (hstarted : s'.started = s.started)
    (hcreated : s'.created = s.created) (hlog : s'.log = s.log) : Frame i s s' where
  status := hstatus
  mutex := .inl ⟨hmutex, hjoining⟩
  started := .inl ⟨hstarted, hcreated⟩
  created := by
    rw [hcreated]
    exact id
  log := by
    rw [hlog]
    exact .inl

/-- `mutex` is taken while it is free, or given back. -/
theorem Frame.setMutex (hmutex : s.mutex = none ∨ s.mutex = some i) (mutex : Option κ) :
    Frame i s { s with mutex := mutex } where
  status := rfl
  mutex := .inr hmutex
  started := .inl ⟨rfl, rfl⟩
  created := id
  log := .inl

theorem Frame.refl (i : κ) (s : Shared κ) : Frame i s s := .of_eq rfl rfl rfl rfl rfl rfl

/-- Another thread holds on to `mutex`. -/
theorem Frame.heldBy (hf : Frame i s s') (hij : j ≠ i) (hheld : s.heldBy j) : s'.heldBy j := by
  rcases hf.mutex with ⟨hmutex, hjoining⟩ | hmutex | hmutex
  · exact ⟨hmutex.trans hheld.1, hjoining.trans hheld.2⟩
  · exact absurd (hmutex.symm.trans hheld.1) (Option.some_ne_none j).symm
  · exact absurd (Option.some.inj (hheld.1.symm.trans hmutex)) hij

/-- Nobody else starts the thread at the same time. -/
theorem Frame.started_eq (hf : Frame i s s') (hij : j ≠ i) (hstarts : s.startedBy j starter) :
    s'.started = s.started ∧ s'.created = s.created := by
  refine hf.started.resolve_right ?_
  rintro ⟨hgiven, hmutex⟩
  cases starter with
  | createThread =>
    rw [hstarts] at hgiven
    cases hgiven
  | resumeThread => exact absurd (Option.some.inj (hstarts.2.1.symm.trans hmutex)) hij

/-- **What another thread knows stays true.** -/
theorem Frame.localInv (hf : Frame i s s') (hij : j ≠ i) (hj : LocalInv j s l) :
    LocalInv j s' l := by
  have hgiven : s.status.given = true → s'.status.given = true := by
    rw [hf.status]
    exact id
  have hlog : s.status = .closed j → .detach ∉ s.log → .detach ∉ s'.log := by
    intro hclosed hnot hmem
    refine (hf.log hmem).elim hnot fun hclosed' => ?_
    exact hij (Status.closed.inj (hclosed.symm.trans hclosed'))
  cases l with
  | idle => trivial
  | launcher pc => trivial
  | setUp suspended =>
    obtain ⟨hstatus, hstarted⟩ := hj
    have hstarts : s.startedBy j .createThread := hstatus
    exact ⟨hf.status.trans hstatus, (hf.started_eq hij hstarts).1.trans hstarted⟩
  | setEvent =>
    obtain ⟨hstatus, hstarted⟩ := hj
    have hstarts : s.startedBy j .createThread := hstatus
    exact ⟨hf.status.trans hstatus, (hf.started_eq hij hstarts).1.trans hstarted⟩
  | start starter pc =>
    obtain ⟨hstarts, hpc⟩ := hj
    obtain ⟨hstarted, hcreated⟩ := hf.started_eq hij hstarts
    refine ⟨?_, ?_⟩
    · cases starter with
      | createThread => exact hf.status.trans hstarts
      | resumeThread => exact ⟨hgiven hstarts.1, hf.heldBy hij hstarts.2⟩
    · cases pc with
      | storeStarted => exact hstarted.trans hpc
      | resetEvent => exact ⟨hstarted.trans hpc.1, hcreated.trans hpc.2⟩
      | pthreadCreate => exact ⟨hstarted.trans hpc.1, hcreated.trans hpc.2⟩
      | register => trivial
  | resumeLock => exact hgiven hj
  | resumeTest => exact ⟨hgiven hj.1, hf.heldBy hij hj.2⟩
  | resumeUnlock => exact ⟨hgiven hj.1, hf.heldBy hij hj.2⟩
  | wait closing pc =>
    obtain ⟨hwaits, hpc⟩ := hj
    refine ⟨?_, ?_⟩
    · cases closing with
      | false => exact hf.status.trans hwaits
      | true => exact ⟨hf.status.trans hwaits.1, hlog hwaits.1 hwaits.2⟩
    · cases pc with
      | poll => trivial
      | lock => exact hf.created hpc
      | test => exact ⟨hf.created hpc.1, hf.heldBy hij hpc.2⟩
      | join =>
        obtain ⟨hcreated, hmutex, hjoining⟩ := hpc
        rcases hf.mutex with ⟨hmutex', hjoining'⟩ | hmutex' | hmutex'
        · exact ⟨hf.created hcreated, hmutex'.trans hmutex, hjoining'.trans hjoining⟩
        · exact absurd (hmutex'.symm.trans hmutex) (Option.some_ne_none j).symm
        · exact absurd (Option.some.inj (hmutex.symm.trans hmutex')) hij
      | unlock object0 => exact hf.heldBy hij hpc
  | close pc => exact ⟨hf.status.trans hj.1, hlog hj.1 hj.2⟩

/-- **While a handle is being created, nobody else uses it.** -/
theorem LocalInv.of_creating (hj : LocalInv j s l)
    (hstatus : s.status = .absent ∨ s.status = .creating i) (hij : j ≠ i) (s' : Shared κ) :
    LocalInv j s' l := by
  have hgiven : s.status.given ≠ true := by
    rcases hstatus with hstatus | hstatus <;> rw [hstatus] <;> exact Bool.false_ne_true
  have hcreating : s.status ≠ .creating j := by
    rcases hstatus with hstatus | hstatus <;> rw [hstatus]
    · exact nofun
    · exact fun h => hij (Status.creating.inj h).symm
  have hclosed : s.status ≠ .closed j := fun h => hgiven (by rw [h]; rfl)
  cases l with
  | idle => trivial
  | launcher pc => trivial
  | setUp suspended => exact absurd hj.1 hcreating
  | setEvent => exact absurd hj.1 hcreating
  | start starter pc =>
    cases starter with
    | createThread => exact absurd hj.1 hcreating
    | resumeThread => exact absurd hj.1.1 hgiven
  | resumeLock => exact absurd hj hgiven
  | resumeTest => exact absurd hj.1 hgiven
  | resumeUnlock => exact absurd hj.1 hgiven
  | wait closing pc =>
    cases closing with
    | false => exact absurd (by rw [show s.status = .isOpen from hj.1]; rfl) hgiven
    | true => exact absurd hj.1.1 hclosed
  | close pc => exact absurd hj.1 hclosed

/-- **The handle is closed while nobody waits for it**: what the others know stays true. -/
theorem LocalInv.of_close (hj : LocalInv j s l) (hstatus : s.status = .isOpen)
    (hwait : l.waits = false) : LocalInv j { s with status := .closed i } l := by
  cases l with
  | idle => trivial
  | launcher pc => trivial
  | setUp suspended => exact absurd (hstatus.symm.trans hj.1) (by simp)
  | setEvent => exact absurd (hstatus.symm.trans hj.1) (by simp)
  | start starter pc =>
    cases starter with
    | createThread => exact absurd (hstatus.symm.trans hj.1) (by simp)
    | resumeThread => exact ⟨⟨rfl, hj.1.2⟩, by cases pc <;> exact hj.2⟩
  | resumeLock => exact rfl
  | resumeTest => exact ⟨rfl, hj.2⟩
  | resumeUnlock => exact ⟨rfl, hj.2⟩
  | wait closing pc =>
    cases closing with
    | false => cases hwait
    | true => exact absurd (hstatus.symm.trans hj.1.1) (by simp)
  | close pc => exact absurd (hstatus.symm.trans hj.1) (by simp)

/-! ### One step -/

/-- A step of the thread `i` that the others do not notice. -/
def Unnoticed (i : κ) (s s' : Shared κ) : Prop :=
  Frame i s s' ∨ s.status = .absent ∨ s.status = .creating i

theorem Unnoticed.localInv (hu : Unnoticed i s s') (hij : j ≠ i) (hj : LocalInv j s l) :
    LocalInv j s' l := by
  rcases hu with hframe | hstatus
  · exact hframe.localInv hij hj
  · exact hj.of_creating hstatus hij s'

/-- Who is in `winpr_StartThread` changes `started` and the `pthread_t` unnoticed. -/
theorem unnoticed_of_startedBy (hstarts : s.startedBy i starter) (hstatus : s'.status = s.status)
    (hmutex : s'.mutex = s.mutex) (hjoining : s'.joining = s.joining)
    (hcreated : s.created.isSome = true → s'.created.isSome = true) (hlog : s'.log = s.log) :
    Unnoticed i s s' := by
  cases starter with
  | createThread => exact .inr (.inr hstarts)
  | resumeThread =>
    refine .inl ⟨hstatus, .inl ⟨hmutex, hjoining⟩, .inr ⟨hstarts.1, hstarts.2.1⟩, hcreated, ?_⟩
    rw [hlog]
    exact .inl

/-- `winpr_StartThread` returns. -/
theorem startReturn_inv (hs : GlobalInv s) (hstarts : s.startedBy i starter) (result : Bool) :
    GlobalInv (startReturn s result starter).1 ∧
      LocalInv i (startReturn s result starter).1 (startReturn s result starter).2 := by
  cases starter with
  | createThread =>
    have hcreating : s.status = .creating i := hstarts
    have hnot : .detach ∉ s.log := hs.notClosed fun j hclosed => by
      rw [hcreating] at hclosed
      cases hclosed
    refine ⟨⟨fun habsent => ?_, hs.created, hs.started, fun _ => hnot, hs.joining, hs.fresh,
      hs.disciplined⟩, trivial⟩
    cases result <;> cases habsent
  | resumeThread => exact ⟨hs, hstarts⟩

/-- `winpr_StartThread` returns unnoticed, whatever it has left in `thread`. -/
theorem startReturn_unnoticed (hstarts : s.startedBy i starter) (result : Bool) (thread : ℕ) :
    Unnoticed i s (startReturn { s with thread := thread } result starter).1 := by
  cases starter with
  | createThread => exact .inr (.inr hstarts)
  | resumeThread => exact .inl (.of_eq rfl rfl rfl rfl rfl rfl)

/-- **`winpr_StartThread`**: the thread is created at most once. -/
theorem startStep_inv {pc : StartPc} (hs : GlobalInv s) (hl : LocalInv i s (.start starter pc))
    (hstep : startStep s starter pc a = some (s', l')) :
    Unnoticed i s s' ∧ GlobalInv s' ∧ LocalInv i s' l' := by
  obtain ⟨hstarts, hpc⟩ := hl
  cases pc <;> cases a <;>
    simp only [startStep, reduceCtorEq, Option.some.injEq, Prod.mk.injEq] at hstep
  case storeStarted.go =>
    obtain ⟨rfl, rfl⟩ := hstep
    have hcreated : s.created = none := hs.started hpc
    refine ⟨unnoticed_of_startedBy hstarts rfl rfl rfl id rfl, ?_, ?_⟩
    · exact ⟨fun habsent => absurd habsent hstarts.ne_absent, hs.created, fun _ => hcreated,
        hs.notClosed, hs.joining, hs.fresh, hs.disciplined⟩
    · refine ⟨?_, rfl, hcreated⟩
      cases starter <;> exact hstarts
  case resetEvent.go =>
    obtain ⟨rfl, rfl⟩ := hstep
    refine ⟨unnoticed_of_startedBy hstarts rfl rfl rfl id rfl, ?_, ?_⟩
    · exact hs.setFlags false s.detached s.ended
    · refine ⟨?_, hpc⟩
      cases starter <;> exact hstarts
  case resetEvent.fail =>
    obtain ⟨rfl, rfl⟩ := hstep
    exact ⟨.inl (.refl i s), hs, hstarts, hpc⟩
  case pthreadCreate.pthread tid =>
    obtain ⟨rfl, rfl⟩ := hstep
    refine ⟨unnoticed_of_startedBy hstarts rfl rfl rfl (fun _ => rfl) rfl, ?_, ?_⟩
    · refine ⟨hs.first, fun t ht => Option.some.inj ht, fun hstarted => ?_, hs.notClosed,
        hs.joining, hs.fresh, hs.disciplined⟩
      exact absurd (hstarted.symm.trans hpc.1) Bool.false_ne_true
    · refine ⟨?_, trivial⟩
      cases starter <;> exact hstarts
  case pthreadCreate.noThread tid =>
    obtain ⟨hs', hl'⟩ := Prod.mk.inj hstep
    have hglobal : GlobalInv { s with thread := tid } := by
      refine ⟨hs.first, fun t ht => ?_, hs.started, hs.notClosed, hs.joining, hs.fresh,
        hs.disciplined⟩
      cases hpc.2.symm.trans ht
    have hstarts' : Shared.startedBy { s with thread := tid } i starter := by
      cases starter <;> exact hstarts
    rw [← hs', ← hl']
    exact ⟨startReturn_unnoticed hstarts false tid, startReturn_inv hglobal hstarts' false⟩
  case register.go =>
    obtain ⟨hs', hl'⟩ := Prod.mk.inj hstep
    rw [← hs', ← hl']
    exact ⟨startReturn_unnoticed hstarts true s.thread, startReturn_inv hs hstarts true⟩
  case register.fail =>
    obtain ⟨hs', hl'⟩ := Prod.mk.inj hstep
    rw [← hs', ← hl']
    exact ⟨startReturn_unnoticed hstarts false s.thread, startReturn_inv hs hstarts false⟩

/-- The wait returns: the thread goes on, or closes the handle. -/
theorem waitReturn_inv (hwaits : s.waitedBy i closing) (object0 : Bool) :
    LocalInv i s (waitReturn closing object0) := by
  cases closing with
  | false => trivial
  | true => exact hwaits

/-- **`pthread_join` is called**: on what has been stored, for the first time, and before any
`pthread_detach`. -/
theorem disciplined_join (hs : GlobalInv s) (hcreated : s.created.isSome = true)
    (hjoined : s.joined = false) (hjoining : s.joining = none) (hnot : .detach ∉ s.log) :
    Disciplined (.join s.thread s.created :: s.log) := by
  obtain ⟨tid, htid⟩ := Option.isSome_iff_exists.mp hcreated
  have hthread : s.thread = tid := hs.created tid htid
  constructor
  · intro t created hmem
    rcases List.mem_cons.mp hmem with heq | hmem
    · cases heq
      rw [htid, hthread]
    · exact hs.disciplined.created t created hmem
  · rw [List.countP_cons_of_pos rfl, hs.fresh hjoined hjoining]
  · refine List.pairwise_cons.mpr ⟨fun earlier hmem _ heq => ?_, hs.disciplined.notAfter⟩
    exact hnot (heq ▸ hmem)

/-- **`WaitForSingleObject`**, if it finds the event set only of a thread that has been created. -/
theorem waitStep_inv {pc : WaitPc} (hs : GlobalInv s) (hl : LocalInv i s (.wait closing pc))
    (hok : pc = .poll → a = .go → s.created.isSome = true)
    (hstep : waitStep i s closing pc a = some (s', l')) :
    Frame i s s' ∧ GlobalInv s' ∧ LocalInv i s' l' := by
  obtain ⟨hwaits, hpc⟩ := hl
  have hnot : .detach ∉ s.log := hs.not_detached hwaits
  cases pc <;> cases a <;>
    simp only [waitStep, reduceCtorEq, Option.some.injEq, Prod.mk.injEq,
      Option.ite_none_right_eq_some, Option.ite_none_left_eq_some] at hstep
  case poll.go =>
    obtain ⟨-, rfl, rfl⟩ := hstep
    exact ⟨.refl i s, hs, hwaits, hok rfl rfl⟩
  case poll.timeout =>
    obtain ⟨-, rfl, rfl⟩ := hstep
    exact ⟨.refl i s, hs, waitReturn_inv hwaits false⟩
  case poll.fail | lock.fail =>
    obtain ⟨rfl, rfl⟩ := hstep
    exact ⟨.refl i s, hs, waitReturn_inv hwaits false⟩
  case lock.go =>
    obtain ⟨hmutex, rfl, rfl⟩ := hstep
    have hfree : s.mutex = none := Option.isNone_iff_eq_none.mp hmutex
    have hjoining : s.joining = none := hs.joining_eq_none hfree
    refine ⟨.setMutex (.inl hfree) _, hs.setMutex hjoining _, ?_, hpc, rfl, hjoining⟩
    cases closing <;> exact hwaits
  case test.go =>
    obtain ⟨hcreated, hmutex, hjoining⟩ := hpc
    cases hjoined : s.joined with
    | true =>
      rw [hjoined, if_pos rfl, Option.some.injEq, Prod.mk.injEq] at hstep
      obtain ⟨rfl, rfl⟩ := hstep
      exact ⟨.refl i s, hs, hwaits, hmutex, hjoining⟩
    | false =>
      rw [hjoined, if_neg Bool.false_ne_true, Option.some.injEq, Prod.mk.injEq] at hstep
      obtain ⟨rfl, rfl⟩ := hstep
      have hnot' : Event.detach ∉ Event.join s.thread s.created :: s.log := by
        rintro (_ | ⟨_, hmem⟩)
        exact hnot hmem
      refine ⟨⟨rfl, .inr (.inr hmutex), .inl ⟨rfl, rfl⟩, id, fun hmem => absurd hmem hnot'⟩, ?_, ?_⟩
      · refine ⟨hs.first, hs.created, hs.started, fun _ => hnot', fun j hj => hmutex.trans hj,
          nofun, ?_⟩
        exact disciplined_join hs hcreated hjoined hjoining hnot
      · refine ⟨?_, hcreated, hmutex, rfl⟩
        cases closing with
        | false => exact hwaits
        | true => exact ⟨hwaits.1, hnot'⟩
  case join.go =>
    obtain ⟨hcreated, hmutex, hjoining⟩ := hpc
    obtain ⟨tid, htid⟩ := Option.isSome_iff_exists.mp hcreated
    have hthread : s.created = some s.thread := by rw [htid, hs.created tid htid]
    -- the thread is there and has not been detached, so the call waits for its end
    have hjoin : pthreadJoin s = if s.ended then some true else none :=
      if_neg fun hbad => hbad.elim (fun hne => hne hthread) hnot
    rw [hjoin] at hstep
    obtain ⟨joined, hended, heq⟩ := Option.map_eq_some_iff.mp hstep
    obtain ⟨-, rfl⟩ : s.ended = true ∧ true = joined := by simpa using hended
    obtain ⟨rfl, rfl⟩ := Prod.mk.inj heq
    refine ⟨⟨rfl, .inr (.inr hmutex), .inl ⟨rfl, rfl⟩, id, .inl⟩, ?_, ?_⟩
    · exact ⟨hs.first, hs.created, hs.started, hs.notClosed, nofun,
        nofun, hs.disciplined⟩
    · refine ⟨?_, hmutex, rfl⟩
      cases closing <;> exact hwaits
  case unlock.go object0 =>
    obtain ⟨rfl, rfl⟩ := hstep
    obtain ⟨hmutex, hjoining⟩ := hpc
    refine ⟨.setMutex (.inr hmutex) none, hs.setMutex hjoining none, waitReturn_inv ?_ object0⟩
    cases closing <;> exact hwaits

/-- **`ThreadCloseHandle`** detaches the thread at most once, and then leaves the handle alone. -/
theorem closeStep_inv {pc : ClosePc} (hs : GlobalInv s) (hl : LocalInv i s (.close pc))
    (hstep : closeStep s pc a = some (s', l')) :
    Frame i s s' ∧ GlobalInv s' ∧ LocalInv i s' l' := by
  cases pc <;> cases a <;>
    simp only [closeStep, reduceCtorEq, Option.some.injEq, Prod.mk.injEq] at hstep
  case contains.answer found =>
    obtain ⟨rfl, rfl⟩ := hstep
    refine ⟨.refl i s, hs, ?_⟩
    cases found with
    | true => exact hl
    | false => trivial
  case testStarted.go =>
    obtain ⟨rfl, rfl⟩ := hstep
    refine ⟨.refl i s, hs, ?_⟩
    cases s.started with
    | true => exact ⟨hl, trivial⟩
    | false => exact hl
  case storeDetached.go =>
    obtain ⟨rfl, rfl⟩ := hstep
    exact ⟨.of_eq rfl rfl rfl rfl rfl rfl, hs.setFlags s.signalled true s.ended, hl⟩
  case detach.go =>
    obtain ⟨rfl, rfl⟩ := hstep
    refine ⟨⟨rfl, .inl ⟨rfl, rfl⟩, .inl ⟨rfl, rfl⟩, id, fun _ => .inr hl.1⟩, ?_, trivial⟩
    refine ⟨hs.first, hs.created, hs.started, fun hopen => absurd hl.1 (hopen i), hs.joining,
      hs.fresh, ?_⟩
    refine ⟨fun tid created hmem => ?_, hs.disciplined.once, ?_⟩
    · rcases List.mem_cons.mp hmem with heq | hmem
      · cases heq
      · exact hs.disciplined.created tid created hmem
    · exact List.pairwise_cons.mpr ⟨nofun, hs.disciplined.notAfter⟩
  case cleanup.go =>
    obtain ⟨rfl, rfl⟩ := hstep
    exact ⟨.refl i s, hs, trivial⟩

/-- The thread itself sets the event and ends. -/
theorem launcherStep_inv {pc : LauncherPc} (hs : GlobalInv s)
    (hstep : launcherStep s pc a = some (s', l')) :
    Frame i s s' ∧ GlobalInv s' ∧ LocalInv i s' l' := by
  cases pc <;> cases a <;>
    simp only [launcherStep, reduceCtorEq, Option.some.injEq, Prod.mk.injEq,
      Option.ite_none_right_eq_some] at hstep
  case notStarted.go =>
    obtain ⟨-, rfl, rfl⟩ := hstep
    exact ⟨.refl i s, hs, trivial⟩
  case setEvent.go =>
    obtain ⟨rfl, rfl⟩ := hstep
    exact ⟨.of_eq rfl rfl rfl rfl rfl rfl, hs.setFlags true s.detached s.ended, trivial⟩
  case last.go =>
    obtain ⟨rfl, rfl⟩ := hstep
    exact ⟨.of_eq rfl rfl rfl rfl rfl rfl, hs.setFlags s.signalled s.detached true, trivial⟩
  all_goals
    obtain ⟨rfl, rfl⟩ := hstep
    exact ⟨.refl i s, hs, trivial⟩

/-- The handle changes hands: `CreateThread` is called, or returns before there is a thread. -/
theorem GlobalInv.setStatus (hs : GlobalInv s)
    (hstatus : s.status = .absent ∨ s.status = .creating i) {status : Status κ}
    (hne : status ≠ .absent) (signalled : Bool) :
    GlobalInv { s with status := status, signalled := signalled } where
  first := fun habsent => absurd habsent hne
  created := hs.created
  started := hs.started
  notClosed := by
    refine fun _ => hs.notClosed fun j hclosed => ?_
    rcases hstatus with hstatus | hstatus <;> cases hstatus.symm.trans hclosed
  joining := hs.joining
  fresh := hs.fresh
  disciplined := hs.disciplined

section Steps

variable [DecidableEq κ]

/-- **One step of a thread**, other than the beginning of `CloseHandle`. -/
theorem joinStep_inv (hs : GlobalInv s) (hl : LocalInv i s l)
    (hok : a = .go → l.polls = true → s.created.isSome = true)
    (hclose : ¬(l = .idle ∧ a = .close)) (hstep : joinStep i a s l = some (s', l')) :
    Unnoticed i s s' ∧ GlobalInv s' ∧ LocalInv i s' l' := by
  cases l with
  | idle =>
    cases a <;>
      simp only [joinStep, callStep, reduceCtorEq, Option.some.injEq, Prod.mk.injEq,
        Option.ite_none_right_eq_some] at hstep
    case create suspended =>
      obtain ⟨habsent, rfl, rfl⟩ := hstep
      exact ⟨.inr (.inl habsent), hs.setStatus (i := i) (.inl habsent) (by simp) s.signalled, rfl,
        hs.first habsent⟩
    case resume =>
      obtain ⟨hopen, rfl, rfl⟩ := hstep
      refine ⟨.inl (.refl i s), hs, ?_⟩
      change s.status.given = true
      rw [hopen]
      rfl
    case wait =>
      obtain ⟨hopen, rfl, rfl⟩ := hstep
      exact ⟨.inl (.refl i s), hs, hopen, trivial⟩
    case close => exact absurd ⟨rfl, rfl⟩ hclose
  | setUp suspended =>
    cases a <;>
      simp only [joinStep, reduceCtorEq, Option.some.injEq, Prod.mk.injEq] at hstep
    case go =>
      obtain ⟨rfl, rfl⟩ := hstep
      refine ⟨.inl (.refl i s), hs, ?_⟩
      cases suspended <;> exact hl
    case fail =>
      obtain ⟨rfl, rfl⟩ := hstep
      exact ⟨.inr (.inr hl.1), hs.setStatus (.inr hl.1) (by simp) s.signalled, trivial⟩
  | setEvent =>
    cases a <;>
      simp only [joinStep, reduceCtorEq, Option.some.injEq, Prod.mk.injEq] at hstep
    case go =>
      obtain ⟨rfl, rfl⟩ := hstep
      exact ⟨.inr (.inr hl.1), hs.setStatus (.inr hl.1) (by simp) true, trivial⟩
    case fail =>
      obtain ⟨rfl, rfl⟩ := hstep
      exact ⟨.inr (.inr hl.1), hs.setStatus (.inr hl.1) (by simp) s.signalled, trivial⟩
  | start starter pc => exact startStep_inv hs hl hstep
  | resumeLock =>
    cases a <;>
      simp only [joinStep, reduceCtorEq, Option.some.injEq, Prod.mk.injEq,
        Option.ite_none_right_eq_some] at hstep
    case go =>
      obtain ⟨hmutex, rfl, rfl⟩ := hstep
      have hfree : s.mutex = none := Option.isNone_iff_eq_none.mp hmutex
      have hjoining : s.joining = none := hs.joining_eq_none hfree
      exact ⟨.inl (.setMutex (.inl hfree) _), hs.setMutex hjoining _, hl, rfl, hjoining⟩
    case fail =>
      obtain ⟨rfl, rfl⟩ := hstep
      exact ⟨.inl (.refl i s), hs, trivial⟩
  | resumeTest =>
    cases a <;>
      simp only [joinStep, reduceCtorEq, Option.some.injEq, Prod.mk.injEq] at hstep
    case go =>
      obtain ⟨rfl, rfl⟩ := hstep
      refine ⟨.inl (.refl i s), hs, ?_⟩
      cases hstarted : s.started with
      | true => exact hl
      | false => exact ⟨hl, hstarted⟩
  | resumeUnlock =>
    cases a <;>
      simp only [joinStep, reduceCtorEq, Option.some.injEq, Prod.mk.injEq] at hstep
    case go =>
      obtain ⟨rfl, rfl⟩ := hstep
      obtain ⟨-, hmutex, hjoining⟩ := hl
      exact ⟨.inl (.setMutex (.inr hmutex) none), hs.setMutex hjoining none, trivial⟩
  | wait closing pc =>
    have hpoll : pc = .poll → a = .go → s.created.isSome = true := by
      rintro rfl hgo
      exact hok hgo rfl
    obtain ⟨hframe, hrest⟩ := waitStep_inv hs hl hpoll hstep
    exact ⟨.inl hframe, hrest⟩
  | close pc =>
    obtain ⟨hframe, hrest⟩ := closeStep_inv hs hl hstep
    exact ⟨.inl hframe, hrest⟩
  | launcher pc =>
    obtain ⟨hframe, hrest⟩ := launcherStep_inv hs hstep
    exact ⟨.inl hframe, hrest⟩

/-! ### Whole runs -/

variable {c : Config κ (Shared κ) Local} {t : κ}

theorem inv_start_config (t : κ) : Inv (start t) where
  shared :=
    { first := fun _ => rfl
      created := nofun
      started := fun _ => rfl
      notClosed := fun _ => List.not_mem_nil
      joining := nofun
      fresh := fun _ _ => rfl
      disciplined := ⟨fun _ _ hmem => absurd hmem List.not_mem_nil, Nat.zero_le _, .nil⟩ }
  locals := by
    intro i
    change LocalInv i _ (Function.update (fun _ => Local.idle) t (.launcher .notStarted) i)
    rw [Function.update_apply]
    split <;> trivial

/-- **One step of the whole**, if it is orderly. -/
theorem inv_step (hinv : Inv c) (hok : Orderly c (i, a))
    (hstep : joinStep i a c.shared (c.locals i) = some (s', l')) : Inv (c.move i s' l') := by
  by_cases hclose : c.locals i = .idle ∧ a = .close
  · obtain ⟨hidle, rfl⟩ := hclose
    rw [hidle] at hstep
    obtain ⟨hopen, hstep⟩ := Option.ite_none_right_eq_some.mp hstep
    obtain ⟨rfl, rfl⟩ := Prod.mk.inj (Option.some.inj hstep)
    have hnot : .detach ∉ c.shared.log := hinv.shared.notClosed fun j hclosed => by
      cases hopen.symm.trans hclosed
    refine ⟨⟨nofun, hinv.shared.created, hinv.shared.started,
      fun hall => absurd rfl (hall i), hinv.shared.joining, hinv.shared.fresh,
      hinv.shared.disciplined⟩, ?_⟩
    refine Config.forall_move ⟨rfl, hnot⟩ fun j _ => ?_
    exact (hinv.locals j).of_close hopen (hok.2 rfl j)
  · obtain ⟨hunnoticed, hshared, hlocal⟩ :=
      joinStep_inv hinv.shared (hinv.locals i) hok.1 hclose hstep
    exact ⟨hshared, Config.forall_move hlocal fun j hij => hunnoticed.localInv hij (hinv.locals j)⟩

/-- **Threads are joined in order**, in every orderly run of any number of threads that create,
resume, wait for and close a handle, against the thread that the handle stands for: a join is of
what a successful `pthread_create` has stored, there is at most one, and there is none after a
`pthread_detach`. -/
theorem join_disciplined (hrun : ReachesIf (threadStep joinStep) Orderly (start t) c) :
    Disciplined c.shared.log := by
  have hinv : Inv c :=
    invariant hrun (inv_start_config t) fun d i a s l hd hok hstep => inv_step hd hok hstep
  exact hinv.shared.disciplined

end Steps

/-- A thread is created suspended, resumed, ends, and is waited for. -/
def resumeAndWait : List (Bool × Choice) :=
  [(false, .create true), (false, .go), (false, .go), (false, .resume), (false, .go), (false, .go),
    (false, .go), (false, .go), (false, .pthread 7), (false, .go), (false, .go), (true, .go),
    (true, .go), (true, .go), (true, .go), (true, .go), (false, .wait), (false, .go), (false, .go),
    (false, .go), (false, .go), (false, .go)]

theorem join_disciplined_resumeAndWait :
    ∃ c, run (threadStep joinStep) (start true) resumeAndWait = some c ∧
      c.shared.log = [.join 7 (some 7)] ∧ Disciplined c.shared.log := by
  have hrun : run (threadStep joinStep) (start true) resumeAndWait = some (final _ _ _) :=
    run_eq_final (by decide)
  exact ⟨_, hrun, by decide, join_disciplined (reachesIf_of_run _ (by decide) hrun)⟩

/-- A thread is created suspended, and waited for before it is resumed. -/
def waitForSuspended : List (Bool × Choice) :=
  [(false, .create true), (false, .go), (false, .go), (false, .wait), (false, .go), (false, .go),
    (false, .go)]

/-- A handle is closed while the thread 0 waits for it. -/
def closeWhileWaiting : List (Fin 3 × Choice) :=
  [(0, .create false), (0, .go), (0, .go), (0, .go), (0, .pthread 7), (0, .go), (0, .wait),
    (1, .close), (1, .answer true), (1, .go), (1, .timeout), (1, .go), (1, .go), (2, .go), (2, .go),
    (2, .go), (0, .go), (0, .go), (0, .go)]

/-- **The discipline is broken.** A wait for a thread that has been created suspended joins a
`pthread_t` that nobody has stored, and a wait that goes on while the handle is closed joins the
thread after it has been detached. -/
theorem join_not_disciplined :
    (∃ c, run (threadStep joinStep) (start true) waitForSuspended = some c ∧
      c.shared.log = [.join 0 none] ∧ ¬Disciplined c.shared.log) ∧
    ∃ c, run (threadStep joinStep) (start 2) closeWhileWaiting = some c ∧
      c.shared.log = [.join 7 (some 7), .detach] ∧ ¬Disciplined c.shared.log := by
  have hsuspended : run (threadStep joinStep) (start true) waitForSuspended =
      some (final _ _ _) := run_eq_final (by decide)
  have hclosed : run (threadStep joinStep) (start 2) closeWhileWaiting = some (final _ _ _) :=
    run_eq_final (by decide)
  refine ⟨⟨_, hsuspended, by decide, fun h => ?_⟩, ⟨_, hclosed, by decide, fun h => ?_⟩⟩
  · exact absurd (h.created 0 none (by decide)) (by decide)
  · have hlog : (final (threadStep joinStep) (start 2) closeWhileWaiting).shared.log =
        [.join 7 (some 7), .detach] := by decide
    have hpair := h.notAfter
    rw [hlog] at hpair
    exact (List.pairwise_cons.mp hpair).1 .detach (by decide) rfl rfl

end JoinDiscipline

end Thread

end Libuzi
