import Libuzi.Thread.StartGate
import Libuzi.Handle.Event
import Libuzi.Ledger

/-!
# How `CreateThread` fails

`CreateThread` (`libuzi/thread.c`) acquires one thing after the other, and has a label for each
stage to which it has come; what is released at a label, and where it goes on, is the table.

| label | releases | goes on at |
|---|---|---|
| `error_thread_list` | `threadIsReady` | `error_thread_ready` |
| `error_thread_ready` | `threadIsReadyMutex` | `error_thread_ready_mutex` |
| `error_thread_ready_mutex` | `mutex` | `error_mutex` |
| `error_mutex` | `pipe_fd[1]`, `pipe_fd[0]` | `error_pipefd0` |
| `error_pipefd0` | the object | – |

The first label serves every failure from the creation of `thread_list` on, and so every failure
of `winpr_StartThread`: also those that come after `pthread_create` has succeeded, when there is a
thread that uses the object, and after `ListDictionary_Add`, when `thread_list` points to it. Each
call of a library function is one step here, and may fail; from `pthread_create` on the new thread
takes its own steps, which are those of `Libuzi.Thread.StartGate`.

`CreateThread` fails cleanly exactly when no thread has been created (`fails_cleanly_iff`).
-/

namespace Libuzi

open Runs Ledger

namespace Thread

namespace CreateFailure

open StartGate (Answer Other)
open Event (Build)

/-! ### The model -/

/-- What `CreateThread` acquires. -/
inductive Resource
  /-- The `WINPR_THREAD`. -/
  | object
  /-- A descriptor in `pipe_fd`. -/
  | descriptor (fd : ℤ)
  /-- `mutex`. -/
  | mutex
  /-- `threadIsReadyMutex`. -/
  | threadIsReadyMutex
  /-- `threadIsReady`. -/
  | threadIsReady
  /-- `thread_list`. -/
  | threadList
  /-- The attributes of the thread. -/
  | attr
  /-- The thread, which is to be joined or detached. -/
  | pthread (tid : ℕ)
  deriving DecidableEq

/-- Where `CreateThread` stands. -/
inductive Pc
  /-- About to allocate the object. -/
  | calloc
  /-- About to call `eventfd` or `pipe`. -/
  | pipe
  /-- About to initialize `mutex`. -/
  | mutexInit
  /-- About to initialize `threadIsReadyMutex`. -/
  | threadIsReadyMutexInit
  /-- About to initialize `threadIsReady`. -/
  | threadIsReadyInit
  /-- About to test `thread_list`. -/
  | testThreadList
  /-- About to call `ListDictionary_New`. -/
  | newThreadList
  /-- About to test `dwCreationFlags`. -/
  | testFlags
  /-- About to set the event of a thread that is suspended. -/
  | setEvent
  /-- In `winpr_StartThread`, about to initialize the attributes, set `started` and reset the
  event. -/
  | attrInit
  /-- In `winpr_StartThread`, from `pthread_create` on. -/
  | start
  /-- In `winpr_StartThread`, about to destroy the attributes and return. -/
  | attrDestroy (result : Bool)
  /-- At the label `error_thread_list`. -/
  | errorThreadList
  /-- At the label `error_thread_ready`. -/
  | errorThreadReady
  /-- At the label `error_thread_ready_mutex`. -/
  | errorThreadReadyMutex
  /-- At the label `error_mutex`, about to close `pipe_fd[1]`. -/
  | errorMutex
  /-- After the label `error_mutex`, about to close `pipe_fd[0]`. -/
  | errorMutexFirst
  /-- At the label `error_pipefd0`. -/
  | errorPipefd0
  /-- It has returned. -/
  | returned (handle : Option ℕ)
  deriving DecidableEq

/-- The state of the call, and of the thread that it creates. -/
structure State where
  /-- Where `CreateThread` stands. -/
  pc : Pc
  /-- `pipe_fd`. -/
  pipeFd : ℤ × ℤ
  /-- Whether `thread_list` is not `NULL`. -/
  hasList : Bool
  /-- This call has created `thread_list`. -/
  newList : Bool
  /-- What `winpr_StartThread` and the new thread share. -/
  gate : StartGate.State
  /-- What the call has acquired and released. -/
  book : Book Resource

/-- The start of `CreateThread`. Whether there is a `thread_list`, and what is in it, is left
open. -/
def initial (threadList : Option (List (ℕ × ℕ))) (thread : ℕ → ℕ) (lpStartAddress : Bool) :
    State where
  pc := .calloc
  pipeFd := (-1, -1)
  hasList := threadList.isSome
  newList := false
  gate := StartGate.start thread (threadList.getD []) lpStartAddress
  book := .empty

/-- A step of the whole. -/
inductive Label
  /-- `CreateThread` goes on. -/
  | creator (a : Answer)
  /-- `eventfd` or `pipe` succeeds: the counter's descriptor alone, or those of both ends. -/
  | descriptors (fds : ℕ × ℕ)
  /-- The new thread goes on. -/
  | launcher (a : Answer)
  /-- The wait of the new thread ends without a signal. -/
  | wake
  /-- Something is done for another object. -/
  | other (o : Other)
  deriving DecidableEq

/-- `close`, if the descriptor is not negative. -/
def closeFd (fd : ℤ) (book : Book Resource) : Book Resource :=
  if 0 ≤ fd then book.release (.descriptor fd) else book

/-- `eventfd` or `pipe` succeeds. -/
def openFds (b : Build) (fds : ℕ × ℕ) (s : State) : State :=
  match b with
  | .eventfd =>
    { s with
      pc := .mutexInit
      pipeFd := (fds.1, -1)
      book := s.book.acquire (.descriptor fds.1) }
  | .pipe =>
    { s with
      pc := .mutexInit
      pipeFd := (fds.1, fds.2)
      book := (s.book.acquire (.descriptor fds.1)).acquire (.descriptor fds.2) }

/-- What `winpr_StartThread` has acquired by a step from `pthread_create` on. -/
def acquireThread (book : Book Resource) : Answer → Book Resource
  | .pthread tid => book.acquire (.pthread tid)
  | _ => book

/-- Where `winpr_StartThread` goes on. -/
def startNext : StartGate.StarterPc → Pc
  | .returned result => .attrDestroy result
  | _ => .start

/-- A step of `CreateThread`, for an object at `h`. -/
def creatorStep (suspended : Bool) (h : ℕ) (s : State) (a : Answer) : Option State :=
  match s.pc, a with
  | .calloc, .go =>
    some { s with
      pc := .pipe
      gate.thread := Function.update s.gate.thread h 0
      book := s.book.acquire .object }
  | .calloc, .fail => some { s with pc := .returned none }
  | .pipe, .fail => some { s with pc := .errorPipefd0 }
  | .mutexInit, .go =>
    some { s with pc := .threadIsReadyMutexInit, book := s.book.acquire .mutex }
  | .mutexInit, .fail => some { s with pc := .errorMutex }
  | .threadIsReadyMutexInit, .go =>
    some { s with pc := .threadIsReadyInit, book := s.book.acquire .threadIsReadyMutex }
  | .threadIsReadyMutexInit, .fail => some { s with pc := .errorThreadReadyMutex }
  | .threadIsReadyInit, .go =>
    some { s with pc := .testThreadList, book := s.book.acquire .threadIsReady }
  | .threadIsReadyInit, .fail => some { s with pc := .errorThreadReady }
  | .testThreadList, .go =>
    some { s with pc := if s.hasList then .testFlags else .newThreadList }
  | .newThreadList, .go =>
    some { s with
      pc := .testFlags
      hasList := true
      newList := true
      gate.threadList := []
      book := s.book.acquire .threadList }
  | .newThreadList, .fail => some { s with pc := .errorThreadList }
  | .testFlags, .go => some { s with pc := if suspended then .setEvent else .attrInit }
  | .setEvent, .go => some { s with pc := .returned (some h) }
  | .setEvent, .fail => some { s with pc := .errorThreadList }
  | .attrInit, .go => some { s with pc := .start, book := s.book.acquire .attr }
  | .start, a =>
    (StartGate.starterStep h s.gate a).map fun gate =>
      { s with pc := startNext gate.starter, gate := gate, book := acquireThread s.book a }
  | .attrDestroy result, .go =>
    some { s with
      pc := if result then .returned (some h) else .errorThreadList
      book := s.book.release .attr }
  | .errorThreadList, .go =>
    some { s with pc := .errorThreadReady, book := s.book.release .threadIsReady }
  | .errorThreadReady, .go =>
    some { s with pc := .errorThreadReadyMutex, book := s.book.release .threadIsReadyMutex }
  | .errorThreadReadyMutex, .go =>
    some { s with pc := .errorMutex, book := s.book.release .mutex }
  | .errorMutex, .go => some { s with pc := .errorMutexFirst, book := closeFd s.pipeFd.2 s.book }
  | .errorMutexFirst, .go => some { s with pc := .errorPipefd0, book := closeFd s.pipeFd.1 s.book }
  | .errorPipefd0, .go => some { s with pc := .returned none, book := s.book.release .object }
  | _, _ => none

/-- **One step.** -/
def step (b : Build) (suspended : Bool) (h : ℕ) (s : State) : Label → Option State
  | .creator a => creatorStep suspended h s a
  | .descriptors fds => if s.pc = .pipe then some (openFds b fds s) else none
  | .launcher a => (StartGate.launcherStep h s.gate a).map fun gate => { s with gate := gate }
  | .wake => (StartGate.step h s.gate .wake).map fun gate => { s with gate := gate }
  | .other o =>
    -- what others do is done to a list that is there
    if s.hasList then (StartGate.step h s.gate (.other o)).map fun gate => { s with gate := gate }
    else none

/-! ### What a failure is to leave -/

/-- **`CreateThread` has failed cleanly**, for an object at `h`, where `before` is what was in
`thread_list` when it was called. -/
structure Clean (before : List (ℕ × ℕ)) (h : ℕ) (s : State) : Prop where
  /-- Everything acquired has been released exactly once, but for a dictionary that the call has
  created: it is there to stay, as `thread_list`. -/
  settled : s.book.Holds (if s.newList then [.threadList] else [])
  /-- No entry of `thread_list` points to the object, unless it has been there before. -/
  noEntry : ∀ item ∈ s.gate.threadList, item ∈ before ∨ item.1 ≠ h ∧ item.2 ≠ h
  /-- No thread has been started on the object, or it is done with it. -/
  noThread : s.gate.launcher = .notStarted ∨ s.gate.launcher = .ended

/-- The label says that a thread has been created. -/
def Label.createsThread : Label → Bool
  | .creator (.pthread _) => true
  | _ => false

/-! ### What is held -/

variable {b : Build} {suspended : Bool} {before : List (ℕ × ℕ)} {h : ℕ} {s s' : State}
  {a : Answer} {l : Label}

/-- The resource behind a descriptor, if there is one. -/
def fdHeld (fd : ℤ) : List Resource := if 0 ≤ fd then [.descriptor fd] else []

/-- What `CreateThread` is to release, from where it stands. -/
def ownHeld (s : State) : List Resource :=
  let object := [Resource.object]
  let fds := fdHeld s.pipeFd.2 ++ (fdHeld s.pipeFd.1 ++ object)
  let mutex := .mutex :: fds
  let ready := .threadIsReady :: .threadIsReadyMutex :: mutex
  match s.pc with
  | .calloc | .returned none => []
  | .pipe | .errorPipefd0 => object
  | .errorMutexFirst => fdHeld s.pipeFd.1 ++ object
  | .mutexInit | .errorMutex => fds
  | .threadIsReadyMutexInit | .errorThreadReadyMutex => mutex
  | .threadIsReadyInit | .errorThreadReady => .threadIsReadyMutex :: mutex
  | .testThreadList | .newThreadList | .testFlags | .setEvent | .attrInit | .errorThreadList
  | .returned (some _) => ready
  | .start | .attrDestroy _ => .attr :: ready

/-- The new thread, if there is one. -/
def threadHeld (h : ℕ) (s : State) : List Resource :=
  if s.gate.launcher = .notStarted then [] else [.pthread (s.gate.thread h)]

/-- The dictionary, if it is a new one. -/
def listHeld (s : State) : List Resource := if s.newList then [.threadList] else []

/-- The places of `CreateThread` up to the creation of `thread_list`. -/
def Pc.early : Pc → Bool
  | .calloc | .pipe | .mutexInit | .threadIsReadyMutexInit | .threadIsReadyInit | .testThreadList
  | .newThreadList => true
  | _ => false

/-- Until there is a new thread, `winpr_StartThread` has not come beyond `pthread_create`, and no
new entry points to the object. -/
structure GateInv (before : List (ℕ × ℕ)) (h : ℕ) (g : StartGate.State) : Prop where
  create : g.starter = .create → g.launcher = .notStarted
  notStarted : g.launcher = .notStarted → g.starter = .create ∨ g.starter = .returned false
  noEntry : g.launcher = .notStarted →
    ∀ item ∈ g.threadList, item ∈ before ∨ item.1 ≠ h ∧ item.2 ≠ h

/-- **The invariant**: what is held is what `CreateThread` is to release, together with the new
thread and the new dictionary. -/
structure Inv (before : List (ℕ × ℕ)) (h : ℕ) (s : State) : Prop where
  gate : GateInv before h s.gate
  early : s.pc.early = true → s.newList = false ∧ s.gate.launcher = .notStarted
  held : s.book.Holds (ownHeld s ++ (threadHeld h s ++ listHeld s))

theorem inv_initial (threadList : Option (List (ℕ × ℕ))) (thread : ℕ → ℕ)
    (lpStartAddress : Bool) :
    Inv (threadList.getD []) h (initial threadList thread lpStartAddress) where
  gate := ⟨fun _ => rfl, fun _ => .inl rfl, fun _ _ hitem => .inl hitem⟩
  early := fun _ => ⟨rfl, rfl⟩
  held := Book.holds_empty

/-! ### The thread and the others -/

/-- A step after `pthread_create` keeps `GateInv`. -/
theorem GateInv.starterStep {g g' : StartGate.State} (hg : GateInv before h g)
    (hs : StartGate.starterStep h g a = some g') : GateInv before h g' := by
  by_cases ha : ∃ tid, a = .pthread tid
  · obtain ⟨tid, rfl⟩ := ha
    obtain ⟨-, rfl⟩ := StartGate.starterStep_pthread hs
    exact ⟨nofun, nofun, nofun⟩
  · obtain ⟨hlauncher, -, hlist, hcreate, hreturned⟩ :=
      StartGate.starterStep_frame hs fun tid heq => ha ⟨tid, heq⟩
    refine ⟨fun h => absurd h hcreate, fun hnot => ?_, fun hnot => ?_⟩
    all_goals rw [hlauncher] at hnot
    · rcases hg.notStarted hnot with hpc | hpc
      · exact .inr (hreturned hpc)
      · -- nothing is done after the return
        exact absurd hs (by cases a <;> simp [StartGate.starterStep, hpc])
    · rcases hlist with hadd | hlist
      · -- without a thread nothing is added
        rcases hg.notStarted hnot with hpc | hpc <;> rw [hpc] at hadd <;> cases hadd
      · rw [hlist]
        exact hg.noEntry hnot

theorem GateInv.launcherStep {g g' : StartGate.State} (hg : GateInv before h g)
    (hs : StartGate.launcherStep h g a = some g') : GateInv before h g' := by
  obtain ⟨hbefore, hafter, -, -, hstarter⟩ := StartGate.launcherStep_frame hs
  refine ⟨fun hcreate => ?_, fun hnot => absurd hnot hafter, fun hnot => absurd hnot hafter⟩
  rw [hstarter] at hcreate
  exact absurd (hg.create hcreate) hbefore

/-- A step of the new thread, or for another object, keeps the invariant: `CreateThread` stands
where it stood, and the `pthread_t` is the same. -/
theorem Inv.setGate {g : StartGate.State} (hinv : Inv before h s) (hg : GateInv before h g)
    (hlauncher : g.launcher = .notStarted ↔ s.gate.launcher = .notStarted)
    (hthread : g.thread h = s.gate.thread h) : Inv before h { s with gate := g } where
  gate := hg
  early := fun hearly => ⟨(hinv.early hearly).1, hlauncher.mpr (hinv.early hearly).2⟩
  held := by
    have hsame : threadHeld h { s with gate := g } = threadHeld h s := by
      simp only [threadHeld, hlauncher, hthread]
    rw [hsame]
    exact hinv.held

/-- What is done for another object keeps the invariant. -/
theorem Inv.other {o : Other} (hinv : Inv before h s) (ho : o.object ≠ h) :
    Inv before h { s with gate := StartGate.otherStep s.gate o } := by
  have hgate := hinv.gate
  cases o with
  | create k tid =>
    refine hinv.setGate ⟨hgate.create, hgate.notStarted, hgate.noEntry⟩ Iff.rfl ?_
    exact Function.update_of_ne (Ne.symm ho) _ _
  | add k =>
    refine hinv.setGate ⟨hgate.create, hgate.notStarted, fun hnot item hitem => ?_⟩ Iff.rfl rfl
    rcases List.mem_append.mp hitem with hitem | hitem
    · exact hgate.noEntry hnot item hitem
    · obtain rfl := List.mem_singleton.mp hitem
      exact .inr ⟨ho, ho⟩
  | remove k =>
    refine hinv.setGate ⟨hgate.create, hgate.notStarted, fun hnot item hitem => ?_⟩ Iff.rfl rfl
    change item ∈ if _ then _ else _ at hitem
    split at hitem
    · exact hgate.noEntry hnot item (List.mem_of_mem_eraseP hitem)
    · exact hgate.noEntry hnot item hitem

/-! ### `CreateThread` -/

/-- A conditional `close` releases the descriptor that is held. -/
theorem holds_closeFd {book : Book Resource} {fd : ℤ} {held : List Resource}
    (hheld : book.Holds (fdHeld fd ++ held)) : (closeFd fd book).Holds held := by
  unfold fdHeld at hheld
  unfold closeFd
  by_cases hfd : 0 ≤ fd
  · rw [if_pos hfd] at hheld ⊢
    exact hheld.release
  · rw [if_neg hfd] at hheld ⊢
    exact hheld

/-- `eventfd` or `pipe` keeps the invariant. -/
theorem inv_openFds (hinv : Inv before h s) (hpc : s.pc = .pipe) (fds : ℕ × ℕ) :
    Inv before h (openFds b fds s) := by
  have hearly : s.newList = false ∧ s.gate.launcher = .notStarted :=
    hinv.early (by rw [hpc]; rfl)
  have hheld := hinv.held
  simp only [ownHeld, hpc] at hheld
  cases b with
  | eventfd =>
    refine ⟨hinv.gate, fun _ => hearly, ?_⟩
    have hfst : fdHeld (fds.1 : ℤ) = [.descriptor fds.1] := if_pos (Int.natCast_nonneg _)
    change Book.Holds _ (fdHeld (-1) ++ (fdHeld (fds.1 : ℤ) ++ _) ++ _)
    rw [hfst]
    exact hheld.acquire _
  | pipe =>
    refine ⟨hinv.gate, fun _ => hearly, ?_⟩
    have hfst : fdHeld (fds.1 : ℤ) = [.descriptor fds.1] := if_pos (Int.natCast_nonneg _)
    have hsnd : fdHeld (fds.2 : ℤ) = [.descriptor fds.2] := if_pos (Int.natCast_nonneg _)
    change Book.Holds _ (fdHeld (fds.2 : ℤ) ++ (fdHeld (fds.1 : ℤ) ++ _) ++ _)
    rw [hfst, hsnd]
    exact (hheld.acquire _).acquire _

/-- `CreateThread` moves on, the new thread and the list being as they were. -/
theorem Inv.setPc (hinv : Inv before h s) {pc : Pc} {book : Book Resource}
    (hearly : pc.early = true → s.newList = false ∧ s.gate.launcher = .notStarted)
    (hheld : book.Holds (ownHeld { s with pc := pc } ++ (threadHeld h s ++ listHeld s))) :
    Inv before h { s with pc := pc, book := book } where
  gate := hinv.gate
  early := hearly
  held := hheld

/-- A step from `pthread_create` on keeps the invariant. -/
theorem inv_start (hinv : Inv before h s) (hpc : s.pc = .start) {g : StartGate.State}
    (hs : StartGate.starterStep h s.gate a = some g) :
    Inv before h
      { s with pc := startNext g.starter, gate := g, book := acquireThread s.book a } := by
  have hg : GateInv before h g := hinv.gate.starterStep hs
  have hheld := hinv.held
  simp only [ownHeld, hpc] at hheld
  -- the attributes are still held, wherever `winpr_StartThread` goes on
  have hown : ownHeld { s with
      pc := startNext g.starter, gate := g, book := acquireThread s.book a } =
      ownHeld { s with pc := .start } := by
    cases hstarter : g.starter <;> rfl
  refine ⟨hg, fun hearly => ?_, ?_⟩
  · change (startNext g.starter).early = true at hearly
    cases hstarter : g.starter <;> rw [hstarter] at hearly <;> cases hearly
  · rw [hown]
    by_cases ha : ∃ tid, a = .pthread tid
    · obtain ⟨tid, rfl⟩ := ha
      obtain ⟨hcreate, rfl⟩ := StartGate.starterStep_pthread hs
      have hnone : threadHeld h s = [] := if_pos (hinv.gate.create hcreate)
      rw [hnone] at hheld
      have hnew : ∀ t : State, t.gate = { s.gate with
          thread := Function.update s.gate.thread h tid
          starter := .lock
          launcher := .begin } → threadHeld h t = [.pthread tid] := by
        intro t ht
        rw [threadHeld, ht, if_neg nofun]
        exact congrArg (fun tid => [Resource.pthread tid]) (Function.update_self ..)
      rw [hnew _ rfl]
      exact (hheld.acquire _).perm List.perm_middle
    · obtain ⟨hlauncher, hthread, -⟩ :=
        StartGate.starterStep_frame hs fun tid heq => ha ⟨tid, heq⟩
      have hbook : acquireThread s.book a = s.book := by
        cases a with
        | pthread tid => exact absurd ⟨tid, rfl⟩ ha
        | go => rfl
        | fail => rfl
      have hsame : threadHeld h { s with
          pc := startNext g.starter, gate := g, book := acquireThread s.book a } =
          threadHeld h s := by
        simp only [threadHeld, hlauncher, hthread]
      rw [hsame, hbook]
      exact hheld

/-- **`CreateThread` keeps the invariant.** -/
theorem inv_creatorStep (hinv : Inv before h s) (hs : creatorStep suspended h s a = some s') :
    Inv before h s' := by
  have hheld := hinv.held
  cases hpc : s.pc <;> cases a <;>
    simp only [creatorStep, hpc, reduceCtorEq, Option.some.injEq, Option.map_eq_some_iff] at hs
  all_goals simp only [ownHeld, hpc] at hheld
  case calloc.go =>
    subst hs
    obtain ⟨hnew, hnot⟩ := hinv.early (by rw [hpc]; rfl)
    have hnone : threadHeld h s = [] := if_pos hnot
    rw [hnone] at hheld
    refine ⟨⟨hinv.gate.create, hinv.gate.notStarted, hinv.gate.noEntry⟩, fun _ => ⟨hnew, hnot⟩, ?_⟩
    rw [threadHeld, if_pos hnot]
    exact hheld.acquire _
  case newThreadList.go =>
    subst hs
    obtain ⟨hnew, hnot⟩ := hinv.early (by rw [hpc]; rfl)
    have hlist : listHeld s = [] := by
      rw [listHeld, hnew]
      rfl
    rw [hlist] at hheld
    refine ⟨⟨hinv.gate.create, hinv.gate.notStarted,
      fun _ item hitem => absurd hitem List.not_mem_nil⟩, nofun, ?_⟩
    refine (hheld.acquire .threadList).perm ?_
    rw [← List.append_assoc, List.append_nil]
    exact List.perm_append_singleton _ _
  case mutexInit.go | threadIsReadyMutexInit.go | threadIsReadyInit.go =>
    subst hs
    exact hinv.setPc (fun _ => hinv.early (by rw [hpc]; rfl)) (hheld.acquire _)
  case attrInit.go =>
    subst hs
    exact hinv.setPc nofun (hheld.acquire _)
  case testThreadList.go =>
    subst hs
    refine hinv.setPc (fun _ => hinv.early (by rw [hpc]; rfl)) ?_
    cases s.hasList <;> exact hheld
  case testFlags.go =>
    subst hs
    cases suspended with
    | true => exact hinv.setPc nofun hheld
    | false => exact hinv.setPc nofun hheld
  case start.go | start.fail | start.pthread =>
    obtain ⟨g, hg, rfl⟩ := hs
    exact inv_start hinv hpc hg
  case attrDestroy.go result =>
    subst hs
    cases result with
    | true => exact hinv.setPc nofun hheld.release
    | false => exact hinv.setPc nofun hheld.release
  case errorMutex.go =>
    subst hs
    rw [List.append_assoc] at hheld
    exact hinv.setPc nofun (holds_closeFd hheld)
  case errorMutexFirst.go =>
    subst hs
    rw [List.append_assoc] at hheld
    exact hinv.setPc nofun (holds_closeFd hheld)
  case errorThreadList.go | errorThreadReady.go | errorThreadReadyMutex.go | errorPipefd0.go =>
    subst hs
    exact hinv.setPc nofun hheld.release
  all_goals
    subst hs
    exact hinv.setPc nofun hheld

/-- **One step** keeps the invariant. -/
theorem inv_step (hinv : Inv before h s) (hs : step b suspended h s l = some s') :
    Inv before h s' := by
  cases l with
  | creator a => exact inv_creatorStep hinv hs
  | descriptors fds =>
    obtain ⟨hpc, hs⟩ := Option.ite_none_right_eq_some.mp hs
    obtain rfl := Option.some.inj hs
    exact inv_openFds hinv hpc fds
  | launcher a =>
    obtain ⟨g, hg, rfl⟩ := Option.map_eq_some_iff.mp hs
    obtain ⟨hbefore, hafter, hthread, -⟩ := StartGate.launcherStep_frame hg
    exact hinv.setGate (hinv.gate.launcherStep hg) (iff_of_false hafter hbefore)
      (congrFun hthread h)
  | wake =>
    obtain ⟨g, hg, rfl⟩ := Option.map_eq_some_iff.mp hs
    obtain ⟨hwaiting, hg⟩ := Option.ite_none_right_eq_some.mp hg
    obtain rfl := Option.some.inj hg
    have hbefore : s.gate.launcher ≠ .notStarted := by
      rw [hwaiting]
      decide
    refine hinv.setGate ⟨fun hcreate => absurd (hinv.gate.create hcreate) hbefore,
      nofun, nofun⟩ (iff_of_false ?_ hbefore) rfl
    exact nofun
  | other o =>
    obtain ⟨-, hs⟩ := Option.ite_none_right_eq_some.mp hs
    obtain ⟨g, hg, rfl⟩ := Option.map_eq_some_iff.mp hs
    obtain ⟨ho, hg⟩ := Option.ite_none_left_eq_some.mp hg
    obtain rfl := Option.some.inj hg
    exact hinv.other ho

/-- **There is a new thread once `pthread_create` has succeeded**, and not before. -/
theorem notStarted_step (hs : step b suspended h s l = some s') :
    s'.gate.launcher = .notStarted ↔ s.gate.launcher = .notStarted ∧ l.createsThread = false := by
  cases l with
  | creator a =>
    cases hpc : s.pc <;> cases a <;>
      simp only [step, creatorStep, hpc, reduceCtorEq, Option.some.injEq,
        Option.map_eq_some_iff] at hs
    case start.pthread tid =>
      obtain ⟨g, hg, rfl⟩ := hs
      obtain ⟨-, rfl⟩ := StartGate.starterStep_pthread hg
      exact iff_of_false nofun fun hnot => (by cases hnot.2)
    case start.go | start.fail =>
      obtain ⟨g, hg, rfl⟩ := hs
      have hlauncher : g.launcher = s.gate.launcher :=
        (StartGate.starterStep_frame hg nofun).1
      change g.launcher = _ ↔ _
      rw [hlauncher]
      exact (and_iff_left rfl).symm
    all_goals
      subst hs
      exact (and_iff_left rfl).symm
  | descriptors fds =>
    obtain ⟨-, hs⟩ := Option.ite_none_right_eq_some.mp hs
    obtain rfl := Option.some.inj hs
    cases b <;> exact (and_iff_left rfl).symm
  | launcher a =>
    obtain ⟨g, hg, rfl⟩ := Option.map_eq_some_iff.mp hs
    obtain ⟨hbefore, hafter, -⟩ := StartGate.launcherStep_frame hg
    exact iff_of_false hafter fun hnot => hbefore hnot.1
  | wake =>
    obtain ⟨g, hg, rfl⟩ := Option.map_eq_some_iff.mp hs
    obtain ⟨hwaiting, hg⟩ := Option.ite_none_right_eq_some.mp hg
    obtain rfl := Option.some.inj hg
    refine iff_of_false nofun fun hnot => ?_
    rw [hwaiting] at hnot
    cases hnot.1
  | other o =>
    obtain ⟨-, hs⟩ := Option.ite_none_right_eq_some.mp hs
    obtain ⟨g, hg, rfl⟩ := Option.map_eq_some_iff.mp hs
    obtain ⟨-, hg⟩ := Option.ite_none_left_eq_some.mp hg
    obtain rfl := Option.some.inj hg
    cases o <;> exact (and_iff_left rfl).symm

/-! ### The result -/

/-- What is left when `CreateThread` returns `NULL`: the new thread, if there is one, and the new
dictionary. -/
theorem Inv.holds_of_null (hinv : Inv before h s) (hnull : s.pc = .returned none) :
    s.book.Holds (threadHeld h s ++ listHeld s) := by
  have hheld := hinv.held
  simp only [ownHeld, hnull] at hheld
  exact hheld

/-- A failure is clean exactly when there is no new thread. -/
theorem Inv.clean_iff (hinv : Inv before h s) (hnull : s.pc = .returned none) :
    Clean before h s ↔ s.gate.launcher = .notStarted := by
  constructor
  · intro hclean
    by_contra hstarted
    have hperm := (hinv.holds_of_null hnull).holds_iff.mp hclean.settled
    rw [threadHeld, if_neg hstarted] at hperm
    exact absurd hperm.length_eq (by simp [listHeld])
  · intro hnot
    have hnone : threadHeld h s = [] := if_pos hnot
    have hheld := hinv.holds_of_null hnull
    rw [hnone] at hheld
    exact ⟨hheld, hinv.gate.noEntry hnot, .inl hnot⟩

/-- **`CreateThread` fails cleanly exactly when it has created no thread**: in every run in which it
returns `NULL`, whatever fails, whatever the new thread does in the meantime and whatever is done
for other objects. -/
theorem fails_cleanly_iff {threadList : Option (List (ℕ × ℕ))} {thread : ℕ → ℕ}
    {lpStartAddress : Bool} (ls : List Label)
    (hrun : run (step b suspended h) (initial threadList thread lpStartAddress) ls = some s)
    (hnull : s.pc = .returned none) :
    Clean (threadList.getD []) h s ↔ ∀ l ∈ ls, l.createsThread = false := by
  have hinv : Inv (threadList.getD []) h s :=
    (reaches_of_run ls hrun).invariant (inv_initial threadList thread lpStartAddress)
      fun t t' l ht _ hs => inv_step ht hs
  rw [hinv.clean_iff hnull, ← allMeet_iff_forall hrun]
  have hnot : s.gate.launcher = .notStarted ↔
      (initial threadList thread lpStartAddress).gate.launcher = .notStarted ∧
        AllMeet (step b suspended h) (fun _ l => l.createsThread = false)
          (initial threadList thread lpStartAddress) ls :=
    run_iff_allMeet (I := fun _ => True) (P := fun s => s.gate.launcher = .notStarted) trivial
      (fun t t' l _ hs => ⟨trivial, notStarted_step hs⟩) hrun
  exact hnot.trans (and_iff_right rfl)

/-- `pthread_create` fails, and everything is taken back. -/
def threadFails : List Label :=
  [.creator .go, .descriptors (3, 4), .creator .go, .creator .go, .creator .go, .creator .go,
    .creator .go, .creator .go, .creator .fail, .creator .go, .creator .go, .creator .go,
    .creator .go, .creator .go, .creator .go, .creator .go]

theorem fails_cleanly_iff_threadFails :
    ∃ s, run (step .pipe false 4) (initial (some [(5, 5)]) (fun _ => 6) true) threadFails = some s ∧
      s.pc = .returned none ∧ Clean [(5, 5)] 4 s := by
  have hrun : run (step .pipe false 4) (initial (some [(5, 5)]) (fun _ => 6) true) threadFails =
      some (final _ _ _) := run_eq_final (by decide)
  exact ⟨_, hrun, by decide, (fails_cleanly_iff _ hrun (by decide)).mpr (by decide)⟩

/-- A thread has been created, and there is no memory for its entry. -/
def addFails : List Label :=
  [.creator .go, .descriptors (3, 0), .creator .go, .creator .go, .creator .go, .creator .go,
    .creator .go, .creator .go, .creator (.pthread 7), .creator .go, .creator .fail, .creator .go,
    .creator .go, .creator .go, .creator .go, .creator .go, .creator .go, .creator .go,
    .creator .go]

/-- A thread has been created and has its entry, when the signal fails. -/
def signalFails : List Label :=
  [.creator .go, .descriptors (3, 0), .creator .go, .creator .go, .creator .go, .creator .go,
    .creator .go, .creator .go, .creator (.pthread 7), .creator .go, .creator .go, .creator .fail,
    .creator .go, .creator .go, .creator .go, .creator .go, .creator .go, .creator .go,
    .creator .go, .creator .go]

/-- **Failures that are not clean**: `CreateThread` returns `NULL` and has freed the object, of
which a thread is about to read the start address; and in the second case the entry of the object
is in `thread_list`. -/
theorem fails_uncleanly :
    (∃ s, run (step .eventfd false 4) (initial (some []) (fun _ => 6) true) addFails = some s ∧
      s.pc = .returned none ∧ .object ∈ s.book.released ∧ s.gate.launcher = .begin ∧
        ¬Clean [] 4 s) ∧
    ∃ s, run (step .eventfd false 4) (initial (some []) (fun _ => 6) true) signalFails = some s ∧
      s.pc = .returned none ∧ .object ∈ s.book.released ∧ s.gate.launcher = .begin ∧
        (4, 4) ∈ s.gate.threadList ∧ ¬Clean [] 4 s := by
  have hadd : run (step .eventfd false 4) (initial (some []) (fun _ => 6) true) addFails =
      some (final _ _ _) := run_eq_final (by decide)
  have hsignal : run (step .eventfd false 4) (initial (some []) (fun _ => 6) true) signalFails =
      some (final _ _ _) := run_eq_final (by decide)
  exact ⟨⟨_, hadd, by decide, by decide, by decide, fun hclean =>
      absurd hclean.noThread (by decide)⟩,
    ⟨_, hsignal, by decide, by decide, by decide, by decide, fun hclean =>
      absurd hclean.noThread (by decide)⟩⟩

end CreateFailure

end Thread

end Libuzi
