import Libuzi.Runs
import Libuzi.Handle.Handle
import Libuzi.Lists.ListDictionary
import Mathlib.Logic.Function.Basic

/-!
# The thread registry

The threads of `libuzi/thread.c` at the level of whole calls. `CreateThread` allocates a
`WINPR_THREAD`, starts a pthread on it and enters it in the dictionary `thread_list`: the
key is a pointer to the `pthread_t` inside the object, the value the object, and keys are
compared by the `pthread_t` they point to. `ExitThread` and `_GetCurrentThread` find the
object of the calling thread by its `pthread_t`. A wait that finds the thread's event set
joins the pthread; the entry stays until `CloseHandle`, or until the thread ends if the
handle has been closed before.

The pthread library is explicit: which threads it has not forgotten, whether each has
ended, whether it is detached. A `pthread_t` is forgotten, and can be given out again, when
the thread is joined, or when it has ended and is detached. That the value of a new thread
is none that the library remembers is the one thing that is assumed of it; otherwise the
label of a step chooses the value, as it chooses the address of the new object.

The functions are those of the build with `eventfd`. A call that does not return – a join
of a thread that has not ended – is not a step.
-/

namespace Libuzi

open Runs

namespace Thread

open Handle

/-! ### The data -/

/-- `WINPR_THREAD`, as far as the registry is concerned. -/
structure WinprThread where
  /-- `started`. -/
  started : Bool
  /-- Whether the event behind `pipe_fd` is set. -/
  signalled : Bool
  /-- `detached`. -/
  detached : Bool
  /-- `joined`. -/
  joined : Bool
  /-- `exited`. -/
  exited : Bool
  /-- `dwExitCode`. -/
  dwExitCode : ℕ
  /-- `thread`, the `pthread_t`; 0 before the thread is started. -/
  thread : ℕ
  deriving DecidableEq

/-- A thread that the pthread library has not forgotten. -/
structure PThread where
  /-- The argument of its start routine: the address of its `WINPR_THREAD`. -/
  handle : ℕ
  /-- It has ended. -/
  terminated : Bool
  /-- It is detached. -/
  detached : Bool
  deriving DecidableEq

/-- The state of the process. -/
structure State where
  /-- The objects, by address; `none` where there is none, or none any more. -/
  heap : ℕ → Option WinprThread
  /-- `thread_list`. An item's key is given by the object whose `pthread_t` it points to. -/
  threadList : Option (List (ℕ × ℕ))
  /-- The pthreads, by `pthread_t`. -/
  pthreads : ℕ → Option PThread
  /-- The handles that have been returned and not closed. -/
  isOpen : ℕ → Bool

/-- The start: no threads, no list. -/
def State.start : State where
  heap := fun _ => none
  threadList := none
  pthreads := fun _ => none
  isOpen := fun _ => false

/-! ### The dictionary -/

/-- The `pthread_t` that a key points to. -/
def State.idOf (s : State) (key : ℕ) : Option ℕ := (s.heap key).map WinprThread.thread

/-- `thread_compare` of a key with a pointer to `tid`. -/
def State.threadCompare (s : State) (tid : ℕ) (key : ℕ) : Bool := decide (s.idOf key = some tid)

/-- The items of `thread_list`, of which there are none if there is no list. -/
def State.entries (s : State) : List (ℕ × ℕ) := s.threadList.getD []

/-- `thread_list && ListDictionary_Contains(thread_list, &tid)`. -/
def State.contains (s : State) (tid : ℕ) : Bool :=
  match s.threadList with
  | none => false
  | some d => ListDictionary.contains (s.threadCompare tid) d

/-- `_GetCurrentThread`, called by the thread `tid`. -/
def getCurrentThread (s : State) (tid : ℕ) : Option ℕ :=
  match s.threadList with
  | none => none
  | some d =>
    if !ListDictionary.contains (s.threadCompare tid) d then none
    else ListDictionary.getItemValue (s.threadCompare tid) d

/-! ### The functions -/

/-- Store an object. -/
def State.setThread (s : State) (h : ℕ) (t : Option WinprThread) : State :=
  { s with heap := Function.update s.heap h t }

/-- What the pthread library knows of a `pthread_t`. -/
def State.setPThread (s : State) (tid : ℕ) (p : Option PThread) : State :=
  { s with pthreads := Function.update s.pthreads tid p }

/-- `cleanup_handle`. -/
def cleanupHandle (s : State) (h : ℕ) : State :=
  match s.heap h with
  | none => s
  | some t =>
    let list := s.threadList.map fun d =>
      if ListDictionary.contains (s.threadCompare t.thread) d then
        ListDictionary.remove (s.threadCompare t.thread) d
      else d
    { s with threadList := list, heap := Function.update s.heap h none }

/-- `pthread_join`: whether it succeeds; `none` if it does not return. -/
def pthreadJoin (s : State) (tid : ℕ) : Option (State × Bool) :=
  match s.pthreads tid with
  | none => some (s, false)
  | some p =>
    if p.detached then some (s, false)
    else if p.terminated then some (s.setPThread tid none, true)
    else none

/-- `pthread_detach`. -/
def pthreadDetach (s : State) (tid : ℕ) : State :=
  match s.pthreads tid with
  | none => s
  | some p => s.setPThread tid (if p.terminated then none else some { p with detached := true })

/-- The end of a thread. -/
def pthreadExit (s : State) (tid : ℕ) : State :=
  match s.pthreads tid with
  | none => s
  | some p => s.setPThread tid (if p.detached then none else some { p with terminated := true })

/-- `WaitForSingleObject` on a thread, and in it `ThreadCleanupHandle`. -/
def waitForSingleObject (s : State) (h : ℕ) : Option (State × ℕ) :=
  match s.heap h with
  | none => none
  | some t =>
    if !t.signalled then some (s, waitTimeout)
    else if t.joined then some (s, waitObject0)
    else
      match pthreadJoin s t.thread with
      | none => none
      | some (s', true) =>
        some (s'.setThread h (some { t with joined := true }), waitObject0)
      | some (s', false) => some (s', waitFailed)

/-- `ListDictionary_Free` when the last item is gone. -/
def freeIfEmpty (s : State) : State :=
  match s.threadList with
  | none => s
  | some d => if ListDictionary.count d < 1 then { s with threadList := none } else s

/-- `ThreadCloseHandle`. -/
def threadCloseHandle (s : State) (h : ℕ) : Option State :=
  match s.heap h with
  | none => none
  | some t =>
    if !s.contains t.thread then some s
    else if t.started then
      match waitForSingleObject s h with
      | none => none
      | some (s', r) =>
        if r ≠ waitObject0 then
          some (freeIfEmpty (pthreadDetach (s'.setThread h (some { t with detached := true }))
            t.thread))
        else some (freeIfEmpty (cleanupHandle s' h))
    else some (freeIfEmpty (cleanupHandle s h))

/-- `CreateThread`, where all goes well: the new object is at `h`, and the new pthread, if it is
started, is `tid`. -/
def createThread (s : State) (h tid : ℕ) (suspended : Bool) : State :=
  let thread : WinprThread :=
    { started := false, signalled := false, detached := false, joined := false, exited := false
      dwExitCode := 0, thread := 0 }
  let d := s.threadList.getD []
  let s := { s with isOpen := Function.update s.isOpen h true }
  if suspended then
    { s.setThread h (some { thread with signalled := true }) with threadList := some d }
  else
    { (s.setThread h (some { thread with started := true, thread := tid })).setPThread tid
        (some { handle := h, terminated := false, detached := false }) with
      threadList := some (ListDictionary.add d h h) }

/-- The end of `thread_launcher` in the thread `tid`, after the thread function has returned
`rc`. -/
def threadLauncherExit (s : State) (tid rc : ℕ) : Option State :=
  match s.pthreads tid with
  | none => none
  | some p =>
    match s.heap p.handle with
    | none => none
    | some t =>
      let code := if t.exited then t.dwExitCode else rc
      let s := s.setThread p.handle (some { t with dwExitCode := code, signalled := true })
      let s := if t.detached || !t.started then cleanupHandle s p.handle else s
      some (pthreadExit s tid)

/-- The first half of `ExitThread`, called by the thread `tid`: the object that is found, and
the state after its fields and its event have been set. -/
def exitThreadMark (s : State) (tid dwExitCode : ℕ) : Option (ℕ × WinprThread × State) :=
  match getCurrentThread s tid with
  | none => none
  | some h =>
    match s.heap h with
    | none => none
    | some t =>
      let t' := { t with exited := true, dwExitCode := dwExitCode, signalled := true }
      some (h, t', s.setThread h (some t'))

/-- `ExitThread`. A thread that is not found in the list ends without further ado. -/
def exitThread (s : State) (tid dwExitCode : ℕ) : Option State :=
  if !s.contains tid then some (pthreadExit s tid)
  else
    match exitThreadMark s tid dwExitCode with
    | none => none
    | some (h, t, s) =>
      some (pthreadExit (if t.detached || !t.started then cleanupHandle s h else s) tid)

/-! ### Runs -/

/-- A call. The address of a new object and the `pthread_t` of a new thread are chosen by the
environment. -/
inductive Label
  /-- `CreateThread`. -/
  | create (h tid : ℕ) (suspended : Bool)
  /-- `WaitForSingleObject`. -/
  | wait (h : ℕ)
  /-- `CloseHandle`. -/
  | close (h : ℕ)
  /-- The thread function of `tid` returns. -/
  | ret (tid rc : ℕ)
  /-- `ExitThread`, called by `tid`. -/
  | exitThread (tid dwExitCode : ℕ)
  /-- `_GetCurrentThread`, called by `tid`. -/
  | getCurrentThread (tid : ℕ)
  deriving DecidableEq

/-- Whether the thread is running. -/
def State.running (s : State) (tid : ℕ) : Bool :=
  match s.pthreads tid with
  | none => false
  | some p => !p.terminated

/-- **One call.** A new object is where there is none, a new `pthread_t` is none that the
library remembers, handles that are used are open, and the calling thread is running. -/
def step (s : State) : Label → Option State
  | .create h tid suspended =>
    if (s.heap h).isNone && (suspended || (s.pthreads tid).isNone) then
      some (createThread s h tid suspended)
    else none
  | .wait h => if s.isOpen h then (waitForSingleObject s h).map Prod.fst else none
  | .close h =>
    if s.isOpen h then
      (threadCloseHandle s h).map fun s => { s with isOpen := Function.update s.isOpen h false }
    else none
  | .ret tid rc => if s.running tid then threadLauncherExit s tid rc else none
  | .exitThread tid dwExitCode => if s.running tid then exitThread s tid dwExitCode else none
  | .getCurrentThread tid => if s.running tid then some s else none

/-- **The condition**: the `pthread_t` of a new thread is not 0, and is not the key of an entry
that is still in the list. -/
def IdUnused (s : State) : Label → Prop
  | .create _ tid false => tid ≠ 0 ∧ s.contains tid = false
  | _ => True

instance (s : State) (e : Label) : Decidable (IdUnused s e) :=
  match e with
  | .create _ tid false => inferInstanceAs (Decidable (tid ≠ 0 ∧ s.contains tid = false))
  | .create _ _ true | .wait _ | .close _ | .ret _ _ | .exitThread _ _ | .getCurrentThread _ =>
    inferInstanceAs (Decidable True)

end Thread

end Libuzi
