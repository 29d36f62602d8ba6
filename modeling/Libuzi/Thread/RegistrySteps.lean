import Libuzi.Threads
import Libuzi.Lists.ListDictionary

/-!
# The thread registry, step by step

`thread_list` is created by the first `CreateThread` that finds it `NULL`, and freed by the
`CloseHandle` that finds it empty. No lock spans the look at the variable and what is done
then. Here `CreateThread`, `winpr_StartThread`, `ThreadCloseHandle`, `thread_launcher` and
`cleanup_handle` (`libuzi/thread.c`) are taken apart: every read and every write of
`thread_list` is one step, every operation on a dictionary under its lock is one step, and
the pointer that was read is what the operation is applied to, whatever `thread_list` has
become in the meantime.

Any number of threads make such calls. A thread that is started runs `thread_launcher`, and
from its thread function it makes calls of its own. What is allocated gets an address that
nothing has had before, so a dictionary or an object that has been freed stays recognisable;
a step that would use one is no step. The `pthread_t` of a new thread is left to the
environment, and so is which library call fails.

The mutex and the condition by which a new thread waits for its entry are left out. They only
restrict the order of the steps, and a wait on a condition may end at any time; so every run
of the code is a run here.
-/

namespace Libuzi

open Runs Threads

namespace Thread

namespace Lifetime

/-! ### The data -/

/-- A place in memory. -/
inductive Block (α : Type*)
  /-- Nothing has been allocated here. -/
  | unallocated
  /-- It is in use. -/
  | live (a : α)
  /-- It has been freed. -/
  | freed
  deriving DecidableEq

/-- What is there to be read. -/
def Block.value {α : Type*} : Block α → Option α
  | .live a => some a
  | _ => none

theorem value_eq_some {α : Type*} {b : Block α} {a : α} : b.value = some a ↔ b = .live a := by
  cases b <;> simp [Block.value]

/-- The pthread that belongs to an object. -/
inductive PThread
  /-- There is none. -/
  | none
  /-- `pthread_create` has been called. -/
  | created
  /-- It has begun to run `thread_launcher`. -/
  | running
  /-- It has ended. -/
  | ended
  deriving DecidableEq

/-- `WINPR_THREAD`, as far as the registry is concerned. -/
structure Object where
  /-- `started`. -/
  started : Bool
  /-- Whether the event behind `pipe_fd` is set. -/
  signalled : Bool
  /-- `detached`. -/
  detached : Bool
  /-- `joined`. -/
  joined : Bool
  /-- `thread`, the `pthread_t`. -/
  thread : ℕ
  /-- The pthread itself. -/
  pthread : PThread
  deriving DecidableEq

/-- The object as `calloc` gives it. -/
def Object.zero : Object where
  started := false
  signalled := false
  detached := false
  joined := false
  thread := 0
  pthread := .none

/-- `wListDictionary`. -/
structure Dict (ι : Type*) where
  /-- The items. A key is given by the object whose `pthread_t` it points to. -/
  items : List (ℕ × ℕ)
  /-- `objectKey.fnObjectEquals` is `thread_compare`, not the comparison of pointers. -/
  compares : Bool
  /-- The thread that holds the lock between `ListDictionary_Lock` and
  `ListDictionary_Unlock`. -/
  owner : Option ι
  deriving DecidableEq

/-- The dictionary that `ListDictionary_New` returns. -/
def Dict.new {ι : Type*} : Dict ι where
  items := []
  compares := false
  owner := none

/-- What the threads share. -/
structure Shared (ι : Type*) where
  /-- `thread_list`. -/
  threadList : Option ℕ
  /-- The dictionaries, by address. -/
  dicts : ℕ → Block (Dict ι)
  /-- The thread objects, by address. -/
  heap : ℕ → Block Object
  /-- The handles that have been returned, and not given to `CloseHandle`. -/
  isOpen : ℕ → Bool

/-! ### The places of a thread -/

/-- Places in `cleanup_handle`. An operation on a dictionary carries the pointer that was read
for it. -/
inductive CleanupPc
  | test
  | readContains
  | contains (d : Option ℕ)
  | readRemove
  | remove (d : Option ℕ)
  | free
  deriving DecidableEq

/-- Places in `CreateThread` and `winpr_StartThread`. -/
inductive CreatePc
  | test
  | new
  | store (d : Option ℕ)
  | check
  | readInstall
  | install (d : Option ℕ)
  | start
  | pthreadCreate
  | readAdd
  | add (d : Option ℕ)
  | finish
  | fail
  deriving DecidableEq

/-- Places in `ThreadCloseHandle`. At the last one the pointer is the one that
`ListDictionary_Free` was called with. -/
inductive ClosePc
  | test
  | readContains
  | contains (d : Option ℕ)
  | readLock
  | lock (d : Option ℕ)
  | poll
  | join
  | storeDetached
  | detach
  | cleanup (pc : CleanupPc)
  | readUnlock
  | unlock (d : Option ℕ)
  | readCount
  | count (d : Option ℕ)
  | readFree
  | free (d : Option ℕ)
  | storeNull (d : Option ℕ)
  deriving DecidableEq

/-- Places in `thread_launcher`, before and after the thread function. -/
inductive LaunchPc
  | readContains
  | contains (d : Option ℕ)
  | wait
  | readAssert
  | assert (d : Option ℕ)
  | setEvent
  | testDetached
  | cleanup (pc : CleanupPc)
  | finish
  deriving DecidableEq

/-- Where a thread stands. -/
inductive Pc
  /-- In no call: in its thread function, or in whatever else it does. -/
  | idle
  /-- In `CreateThread`, with the object at `h`. -/
  | create (h : ℕ) (suspended : Bool) (pc : CreatePc)
  /-- In `ThreadCloseHandle` on `h`. -/
  | close (h : ℕ) (pc : ClosePc)
  /-- In `thread_launcher`, outside the thread function. -/
  | launch (pc : LaunchPc)
  /-- At its end. -/
  | ended
  deriving DecidableEq

/-- What a thread has to itself. -/
structure Local where
  /-- The argument of `thread_launcher`, if this is a thread that the library started. -/
  self : Option ℕ
  /-- Where it stands. -/
  pc : Pc
  deriving DecidableEq

/-- What the environment chooses for a step. -/
inductive Act
  /-- The next step of a call. -/
  | go
  /-- The next step of a call, in which a library function fails. -/
  | fail
  /-- `ListDictionary_New` returns `d`. -/
  | new (d : ℕ)
  /-- `pthread_create` returns `tid`. -/
  | pthread (tid : ℕ)
  /-- `CreateThread` is called; the object is at `h`. -/
  | create (h : ℕ) (suspended : Bool)
  /-- `CloseHandle` is called. -/
  | close (h : ℕ)
  /-- The thread for `h` begins. -/
  | launch (h : ℕ)
  /-- The thread function returns. -/
  | ret
  deriving DecidableEq

/-! ### Operations on the shared data -/

section Model

variable {ι : Type*}

/-- The object at `h`. -/
def Shared.object (s : Shared ι) (h : ℕ) : Option Object := (s.heap h).value

/-- The `pthread_t` that a key points to. -/
def Shared.idOf (s : Shared ι) (key : ℕ) : Option ℕ := (s.object key).map Object.thread

/-- Store an object, or what is left of it. -/
def Shared.setObject (s : Shared ι) (h : ℕ) (b : Block Object) : Shared ι :=
  { s with heap := Function.update s.heap h b }

/-- Store a dictionary, or what is left of it. -/
def Shared.setDict (s : Shared ι) (d : ℕ) (b : Block (Dict ι)) : Shared ι :=
  { s with dicts := Function.update s.dicts d b }

@[simp] theorem setDict_self (s : Shared ι) (d : ℕ) (b : Block (Dict ι)) :
    (s.setDict d b).dicts d = b := Function.update_self ..

theorem setDict_of_ne {s : Shared ι} {d d' : ℕ} (b : Block (Dict ι)) (h : d' ≠ d) :
    (s.setDict d b).dicts d' = s.dicts d' := Function.update_of_ne h ..

theorem setObject_object {s : Shared ι} (h : ℕ) (b : Block Object) :
    (s.setObject h b).object h = b.value :=
  congrArg Block.value (Function.update_self ..)

theorem setObject_object_of_ne {s : Shared ι} {h h' : ℕ} (b : Block Object) (hne : h' ≠ h) :
    (s.setObject h b).object h' = s.object h' :=
  congrArg Block.value (Function.update_of_ne hne ..)

variable [DecidableEq ι]

/-- The dictionary at `d`, for an operation of the thread `i` that takes its lock. -/
def Shared.enter (s : Shared ι) (i : ι) (d : ℕ) : Option (Dict ι) :=
  (s.dicts d).value.bind fun D => if D.owner = none ∨ D.owner = some i then some D else none

theorem enter_eq_some {s : Shared ι} {i : ι} {d : ℕ} {D : Dict ι} (h : s.enter i d = some D) :
    s.dicts d = .live D := by
  obtain ⟨D', hD', h⟩ := Option.bind_eq_some_iff.mp h
  obtain ⟨-, h⟩ := Option.ite_none_right_eq_some.mp h
  obtain rfl := Option.some.inj h
  exact value_eq_some.mp hD'

/-- The comparison of a dictionary with the key that belongs to the object `o` at `h`. -/
def Shared.keyEquals (s : Shared ι) (D : Dict ι) (h : ℕ) (o : Object) (key : ℕ) : Bool :=
  if D.compares then decide (s.idOf key = some o.thread) else decide (key = h)

/-- `ListDictionary_Contains(d, &thread->thread)`, called by `i`. -/
def Shared.contains (s : Shared ι) (i : ι) (h : ℕ) : Option ℕ → Option Bool
  | none => some false
  | some d =>
    (s.object h).bind fun o => (s.enter i d).map fun D =>
      ListDictionary.contains (s.keyEquals D h o) D.items

/-- `ListDictionary_Remove(d, &thread->thread)`, called by `i`. -/
def Shared.remove (s : Shared ι) (i : ι) (h : ℕ) : Option ℕ → Option (Shared ι)
  | none => some s
  | some d =>
    (s.object h).bind fun o => (s.enter i d).map fun D =>
      s.setDict d (.live { D with items := ListDictionary.remove (s.keyEquals D h o) D.items })

/-! ### The steps of each function -/

/-- A step of `cleanup_handle`. -/
def cleanupStep (i : ι) (s : Shared ι) (h : ℕ) (back : CleanupPc → Pc) (after : Pc) :
    CleanupPc → Option (Shared ι × Pc)
  | .test => some (s, back (if s.threadList = none then .free else .readContains))
  | .readContains => some (s, back (.contains s.threadList))
  | .contains d => (s.contains i h d).map fun b => (s, back (if b then .readRemove else .free))
  | .readRemove => some (s, back (.remove s.threadList))
  | .remove d => (s.remove i h d).map fun s' => (s', back .free)
  | .free => (s.object h).map fun _ => (s.setObject h .freed, after)

/-- A step of `CreateThread`, after the object has been set up. -/
def createStep (i : ι) (s : Shared ι) (h : ℕ) (suspended : Bool) :
    CreatePc → Act → Option (Shared ι × Pc)
  | .test, .go =>
    some (s, .create h suspended (if s.threadList = none then .new else .start))
  | .new, .new d =>
    if s.dicts d = .unallocated then
      some (s.setDict d (.live Dict.new), .create h suspended (.store (some d)))
    else none
  | .new, .fail => some (s, .create h suspended (.store none))
  | .store d, .go => some ({ s with threadList := d }, .create h suspended .check)
  | .check, .go =>
    some (s, .create h suspended (if s.threadList = none then .fail else .readInstall))
  | .readInstall, .go => some (s, .create h suspended (.install s.threadList))
  | .install (some d), .go =>
    (s.dicts d).value.map fun D =>
      (s.setDict d (.live { D with compares := true }), .create h suspended .start)
  | .start, .go =>
    (s.object h).map fun o =>
      if suspended then
        (s.setObject h (.live { o with signalled := true }), .create h suspended .finish)
      else
        (s.setObject h (.live { o with started := true, signalled := false }),
          .create h suspended .pthreadCreate)
  | .start, .fail => if suspended then some (s, .create h suspended .fail) else none
  | .pthreadCreate, .pthread tid =>
    (s.object h).map fun o =>
      (s.setObject h (.live { o with thread := tid, pthread := .created }),
        .create h suspended .readAdd)
  | .pthreadCreate, .fail => some (s, .create h suspended .fail)
  | .readAdd, .go => some (s, .create h suspended (.add s.threadList))
  | .add none, .go => some (s, .create h suspended .fail)
  | .add (some d), .go =>
    (s.enter i d).map fun D =>
      (s.setDict d (.live { D with items := ListDictionary.add D.items h h }),
        .create h suspended .finish)
  | .add (some d), .fail => (s.enter i d).map fun _ => (s, .create h suspended .fail)
  | .finish, .go => some ({ s with isOpen := Function.update s.isOpen h true }, .idle)
  | .fail, .go => (s.object h).map fun _ => (s.setObject h .freed, .idle)
  | _, _ => none

/-- A step of `ThreadCloseHandle`. -/
def closeStep (i : ι) (s : Shared ι) (h : ℕ) : ClosePc → Act → Option (Shared ι × Pc)
  | .test, .go => some (s, if s.threadList = none then .idle else .close h .readContains)
  | .readContains, .go => some (s, .close h (.contains s.threadList))
  | .contains d, .go =>
    (s.contains i h d).map fun b => (s, if b then .close h .readLock else .idle)
  | .readLock, .go => some (s, .close h (.lock s.threadList))
  | .lock none, .go => some (s, .close h .poll)
  | .lock (some d), .go =>
    (s.enter i d).map fun D => (s.setDict d (.live { D with owner := some i }), .close h .poll)
  | .poll, .go =>
    -- `WaitForSingleObject` polls the event, and joins the thread if it is set.
    (s.object h).map fun o =>
      (s, .close h (if !o.started then .cleanup .test
        else if o.signalled then .join else .storeDetached))
  | .join, .go =>
    (s.object h).bind fun o =>
      if o.joined then some (s, .close h (.cleanup .test))
      else if o.pthread = .ended then
        some (s.setObject h (.live { o with joined := true }), .close h (.cleanup .test))
      else none
  | .join, .fail => some (s, .close h .storeDetached)
  | .storeDetached, .go =>
    (s.object h).map fun o =>
      (s.setObject h (.live { o with detached := true }), .close h .detach)
  | .detach, .go => some (s, .close h .readUnlock)
  | .cleanup pc, .go =>
    cleanupStep i s h (fun pc => .close h (.cleanup pc)) (.close h .readUnlock) pc
  | .readUnlock, .go => some (s, .close h (.unlock s.threadList))
  | .unlock none, .go => some (s, .close h .readCount)
  | .unlock (some d), .go =>
    (s.dicts d).value.bind fun D =>
      if D.owner = some i then
        some (s.setDict d (.live { D with owner := none }), .close h .readCount)
      else none
  | .readCount, .go => some (s, .close h (.count s.threadList))
  | .count none, .go => some (s, .close h .readFree)
  | .count (some d), .go =>
    (s.enter i d).map fun D =>
      (s, if ListDictionary.count D.items < 1 then .close h .readFree else .idle)
  | .readFree, .go => some (s, .close h (.free s.threadList))
  | .free none, .go => some (s, .close h (.storeNull none))
  | .free (some d), .go =>
    (s.enter i d).map fun _ => (s.setDict d .freed, .close h (.storeNull (some d)))
  | .storeNull _, .go => some ({ s with threadList := none }, .idle)
  | _, _ => none

/-- A step of `thread_launcher` with the argument `h`. -/
def launchStep (i : ι) (s : Shared ι) (h : ℕ) : LaunchPc → Option (Shared ι × Pc)
  | .readContains => some (s, .launch (.contains s.threadList))
  | .contains d =>
    (s.contains i h d).map fun b => (s, .launch (if b then .readAssert else .wait))
  | .wait => some (s, .launch .readAssert)
  | .readAssert => some (s, .launch (.assert s.threadList))
  | .assert d => (s.contains i h d).bind fun b => if b then some (s, .idle) else none
  | .setEvent =>
    (s.object h).map fun o =>
      (s.setObject h (.live { o with signalled := true }), .launch .testDetached)
  | .testDetached =>
    (s.object h).map fun o =>
      (s, .launch (if o.detached || !o.started then .cleanup .test else .finish))
  | .cleanup pc =>
    cleanupStep i s h (fun pc => .launch (.cleanup pc)) (.launch .finish) pc
  | .finish =>
    match s.object h with
    | none => some (s, .ended)
    | some o => some (s.setObject h (.live { o with pthread := .ended }), .ended)

/-- The beginning of a call, or of a thread. -/
def idleStep (s : Shared ι) (self : Option ℕ) : Act → Option (Shared ι × Local)
  | .create h suspended =>
    if s.heap h = .unallocated then
      some (s.setObject h (.live Object.zero), ⟨self, .create h suspended .test⟩)
    else none
  | .close h =>
    if s.isOpen h then
      some ({ s with isOpen := Function.update s.isOpen h false }, ⟨self, .close h .test⟩)
    else none
  | .launch h =>
    (s.object h).bind fun o =>
      if self = none ∧ o.pthread = .created then
        some (s.setObject h (.live { o with pthread := .running }),
          ⟨some h, .launch .readContains⟩)
      else none
  | .ret => self.map fun h => (s, ⟨some h, .launch .setEvent⟩)
  | _ => none

/-- **One step of a thread.** -/
def next (i : ι) (a : Act) (s : Shared ι) (l : Local) : Option (Shared ι × Local) :=
  match l.pc with
  | .idle => idleStep s l.self a
  | .create h suspended pc =>
    (createStep i s h suspended pc a).map fun r => (r.1, ⟨l.self, r.2⟩)
  | .close h pc => (closeStep i s h pc a).map fun r => (r.1, ⟨l.self, r.2⟩)
  | .launch pc =>
    l.self.bind fun h => if a = .go then
      (launchStep i s h pc).map fun r => (r.1, ⟨l.self, r.2⟩) else none
  | .ended => none

/-- The start: no threads, no registry. -/
def start : Config ι (Shared ι) Local where
  shared :=
    { threadList := none, dicts := fun _ => .unallocated, heap := fun _ => .unallocated
      isOpen := fun _ => false }
  locals := fun _ => ⟨none, .idle⟩

/-- The entries of the dictionary that `thread_list` points to. -/
def Shared.entries (s : Shared ι) : List (ℕ × ℕ) :=
  ((s.threadList.bind fun d => (s.dicts d).value).map Dict.items).getD []

omit [DecidableEq ι] in
theorem entries_of_none {s : Shared ι} (h : s.threadList = none) : s.entries = [] := by
  rw [Shared.entries, h]
  rfl

omit [DecidableEq ι] in
theorem entries_of_live {s : Shared ι} {d : ℕ} {D : Dict ι} (h : s.threadList = some d)
    (hD : s.dicts d = .live D) : s.entries = D.items := by
  rw [Shared.entries, h, Option.bind_some, hD]
  rfl

omit [DecidableEq ι] in
theorem entries_setDict_of_ne {s : Shared ι} {d : ℕ} (b : Block (Dict ι))
    (h : s.threadList ≠ some d) : (s.setDict d b).entries = s.entries := by
  rw [Shared.entries, Shared.entries]
  cases hlist : s.threadList with
  | none => rw [show (s.setDict d b).threadList = none from hlist]; rfl
  | some d' =>
    have hne : d' ≠ d := fun he => h (by rw [hlist, he])
    rw [show (s.setDict d b).threadList = some d' from hlist, Option.bind_some, Option.bind_some,
      setDict_of_ne b hne]

omit [DecidableEq ι] in
theorem entries_congr {s s' : Shared ι} (hlist : s'.threadList = s.threadList)
    (hdicts : s'.dicts = s.dicts) : s'.entries = s.entries := by
  rw [Shared.entries, hlist, hdicts, Shared.entries]

end Model

end Lifetime

end Thread

end Libuzi
