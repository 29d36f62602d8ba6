import Libuzi.Interlocked
import Libuzi.Monitor

/-!
# A compare-and-swap of 64 bits on a machine without one

Where the compiler has no builtin for it, `InterlockedCompareExchange64` of
`libuzi/interlocked.c` is made of plain loads and stores under a mutex. A machine that has no such
instruction moves 64 bits as two halves, in either order, so each half is an access of its own
(`CompareExchange64.access`). The file has two definitions of the function, which differ in where
the mutex comes from:

| | the mutex |
|---|---|
| Android, and compilers without the builtin | `pthread_mutex_t mutex`, there from the start |
| Windows | `HANDLE mutex = NULL`, made by the first who needs it |

Under a mutex the accesses are one operation on the memory (`CompareExchange64.implements`), so
the first definition is linearizable without further ado (`CompareExchange64.pthread_linearizable`).

On Windows several callers may find no mutex at the same time. Each makes one, one of them is
installed, and the others close theirs (`CompareExchange64.static_mutex_unique`); so they all lock
the same one, unless a mutex could not be made, and then the function goes on without
(`CompareExchange64.static_mutex_linearizable`).
-/

namespace Libuzi

open Runs Threads Linear Monitor

namespace CompareExchange64

/-! ### The function, access by access -/

/-- What the machine moves at a time. -/
inductive Half
  /-- The lower 32 bits. -/
  | low
  /-- The upper ones. -/
  | high
  deriving DecidableEq

/-- The half that is left. -/
def Half.other : Half → Half
  | .low => .high
  | .high => .low

/-- `LONGLONG`, by halves. -/
structure LONGLONG where
  /-- The lower one. -/
  low : BitVec 32
  /-- The upper one. -/
  high : BitVec 32
  deriving DecidableEq

/-- One half. -/
def LONGLONG.half (v : LONGLONG) : Half → BitVec 32
  | .low => v.low
  | .high => v.high

/-- Another value for one half. -/
def LONGLONG.setHalf (v : LONGLONG) (w : BitVec 32) : Half → LONGLONG
  | .low => { v with low := w }
  | .high => { v with high := w }

/-- A call, with its arguments; `ℓ` is where a `LONGLONG` may be. -/
structure Operation (ℓ : Type*) where
  /-- `Destination`. -/
  destination : ℓ
  /-- `Exchange`. -/
  exchange : LONGLONG
  /-- `Comperand`. -/
  comperand : LONGLONG
  deriving DecidableEq

/-- Where a thread stands between taking the mutex and giving it back, with the half that it has
already moved. -/
inductive Pc (ℓ : Type*)
  /-- At `previousValue = *Destination`. -/
  | load (op : Operation ℓ) (moved : Option (Half × BitVec 32))
  /-- At `if (*Destination == Comperand)`. -/
  | compare (op : Operation ℓ) (previousValue : LONGLONG) (moved : Option (Half × BitVec 32))
  /-- At `*Destination = Exchange`. -/
  | store (op : Operation ℓ) (previousValue : LONGLONG) (moved : Option Half)
  deriving DecidableEq

/-- A half and the other one. -/
def join (v w : BitVec 32) : Half → LONGLONG
  | .low => ⟨v, w⟩
  | .high => ⟨w, v⟩

variable {ℓ : Type} [DecidableEq ℓ]

/-- Store one half. -/
def put (m : ℓ → LONGLONG) (a : ℓ) (half : Half) (v : BitVec 32) : ℓ → LONGLONG :=
  Function.update m a ((m a).setHalf v half)

/-- **One access**; which half is moved first is up to the machine. -/
def access : Code Half (Pc ℓ) (ℓ → LONGLONG) LONGLONG
  | h, .load op none, m => some (m, .inl (.load op (some (h, (m op.destination).half h))))
  | _, .load op (some (h, v)), m =>
    some (m, .inl (.compare op (join v ((m op.destination).half h.other) h) none))
  | h, .compare op previousValue none, m =>
    some (m, .inl (.compare op previousValue (some (h, (m op.destination).half h))))
  | _, .compare op previousValue (some (h, v)), m =>
    some (m, if join v ((m op.destination).half h.other) h = op.comperand
      then .inl (.store op previousValue none) else .inr previousValue)
  | h, .store op previousValue none, m =>
    some (put m op.destination h (op.exchange.half h), .inl (.store op previousValue (some h)))
  | _, .store op previousValue (some h), m =>
    some (put m op.destination h.other (op.exchange.half h.other), .inr previousValue)

/-- **What the function is to do**, in one step. -/
def compareExchange (op : Operation ℓ) (m : ℓ → LONGLONG) : (ℓ → LONGLONG) × LONGLONG :=
  let r := interlockedCompareExchange (m op.destination) op.exchange op.comperand
  (Function.update m op.destination r.1, r.2)

/-! ### The function alone -/

theorem join_other (h : Half) (v : LONGLONG) : join (v.half h) (v.half h.other) h = v := by
  cases h <;> rfl

theorem setHalf_other (h : Half) (v w : LONGLONG) :
    (w.setHalf (v.half h) h).setHalf (v.half h.other) h.other = v := by
  cases h <;> rfl

/-- Storing both halves. -/
theorem put_other (m : ℓ → LONGLONG) (a : ℓ) (h : Half) (v : LONGLONG) :
    put (put m a h (v.half h)) a h.other (v.half h.other) = Function.update m a v := by
  rw [put, put, Function.update_self, Function.update_idem, setHalf_other]

/-- **With the mutex the accesses are the operation.** -/
theorem implements : Implements (access (ℓ := ℓ)) (fun op => .load op none) compareExchange Eq := by
  rintro op m _ rfl
  refine .access ⟨.low, rfl⟩ fun h _ _ hx => ?_
  cases hx
  have : Nonempty Half := ⟨.low⟩
  refine .of_eq (fun _ => rfl) ?_
  rw [join_other]
  refine .access ⟨.low, rfl⟩ fun h' _ _ hx => ?_
  cases hx
  refine .of_eq (fun _ => rfl) ?_
  rw [join_other]
  split
  case isTrue hequal =>
    refine .access ⟨.low, rfl⟩ fun h'' _ _ hx => ?_
    cases hx
    refine .of_eq (fun _ => rfl) (.done ⟨rfl, ?_⟩)
    rw [put_other, compareExchange, interlockedCompareExchange, if_pos hequal]
  case isFalse hequal =>
    refine .done ⟨rfl, ?_⟩
    rw [compareExchange, interlockedCompareExchange, if_neg hequal, Function.update_eq_self]

/-! ### With a mutex that is there -/

/-- What the threads share. -/
structure PthreadShared (ι ℓ : Type*) where
  /-- Who has `mutex`. -/
  mutex : Option ι
  /-- The memory, and the calls and returns so far. -/
  object : Object (ℓ → LONGLONG) (Operation ℓ) LONGLONG

/-- Where a thread stands. -/
inductive PthreadLocal (ℓ : Type*)
  /-- Outside. -/
  | idle
  /-- At `pthread_mutex_lock`. -/
  | lock (start : ℕ) (op : Operation ℓ)
  /-- Behind it. -/
  | working (start : ℕ) (op : Operation ℓ) (pc : Pc ℓ)
  /-- At `pthread_mutex_unlock`. -/
  | unlock (start : ℕ) (previousValue : LONGLONG)
  /-- At the `return`. -/
  | returning (start : ℕ) (previousValue : LONGLONG)
  deriving DecidableEq

/-- What a thread does next. -/
inductive PthreadChoice (ℓ : Type*)
  /-- Call the function. -/
  | call (op : Operation ℓ)
  /-- Go on with it, moving this half if both are left. -/
  | go (half : Half)

variable {ι : Type*}

/-- **One step of thread `i`**, with `pthread_mutex_t mutex`. -/
def pthreadNext (i : ι) (x : PthreadChoice ℓ) (s : PthreadShared ι ℓ) (l : PthreadLocal ℓ) :
    Option (PthreadShared ι ℓ × PthreadLocal ℓ) :=
  match l, x with
  | .idle, .call op =>
    some ({ s with object := { s.object with history := s.object.history ++ [.call op] } },
      .lock s.object.history.length op)
  | .lock k op, .go _ =>
    if s.mutex.isNone then some ({ s with mutex := some i }, .working k op (.load op none))
    else none
  | .working k op pc, .go h =>
    match access h pc s.object.state with
    | none => none
    | some (m, .inl pc') =>
      some ({ s with object := { s.object with state := m } }, .working k op pc')
    | some (m, .inr r) => some ({ s with object := { s.object with state := m } }, .unlock k r)
  | .unlock k r, .go _ => some ({ s with mutex := none }, .returning k r)
  | .returning k r, .go _ =>
    some ({ s with object := { s.object with history := s.object.history ++ [.ret k r] } }, .idle)
  | _, _ => none

/-- The memory `m`, and every thread outside. -/
def pthreadStart (ι : Type*) (m : ℓ → LONGLONG) :
    Config ι (PthreadShared ι ℓ) (PthreadLocal ℓ) where
  shared := { mutex := none, object := { state := m, history := [] } }
  locals := fun _ => .idle

/-- The stage of a call that a thread is at. -/
def PthreadLocal.stage : PthreadLocal ℓ → Stage (Operation ℓ) LONGLONG (Pc ℓ)
  | .idle => .idle
  | .lock k op => .waiting k op
  | .working k op pc => .inside k op pc
  | .unlock k r | .returning k r => .done k r

/-- The thread has the mutex. -/
def PthreadLocal.Locks : PthreadLocal ℓ → Prop
  | .working _ _ _ | .unlock _ _ => True
  | _ => False

section Pthread

variable {i : ι} {x : PthreadChoice ℓ} {s s' : PthreadShared ι ℓ} {l l' : PthreadLocal ℓ}

/-- **What a step is** to the memory and the history. -/
theorem move_of_pthreadNext (h : pthreadNext i x s l = some (s', l')) :
    Move access (fun op => .load op none) s.object l.stage s'.object l'.stage := by
  unfold pthreadNext at h
  split at h
  case h_1 op =>
    cases h
    exact .call s.object op
  case h_2 k op half =>
    split at h
    case isTrue =>
      cases h
      exact .enter s.object k op
    case isFalse => cases h
  case h_3 k op pc half =>
    split at h
    case h_1 => cases h
    case h_2 hacc =>
      cases h
      exact .access s.object k op hacc
    case h_3 hacc =>
      cases h
      exact .last s.object k op hacc
  case h_4 k r half =>
    cases h
    exact .other s.object (.done k r)
  case h_5 k r half =>
    cases h
    exact .ret s.object k r
  case h_6 => cases h

/-- **What a step is to the mutex**: it is taken when it is free, or given back, or the step does
not concern it. -/
theorem mutex_of_pthreadNext (h : pthreadNext i x s l = some (s', l')) :
    (¬l.Locks ∧ l'.Locks ∧ s.mutex = none ∧ s'.mutex = some i) ∨
      (l.Locks ∧ ¬l'.Locks ∧ s'.mutex = none) ∨ ((l'.Locks ↔ l.Locks) ∧ s'.mutex = s.mutex) := by
  unfold pthreadNext at h
  split at h
  case h_1 op =>
    cases h
    exact .inr (.inr ⟨Iff.rfl, rfl⟩)
  case h_2 k op half =>
    split at h
    case isTrue hfree =>
      cases h
      exact .inl ⟨id, trivial, Option.isNone_iff_eq_none.mp hfree, rfl⟩
    case isFalse => cases h
  case h_3 k op pc half =>
    split at h
    case h_1 => cases h
    case h_2 | h_3 =>
      cases h
      exact .inr (.inr ⟨Iff.rfl, rfl⟩)
  case h_4 k r half =>
    cases h
    exact .inr (.inl ⟨trivial, id, rfl⟩)
  case h_5 k r half =>
    cases h
    exact .inr (.inr ⟨Iff.rfl, rfl⟩)
  case h_6 => cases h

variable [DecidableEq ι] {c : Config ι (PthreadShared ι ℓ) (PthreadLocal ℓ)} {m : ℓ → LONGLONG}

/-- **The mutex has one owner.** -/
theorem mutex_of_reaches (h : Reaches (threadStep pthreadNext) (pthreadStart ι m) c) :
    ∀ j, (c.locals j).Locks ↔ c.shared.mutex = some j := by
  refine invariant (P := fun c => ∀ j, (c.locals j).Locks ↔ c.shared.mutex = some j) h
    (fun j => iff_of_false id nofun) fun d i x s l hd _ hn => ?_
  refine Config.forall_move (P := fun j (l : PthreadLocal ℓ) => l.Locks ↔ s.mutex = some j) ?_
    fun j hj => ?_
  · rcases mutex_of_pthreadNext hn with ⟨-, hl, -, hs⟩ | ⟨-, hl, hs⟩ | ⟨hl, hs⟩
    · exact iff_of_true hl hs
    · exact iff_of_false hl (by rw [hs]; nofun)
    · rw [hl, hs, hd]
  · rcases mutex_of_pthreadNext hn with ⟨-, -, hfree, hs⟩ | ⟨hi, -, hs⟩ | ⟨-, hs⟩
    · rw [hd, hfree, hs]
      exact iff_of_false nofun fun h => hj (Option.some.inj h).symm
    · rw [hd, (hd i).mp hi, hs]
      exact iff_of_false (fun h => hj (Option.some.inj h).symm) nofun
    · rw [hd, hs]

/-- **With a mutex that is there the function is linearizable**: however many threads call it, on
whatever addresses, and in whatever order the halves are moved, the calls are compare-and-swaps of
64 bits, one after the other. -/
theorem pthread_linearizable (h : Reaches (threadStep pthreadNext) (pthreadStart ι m) c) :
    Sound access compareExchange Eq m c.shared.object fun i => (c.locals i).stage := by
  refine linearizable implements h rfl rfl (fun _ => rfl) ?_ fun d i a s l _ hn =>
    move_of_pthreadNext hn
  intro d hd i j hi hj
  have hlocks : ∀ i, (d.locals i).stage.Inside → d.shared.mutex = some i := by
    intro i hi
    refine (mutex_of_reaches hd i).mp ?_
    cases hl : d.locals i <;> rw [hl] at hi
    case working => trivial
    all_goals exact hi.elim
  exact Option.some.inj ((hlocks i hi).symm.trans (hlocks j hj))

end Pthread

/-- `1` where there was `0`, at the one place there is. -/
def zeroToOne : Operation Unit := ⟨(), ⟨1, 0⟩, ⟨0, 0⟩⟩

/-- Thread `0` is at the second half of its load when thread `1` calls too. -/
def waitForMutex : List (Fin 2 × PthreadChoice Unit) :=
  [[(0, .call zeroToOne), (0, .go .high), (0, .go .high), (1, .call zeroToOne)],
    List.replicate 7 (0, .go .high), List.replicate 7 (1, .go .low)].flatten

theorem pthread_linearizable_waitForMutex :
    ∃ c, run (threadStep pthreadNext) (pthreadStart (Fin 2) fun _ => ⟨0, 0⟩) waitForMutex = some c ∧
      c.shared.object.history = [.call zeroToOne, .call zeroToOne, .ret 0 ⟨0, 0⟩,
        .ret 1 ⟨1, 0⟩] ∧
      Sound access compareExchange Eq (fun _ => ⟨0, 0⟩) c.shared.object
        fun i => (c.locals i).stage := by
  have hrun : run (threadStep pthreadNext) (pthreadStart (Fin 2) fun _ => ⟨0, 0⟩) waitForMutex =
      some _ := run_eq_final (by decide +kernel)
  exact ⟨_, hrun, by decide +kernel, pthread_linearizable (reaches_of_run waitForMutex hrun)⟩

/-! ### With a mutex that is made on the way -/

/-- A mutex object, which is free or has an owner. -/
abbrev Mutex (ι : Type*) := Option ι

/-- What the threads share. -/
structure Shared (ι ℓ : Type*) where
  /-- `mutex`: a handle, or `NULL`. -/
  mutex : Option ℕ
  /-- The mutex objects, by their handles. -/
  handles : ℕ → Option (Mutex ι)
  /-- The memory, and the calls and returns so far. -/
  object : Object (ℓ → LONGLONG) (Operation ℓ) LONGLONG

/-- Where a thread stands. -/
inductive Local (ℓ : Type*)
  /-- Outside. -/
  | idle
  /-- At `if (*static_mutex == NULL)`. -/
  | test (start : ℕ) (op : Operation ℓ)
  /-- At `CreateMutex`. -/
  | create (start : ℕ) (op : Operation ℓ)
  /-- At `InterlockedCompareExchangePointer`, with a handle of its own. -/
  | install (start : ℕ) (op : Operation ℓ) (handle : ℕ)
  /-- At `CloseHandle`. -/
  | close (start : ℕ) (op : Operation ℓ) (handle : ℕ)
  /-- At the load of `*static_mutex`. -/
  | read (start : ℕ) (op : Operation ℓ)
  /-- At `WaitForSingleObject`. -/
  | wait (start : ℕ) (op : Operation ℓ) (handle : Option ℕ)
  /-- Behind `static_mutex_lock`, which has returned `locked`. -/
  | working (start : ℕ) (op : Operation ℓ) (pc : Pc ℓ) (locked : Bool)
  /-- At `ReleaseMutex`. -/
  | release (start : ℕ) (previousValue : LONGLONG)
  /-- At the `return`. -/
  | returning (start : ℕ) (previousValue : LONGLONG)
  deriving DecidableEq

/-- What a thread does next. -/
inductive Choice (ℓ : Type*)
  /-- Call the function. -/
  | call (op : Operation ℓ)
  /-- Go on with it, moving this half if both are left. -/
  | go (half : Half)
  /-- Return from `CreateMutex` with this handle, or with `NULL`. -/
  | created (handle : Option ℕ)
  deriving DecidableEq

variable [DecidableEq ι]

/-- `ReleaseMutex`, which thread `i` calls: it fails unless the thread is the owner. -/
def releaseMutex (i : ι) (handles : ℕ → Option (Mutex ι)) : Option ℕ → ℕ → Option (Mutex ι)
  | none => handles
  | some h =>
    if handles h = some (some i) then Function.update handles h (some none) else handles

/-- **One step of thread `i`**, with `static_mutex_lock`. A handle that `CreateMutex` returns is
not the one of another object; `WaitForSingleObject` waits for the owner of the mutex, and fails if
there is no mutex. -/
def next (i : ι) (x : Choice ℓ) (s : Shared ι ℓ) (l : Local ℓ) : Option (Shared ι ℓ × Local ℓ) :=
  match l, x with
  | .idle, .call op =>
    some ({ s with object := { s.object with history := s.object.history ++ [.call op] } },
      .test s.object.history.length op)
  | .test k op, .go _ => some (s, if s.mutex.isNone then .create k op else .read k op)
  | .create k op, .created none => some (s, .working k op (.load op none) false)
  | .create k op, .created (some h) =>
    if (s.handles h).isNone then
      some ({ s with handles := Function.update s.handles h (some none) }, .install k op h)
    else none
  | .install k op h, .go _ =>
    let r := interlockedCompareExchange s.mutex (some h) none
    some ({ s with mutex := r.1 }, if r.2.isSome then .close k op h else .read k op)
  | .close k op h, .go _ =>
    some ({ s with handles := Function.update s.handles h none }, .read k op)
  | .read k op, .go _ => some (s, .wait k op s.mutex)
  | .wait k op handle, .go _ =>
    match handle.bind fun h => (s.handles h).map fun mutex => (h, mutex) with
    | none => some (s, .working k op (.load op none) false)
    | some (h, none) =>
      some ({ s with handles := Function.update s.handles h (some (some i)) },
        .working k op (.load op none) true)
    | some (_, some _) => none
  | .working k op pc locked, .go h =>
    match access h pc s.object.state with
    | none => none
    | some (m, .inl pc') =>
      some ({ s with object := { s.object with state := m } }, .working k op pc' locked)
    | some (m, .inr r) =>
      some ({ s with object := { s.object with state := m } },
        if locked then .release k r else .returning k r)
  | .release k r, .go _ =>
    some ({ s with handles := releaseMutex i s.handles s.mutex }, .returning k r)
  | .returning k r, .go _ =>
    some ({ s with object := { s.object with history := s.object.history ++ [.ret k r] } }, .idle)
  | _, _ => none

/-- The memory `m`, no mutex, and every thread outside. -/
def start (ι : Type*) (m : ℓ → LONGLONG) : Config ι (Shared ι ℓ) (Local ℓ) where
  shared := { mutex := none, handles := fun _ => none, object := { state := m, history := [] } }
  locals := fun _ => .idle

/-- The stage of a call that a thread is at. -/
def Local.stage : Local ℓ → Stage (Operation ℓ) LONGLONG (Pc ℓ)
  | .idle => .idle
  | .test k op | .create k op | .install k op _ | .close k op _ | .read k op | .wait k op _ =>
    .waiting k op
  | .working k op pc _ => .inside k op pc
  | .release k r | .returning k r => .done k r

/-- **What a step of thread `i` does**, to what the threads share and to itself. -/
inductive Step (i : ι) (s : Shared ι ℓ) : Local ℓ → Choice ℓ → Shared ι ℓ → Local ℓ → Prop
  | call (op : Operation ℓ) :
      Step i s .idle (.call op)
        { s with object := { s.object with history := s.object.history ++ [.call op] } }
        (.test s.object.history.length op)
  | absent (k : ℕ) (op : Operation ℓ) (half : Half) (h : s.mutex = none) :
      Step i s (.test k op) (.go half) s (.create k op)
  | present (k : ℕ) (op : Operation ℓ) (half : Half) (h : s.mutex.isSome) :
      Step i s (.test k op) (.go half) s (.read k op)
  | fail (k : ℕ) (op : Operation ℓ) :
      Step i s (.create k op) (.created none) s (.working k op (.load op none) false)
  | create (k : ℕ) (op : Operation ℓ) (handle : ℕ) (h : s.handles handle = none) :
      Step i s (.create k op) (.created (some handle))
        { s with handles := Function.update s.handles handle (some none) } (.install k op handle)
  | install (k : ℕ) (op : Operation ℓ) (handle : ℕ) (half : Half) (h : s.mutex = none) :
      Step i s (.install k op handle) (.go half) { s with mutex := some handle } (.read k op)
  | late (k : ℕ) (op : Operation ℓ) (handle : ℕ) (half : Half) (h : s.mutex.isSome) :
      Step i s (.install k op handle) (.go half) s (.close k op handle)
  | close (k : ℕ) (op : Operation ℓ) (handle : ℕ) (half : Half) :
      Step i s (.close k op handle) (.go half)
        { s with handles := Function.update s.handles handle none } (.read k op)
  | read (k : ℕ) (op : Operation ℓ) (half : Half) :
      Step i s (.read k op) (.go half) s (.wait k op s.mutex)
  | lock (k : ℕ) (op : Operation ℓ) (handle : ℕ) (half : Half)
      (h : s.handles handle = some none) :
      Step i s (.wait k op (some handle)) (.go half)
        { s with handles := Function.update s.handles handle (some (some i)) }
        (.working k op (.load op none) true)
  | waitFails (k : ℕ) (op : Operation ℓ) (handle : Option ℕ) (half : Half)
      (h : handle.bind s.handles = none) :
      Step i s (.wait k op handle) (.go half) s (.working k op (.load op none) false)
  | access (k : ℕ) (op : Operation ℓ) (pc pc' : Pc ℓ) (locked : Bool) (half : Half)
      (m : ℓ → LONGLONG) (h : access half pc s.object.state = some (m, .inl pc')) :
      Step i s (.working k op pc locked) (.go half)
        { s with object := { s.object with state := m } } (.working k op pc' locked)
  | last (k : ℕ) (op : Operation ℓ) (pc : Pc ℓ) (locked : Bool) (half : Half)
      (m : ℓ → LONGLONG) (r : LONGLONG)
      (h : CompareExchange64.access half pc s.object.state = some (m, .inr r)) :
      Step i s (.working k op pc locked) (.go half)
        { s with object := { s.object with state := m } }
        (if locked then .release k r else .returning k r)
  | release (k : ℕ) (r : LONGLONG) (half : Half) :
      Step i s (.release k r) (.go half)
        { s with handles := releaseMutex i s.handles s.mutex } (.returning k r)
  | ret (k : ℕ) (r : LONGLONG) (half : Half) :
      Step i s (.returning k r) (.go half)
        { s with object := { s.object with history := s.object.history ++ [.ret k r] } } .idle

section Static

variable {i : ι} {x : Choice ℓ} {s s' : Shared ι ℓ} {l l₀ l' : Local ℓ}

/-- **Every step is one of these.** -/
theorem step_of_next (h : next i x s l = some (s', l')) : Step i s l x s' l' := by
  unfold next at h
  split at h
  case h_1 op =>
    cases h
    exact .call op
  case h_2 k op half =>
    cases h
    cases hmutex : s.mutex with
    | none => exact .absent k op half hmutex
    | some handle => exact .present k op half (by rw [hmutex]; rfl)
  case h_3 k op =>
    cases h
    exact .fail k op
  case h_4 k op handle =>
    split at h
    case isTrue hnew =>
      cases h
      exact .create k op handle (Option.isNone_iff_eq_none.mp hnew)
    case isFalse => cases h
  case h_5 k op handle half =>
    cases h
    cases hmutex : s.mutex with
    | none => exact .install k op handle half hmutex
    | some other =>
      have hs : { s with mutex := some other } = s := by rw [← hmutex]
      rw [show (interlockedCompareExchange (some other) (some handle) none).1 = some other from rfl,
        hs]
      exact .late k op handle half (by rw [hmutex]; rfl)
  case h_6 k op handle half =>
    cases h
    exact .close k op handle half
  case h_7 k op half =>
    cases h
    exact .read k op half
  case h_8 k op handle half =>
    split at h
    case h_1 hnone =>
      cases h
      refine .waitFails k op handle half ?_
      cases handle with
      | none => rfl
      | some handle => exact Option.map_eq_none_iff.mp hnone
    case h_2 handle' hfree =>
      cases h
      obtain ⟨handle'', rfl, hmap⟩ := Option.bind_eq_some_iff.mp hfree
      obtain ⟨mutex, hmutex, hpair⟩ := Option.map_eq_some_iff.mp hmap
      obtain ⟨rfl, rfl⟩ := Prod.mk.inj hpair
      exact .lock k op handle'' half hmutex
    case h_3 => cases h
  case h_9 k op pc locked half =>
    split at h
    case h_1 => cases h
    case h_2 hacc =>
      cases h
      exact .access k op pc _ locked half _ hacc
    case h_3 hacc =>
      cases h
      exact .last k op pc locked half _ _ hacc
  case h_10 k r half =>
    cases h
    exact .release k r half
  case h_11 k r half =>
    cases h
    exact .ret k r half
  case h_12 => cases h

/-- **What a step is** to the memory and the history. -/
theorem move_of_step (h : Step i s l x s' l') :
    Move CompareExchange64.access (fun op => .load op none) s.object l.stage s'.object
      l'.stage := by
  cases h
  case call op => exact .call s.object op
  case fail k op => exact .enter s.object k op
  case lock k op handle half hfree => exact .enter s.object k op
  case waitFails k op handle half hnone => exact .enter s.object k op
  case access k op pc pc' locked half m hacc => exact .access s.object k op hacc
  case last k op pc locked half m r hacc =>
    have hstage : (if locked then .release k r else .returning k r : Local ℓ).stage =
        .done k r := by cases locked <;> rfl
    rw [hstage]
    exact .last s.object k op hacc
  case ret k r half => exact .ret s.object k r
  -- the other steps are before the first access, or behind the last
  all_goals exact .other s.object _

/-! ### One mutex for all -/

/-- The handle that the thread has made, and neither installed nor closed. -/
def Local.made : Local ℓ → Option ℕ
  | .install _ _ h | .close _ _ h => some h
  | _ => none

/-- The thread has locked the mutex. -/
def Local.Locks : Local ℓ → Prop
  | .working _ _ _ true | .release _ _ => True
  | _ => False

/-- What the thread takes for granted of `mutex`. -/
def Local.Expects (mutex : Option ℕ) : Local ℓ → Prop
  | .close _ _ _ | .read _ _ => mutex.isSome
  | .wait _ _ handle => mutex.isSome ∧ handle = mutex
  | _ => True

omit [DecidableEq ℓ] in
/-- A thread that goes without a handle goes with any. -/
theorem Local.Expects.of_none {l : Local ℓ} (h : l.Expects none) (mutex : Option ℕ) :
    l.Expects mutex := by
  cases l with
  | close | read => cases h
  | wait => cases h.1
  | idle | test | create | install | working | release | returning => trivial

/-- **What a thread knows** of the mutexes. -/
structure Place (i : ι) (s : Shared ι ℓ) (l : Local ℓ) : Prop where
  /-- Its own handle is of a free mutex, and not installed. -/
  made : ∀ h, l.made = some h → s.handles h = some none ∧ s.mutex ≠ some h
  /-- A handle is installed where it takes this for granted. -/
  expects : l.Expects s.mutex
  /-- It owns the installed mutex if it has locked it. -/
  owner : l.Locks ↔ ∃ h, s.mutex = some h ∧ s.handles h = some (some i)

/-- **The invariant of the mutexes.** -/
structure Inv (c : Config ι (Shared ι ℓ) (Local ℓ)) : Prop where
  /-- What each thread knows. -/
  place : ∀ i, Place i c.shared (c.locals i)
  /-- No two threads have made the same handle. -/
  once : ∀ i j h, (c.locals i).made = some h → (c.locals j).made = some h → i = j
  /-- There is a mutex for the installed handle. -/
  installed : ∀ h, c.shared.mutex = some h → (c.shared.handles h).isSome
  /-- Every mutex is installed, or somebody's own. -/
  all : ∀ h, (c.shared.handles h).isSome → c.shared.mutex = some h ∨
    ∃ i, (c.locals i).made = some h

variable {c : Config ι (Shared ι ℓ) (Local ℓ)} {m : ℓ → LONGLONG} {j : ι}

omit [DecidableEq ℓ] [DecidableEq ι] in
theorem inv_start (m : ℓ → LONGLONG) : Inv (start ι m) where
  place i := ⟨nofun, trivial, iff_of_false id nofun⟩
  once := nofun
  installed := nofun
  all h hh := by cases hh

omit [DecidableEq ℓ] in
/-- **What a step has to keep.** -/
theorem Inv.move (h : Inv c) (hplace : Place i s l)
    (hothers : ∀ j, j ≠ i → Place j c.shared (c.locals j) → Place j s (c.locals j))
    (honce : ∀ j h, j ≠ i → l.made = some h → (c.locals j).made ≠ some h)
    (hinstalled : ∀ h, s.mutex = some h → (s.handles h).isSome)
    (hall : ∀ h, (s.handles h).isSome → s.mutex = some h ∨ l.made = some h ∨
      ∃ j, j ≠ i ∧ (c.locals j).made = some h) : Inv (c.move i s l) where
  place := Config.forall_move hplace fun j hj => hothers j hj (h.place j)
  once a b handle ha hb := by
    rcases eq_or_ne a i with rfl | hai
    · rcases eq_or_ne b a with rfl | hba
      · rfl
      · rw [Config.move_self] at ha
        rw [Config.move_of_ne _ _ _ hba] at hb
        exact absurd hb (honce b handle hba ha)
    · rw [Config.move_of_ne _ _ _ hai] at ha
      rcases eq_or_ne b i with rfl | hbi
      · rw [Config.move_self] at hb
        exact absurd ha (honce a handle hai hb)
      · rw [Config.move_of_ne _ _ _ hbi] at hb
        exact h.once a b handle ha hb
  installed := hinstalled
  all handle hh := by
    rcases hall handle hh with hm | hl | ⟨j, hj, hm⟩
    · exact .inl hm
    · exact .inr ⟨i, by rwa [Config.move_self]⟩
    · exact .inr ⟨j, by rwa [Config.move_of_ne _ _ _ hj]⟩

omit [DecidableEq ℓ] in
/-- A step that leaves the mutexes alone. -/
theorem Inv.quiet (h : Inv c) (hl₀ : c.locals i = l₀) (hmutex : s.mutex = c.shared.mutex)
    (hhandles : s.handles = c.shared.handles) (hmade : l.made = l₀.made)
    (hexpects : l.Expects c.shared.mutex) (hlocks : l.Locks ↔ l₀.Locks) :
    Inv (c.move i s l) := by
  subst hl₀
  have hp := h.place i
  refine h.move ⟨?_, ?_, ?_⟩ (fun j _ hj => ⟨?_, ?_, ?_⟩) ?_ ?_ ?_
  · rw [hmutex, hhandles, hmade]
    exact hp.made
  · rwa [hmutex]
  · rw [hlocks, hmutex, hhandles]
    exact hp.owner
  · rw [hmutex, hhandles]
    exact hj.made
  · rw [hmutex]
    exact hj.expects
  · rw [hmutex, hhandles]
    exact hj.owner
  · intro j handle hji hl hm
    exact hji (h.once j i handle hm (hmade ▸ hl))
  · rw [hmutex, hhandles]
    exact h.installed
  · rw [hmutex, hhandles]
    intro handle hh
    rcases h.all handle hh with hm | ⟨j, hj⟩
    · exact .inl hm
    · rcases eq_or_ne j i with rfl | hji
      · exact .inr (.inl (hmade.trans hj))
      · exact .inr (.inr ⟨j, hji, hj⟩)

omit [DecidableEq ℓ] [DecidableEq ι] in
/-- The handle that a thread waits for is the installed one, so there is a mutex for it. -/
theorem Inv.bind_ne_none (h : Inv c) {k : ℕ} {op : Operation ℓ} {handle : Option ℕ}
    (hexpects : (Local.wait k op handle).Expects c.shared.mutex) :
    handle.bind c.shared.handles ≠ none := by
  obtain ⟨hsome, rfl⟩ := hexpects
  obtain ⟨installed, hmutex⟩ := Option.isSome_iff_exists.mp hsome
  have hthere := h.installed installed hmutex
  rw [hmutex]
  exact Option.isSome_iff_ne_none.mp hthere

omit [DecidableEq ℓ] [DecidableEq ι] in
/-- A mutex that changes is no concern of a thread that has not made it, unless it is installed and
the thread becomes or ceases to be its owner. -/
theorem Place.update (h : Place j s l) {handle : ℕ} {m : Option (Mutex ι)}
    (hmade : l.made ≠ some handle)
    (howner : s.mutex = some handle → (m = some (some j) ↔ s.handles handle = some (some j))) :
    Place j { s with handles := Function.update s.handles handle m } l where
  made own hown := by
    have hne : own ≠ handle := by
      rintro rfl
      exact hmade hown
    exact ⟨(Function.update_of_ne hne ..).trans (h.made own hown).1, (h.made own hown).2⟩
  expects := h.expects
  owner := by
    rw [h.owner]
    refine exists_congr fun installed => and_congr_right fun hmutex => ?_
    dsimp only
    rcases eq_or_ne installed handle with rfl | hne
    · rw [Function.update_self, howner hmutex]
    · rw [Function.update_of_ne hne]

omit [DecidableEq ℓ] in
/-- A mutex is made. -/
theorem Inv.create (h : Inv c) {k : ℕ} {op : Operation ℓ} {handle : ℕ}
    (hl₀ : c.locals i = .create k op) (hnew : c.shared.handles handle = none) :
    Inv (c.move i { c.shared with
      handles := Function.update c.shared.handles handle (some none) } (.install k op handle)) := by
  have hnot : c.shared.mutex ≠ some handle := by
    intro hmutex
    have hthere := h.installed handle hmutex
    rw [hnew] at hthere
    cases hthere
  have hown : ∀ j, (c.locals j).made ≠ some handle := by
    intro j hj
    rw [((h.place j).made handle hj).1] at hnew
    cases hnew
  have hp : Place i c.shared (.create k op) := hl₀ ▸ h.place i
  refine h.move ⟨fun own hmade => ?_, trivial, (hp.update nofun (absurd · hnot)).owner⟩
    (fun j _ hj => hj.update (hown j) (absurd · hnot)) (fun j own _ hmade => ?_)
    (fun own hmutex => ?_) fun own hthere => ?_
  · obtain rfl := Option.some.inj hmade
    exact ⟨Function.update_self .., hnot⟩
  · obtain rfl := Option.some.inj hmade
    exact hown j
  · have hne : own ≠ handle := by
      rintro rfl
      exact hnot hmutex
    dsimp only
    rw [Function.update_of_ne hne]
    exact h.installed own hmutex
  · rcases eq_or_ne own handle with rfl | hne
    · exact .inr (.inl rfl)
    · dsimp only at hthere
      rw [Function.update_of_ne hne] at hthere
      rcases h.all own hthere with hmutex | ⟨j, hj⟩
      · exact .inl hmutex
      · refine .inr (.inr ⟨j, ?_, hj⟩)
        rintro rfl
        rw [hl₀] at hj
        cases hj

omit [DecidableEq ℓ] in
/-- The first handle is installed. -/
theorem Inv.install (h : Inv c) {k : ℕ} {op : Operation ℓ} {handle : ℕ}
    (hl₀ : c.locals i = .install k op handle) (hnone : c.shared.mutex = none) :
    Inv (c.move i { c.shared with mutex := some handle } (.read k op)) := by
  have hmade : (c.locals i).made = some handle := by rw [hl₀]; rfl
  have hfree := ((h.place i).made handle hmade).1
  have hunlocked : ∀ j, ¬(c.locals j).Locks := by
    intro j hj
    obtain ⟨installed, hmutex, -⟩ := (h.place j).owner.mp hj
    rw [hnone] at hmutex
    cases hmutex
  have hnotOwner : ∀ j, ¬∃ installed, some handle = some installed ∧
      c.shared.handles installed = some (some j) := by
    rintro j ⟨installed, hsame, howner⟩
    obtain rfl := Option.some.inj hsame
    rw [hfree] at howner
    cases howner
  refine h.move ⟨nofun, rfl, iff_of_false id (hnotOwner i)⟩
    (fun j hj hp => ⟨fun own hown => ⟨(hp.made own hown).1, ?_⟩, ?_,
      iff_of_false (hunlocked j) (hnotOwner j)⟩) nofun (fun own hsame => ?_) fun own hthere => ?_
  · -- no other thread has made it
    intro hsame
    obtain rfl := Option.some.inj hsame
    exact hj (h.once j i handle hown hmade)
  · exact (hnone ▸ hp.expects : Local.Expects none _).of_none _
  · obtain rfl := Option.some.inj hsame
    rw [hfree]
    rfl
  · rcases h.all own hthere with hmutex | ⟨j, hj⟩
    · rw [hnone] at hmutex
      cases hmutex
    · rcases eq_or_ne j i with rfl | hji
      · exact .inl (hmade.symm.trans hj)
      · exact .inr (.inr ⟨j, hji, hj⟩)

omit [DecidableEq ℓ] in
/-- A handle that came too late is closed. -/
theorem Inv.close (h : Inv c) {k : ℕ} {op : Operation ℓ} {handle : ℕ}
    (hl₀ : c.locals i = .close k op handle) :
    Inv (c.move i { c.shared with handles := Function.update c.shared.handles handle none }
      (.read k op)) := by
  have hmade : (c.locals i).made = some handle := by rw [hl₀]; rfl
  have hp : Place i c.shared (.close k op handle) := hl₀ ▸ h.place i
  obtain ⟨hfree, hnot⟩ := hp.made handle rfl
  have hunlocked : ¬∃ installed, c.shared.mutex = some installed ∧
      Function.update c.shared.handles handle none installed = some (some i) := by
    rintro ⟨installed, hmutex, howner⟩
    have hne : installed ≠ handle := by
      rintro rfl
      exact hnot hmutex
    rw [Function.update_of_ne hne] at howner
    exact hp.owner.mpr ⟨installed, hmutex, howner⟩
  refine h.move ⟨nofun, hp.expects, iff_of_false id hunlocked⟩
    (fun j hj hp => hp.update (fun hown => hj (h.once j i handle hown hmade)) (absurd · hnot))
    nofun (fun own hmutex => ?_) fun own hthere => ?_
  · have hne : own ≠ handle := by
      rintro rfl
      exact hnot hmutex
    dsimp only
    rw [Function.update_of_ne hne]
    exact h.installed own hmutex
  · have hne : own ≠ handle := by
      rintro rfl
      dsimp only at hthere
      rw [Function.update_self] at hthere
      cases hthere
    dsimp only at hthere
    rw [Function.update_of_ne hne] at hthere
    rcases h.all own hthere with hmutex | ⟨j, hj⟩
    · exact .inl hmutex
    · refine .inr (.inr ⟨j, ?_, hj⟩)
      rintro rfl
      exact hne (Option.some.inj (hj.symm.trans hmade))

omit [DecidableEq ℓ] in
/-- The installed mutex gets another owner, or none. -/
theorem Inv.transfer (h : Inv c) (hl₀ : c.locals i = l₀) {handle : ℕ} {owner : Mutex ι}
    (hmutex : c.shared.mutex = some handle) (hmade₀ : l₀.made = none) (hmade : l.made = none)
    (hexpects : l.Expects c.shared.mutex) (hlocks : l.Locks ↔ owner = some i)
    (hbefore : ∀ j, j ≠ i → c.shared.handles handle ≠ some (some j))
    (hafter : ∀ j, j ≠ i → owner ≠ some j) :
    Inv (c.move i { c.shared with
      handles := Function.update c.shared.handles handle (some owner) } l) := by
  have hown : ∀ j, (c.locals j).made ≠ some handle := fun j hj =>
    ((h.place j).made handle hj).2 hmutex
  refine h.move ⟨fun own hl => ?_, hexpects, ?_⟩
    (fun j hj hp => hp.update (hown j) fun _ => iff_of_false
      (fun he => hafter j hj (Option.some.inj he)) (hbefore j hj))
    (fun j own _ hl => ?_) (fun own hown => ?_) fun own hthere => ?_
  · rw [hmade] at hl
    cases hl
  · rw [hlocks]
    constructor
    · rintro rfl
      exact ⟨handle, hmutex, Function.update_self ..⟩
    · rintro ⟨installed, hinstalled, howner⟩
      obtain rfl := Option.some.inj (hmutex.symm.trans hinstalled)
      dsimp only at howner
      rw [Function.update_self] at howner
      exact Option.some.inj howner
  · rw [hmade] at hl
    cases hl
  · obtain rfl := Option.some.inj (hmutex.symm.trans hown)
    dsimp only
    rw [Function.update_self]
    rfl
  · rcases eq_or_ne own handle with rfl | hne
    · exact .inl hmutex
    · dsimp only at hthere
      rw [Function.update_of_ne hne] at hthere
      rcases h.all own hthere with hm | ⟨j, hj⟩
      · exact .inl hm
      · refine .inr (.inr ⟨j, ?_, hj⟩)
        rintro rfl
        rw [hl₀, hmade₀] at hj
        cases hj

/-- **Every step keeps the invariant.** -/
theorem Inv.step (h : Inv c) (hl₀ : c.locals i = l₀) (hs : Step i c.shared l₀ x s l) :
    Inv (c.move i s l) := by
  have hp : Place i c.shared l₀ := hl₀ ▸ h.place i
  cases hs
  case create k op handle hnew => exact h.create hl₀ hnew
  case install k op handle half hnone => exact h.install hl₀ hnone
  case close k op handle half => exact h.close hl₀
  case lock k op handle half hfree =>
    refine h.transfer hl₀ hp.expects.2.symm rfl rfl trivial (iff_of_true trivial rfl)
      (fun j _ he => ?_) fun j hj he => hj (Option.some.inj he).symm
    rw [hfree] at he
    cases he
  case release k r half =>
    obtain ⟨handle, hmutex, howned⟩ := hp.owner.mp trivial
    have hreleased : releaseMutex i c.shared.handles c.shared.mutex =
        Function.update c.shared.handles handle (some none) := by
      rw [hmutex, releaseMutex, if_pos howned]
    rw [hreleased]
    refine h.transfer hl₀ hmutex rfl rfl trivial (iff_of_false id nofun) (fun j hj he => ?_)
      fun _ _ => nofun
    exact hj (Option.some.inj (Option.some.inj (howned.symm.trans he))).symm
  case waitFails k op handle half hnone =>
    exact absurd hnone (h.bind_ne_none hp.expects)
  case present k op half hsome => exact h.quiet hl₀ rfl rfl rfl hsome Iff.rfl
  case late k op handle half hsome => exact h.quiet hl₀ rfl rfl rfl hsome Iff.rfl
  case read k op half => exact h.quiet hl₀ rfl rfl rfl ⟨hp.expects, rfl⟩ Iff.rfl
  case access k op pc pc' locked half m hacc =>
    refine h.quiet hl₀ rfl rfl rfl trivial ?_
    cases locked <;> exact Iff.rfl
  case last k op pc locked half m r hacc =>
    cases locked <;> exact h.quiet hl₀ rfl rfl rfl trivial Iff.rfl
  -- the other steps have nothing to do with the mutexes
  all_goals exact h.quiet hl₀ rfl rfl rfl trivial Iff.rfl

/-- The invariant holds in every state of every interleaving. -/
theorem inv_of_reaches {ok : Config ι (Shared ι ℓ) (Local ℓ) → ι × Choice ℓ → Prop}
    (h : ReachesIf (threadStep next) ok (start ι m) c) : Inv c :=
  invariant h (inv_start m) fun _ _ _ _ _ hd _ hn => hd.step rfl (step_of_next hn)

omit [DecidableEq ℓ] [DecidableEq ι] in
/-- At most one thread has locked the mutex. -/
theorem Inv.locks_unique (h : Inv c) (hi : (c.locals i).Locks) (hj : (c.locals j).Locks) :
    i = j := by
  obtain ⟨handle, hmutex, howner⟩ := (h.place i).owner.mp hi
  obtain ⟨handle', hmutex', howner'⟩ := (h.place j).owner.mp hj
  obtain rfl : handle = handle' := Option.some.inj (hmutex.symm.trans hmutex')
  exact Option.some.inj (Option.some.inj (howner.symm.trans howner'))

/-- A handle that is installed stays so. -/
theorem mutex_of_step {handle : ℕ} (hs : Step i s l₀ x s' l) (h : s.mutex = some handle) :
    s'.mutex = some handle := by
  cases hs
  case install k op handle' half hnone =>
    rw [hnone] at h
    cases h
  all_goals exact h

/-- **One mutex for all.** In every interleaving of calls, whether or not `CreateMutex` fails: the
mutexes there are, are the one that is installed, and those that a thread is about to install or to
close; at most one thread has locked it; and what is installed is never replaced. -/
theorem static_mutex_unique (h : Reaches (threadStep next) (start ι m) c) :
    (∀ handle, (c.shared.handles handle).isSome ↔
        c.shared.mutex = some handle ∨ ∃ i, (c.locals i).made = some handle) ∧
      (∀ i j, (c.locals i).Locks → (c.locals j).Locks → i = j) ∧
      ∀ d, Reaches (threadStep next) c d → ∀ handle, c.shared.mutex = some handle →
        d.shared.mutex = some handle := by
  have hinv := inv_of_reaches h
  refine ⟨fun handle => ⟨hinv.all handle, ?_⟩, fun i j => hinv.locks_unique,
    fun d hd handle hmutex => ?_⟩
  · rintro (hmutex | ⟨i, hi⟩)
    · exact hinv.installed handle hmutex
    · rw [((hinv.place i).made handle hi).1]
      rfl
  · refine invariant (P := fun d => d.shared.mutex = some handle) hd hmutex ?_
    exact fun _ _ _ _ _ hold _ hn => mutex_of_step (step_of_next hn) hold

/-- The thread goes on without the mutex. -/
def Local.Unlocked : Local ℓ → Prop
  | .working _ _ _ false => True
  | _ => False

/-- `CreateMutex` does not fail. -/
def Creates (_ : Config ι (Shared ι ℓ) (Local ℓ)) (e : ι × Choice ℓ) : Prop := e.2 ≠ .created none

/-- Where `CreateMutex` does not fail, nobody goes on without the mutex. -/
theorem not_unlocked (h : ReachesIf (threadStep next) Creates (start ι m) c) :
    ∀ j, ¬(c.locals j).Unlocked := by
  refine (invariant (P := fun c => Inv c ∧ ∀ j, ¬(c.locals j).Unlocked) h
    ⟨inv_start m, fun j => id⟩ ?_).2
  rintro d i x s l ⟨hinv, hd⟩ hok hn
  have hs := step_of_next hn
  refine ⟨hinv.step rfl hs, Config.forall_move (P := fun _ (l : Local ℓ) => ¬l.Unlocked) ?_
    fun j _ => hd j⟩
  have hi := hd i
  have hexpects := (hinv.place i).expects
  generalize d.locals i = l₀ at hs hi hexpects
  cases hs
  case fail k op => exact absurd rfl hok
  case waitFails k op handle half hnone =>
    exact absurd hnone (hinv.bind_ne_none hexpects)
  case access k op pc pc' locked half m hacc => cases locked <;> exact hi
  case last k op pc locked half m r hacc => cases locked <;> exact id
  all_goals exact id

/-- **With the mutex that is made on the way the function is linearizable** too, as long as
`CreateMutex` does not fail: however many threads find no mutex, the calls are compare-and-swaps of
64 bits, one after the other. -/
theorem static_mutex_linearizable (h : ReachesIf (threadStep next) Creates (start ι m) c) :
    Sound CompareExchange64.access compareExchange Eq m c.shared.object
      fun i => (c.locals i).stage := by
  refine linearizable implements h rfl rfl (fun _ => rfl) ?_ fun d i a s l _ hn =>
    move_of_step (step_of_next hn)
  intro d hd i j hi hj
  have hlocks : ∀ i, (d.locals i).stage.Inside → (d.locals i).Locks := by
    intro i hi
    have hunlocked := not_unlocked hd i
    cases hl : d.locals i <;> rw [hl] at hi hunlocked
    case working k op pc locked =>
      cases locked
      · exact absurd trivial hunlocked
      · trivial
    all_goals exact hi.elim
  exact (inv_of_reaches hd).locks_unique (hlocks i hi) (hlocks j hj)

end Static

/-- Both threads find no mutex and make one; the one of thread `1` is installed. -/
def makeTwice : List (Fin 2 × Choice Unit) :=
  [[(0, .call zeroToOne), (0, .go .low), (0, .created (some 5)), (1, .call zeroToOne),
      (1, .go .low), (1, .created (some 6)), (1, .go .low), (0, .go .low), (0, .go .low)],
    List.replicate 10 (1, .go .low), List.replicate 8 (0, .go .low)].flatten

theorem static_mutex_unique_makeTwice :
    ∃ c, run (threadStep next) (start (Fin 2) fun _ => ⟨0, 0⟩) makeTwice = some c ∧
      ∀ handle, (c.shared.handles handle).isSome ↔ handle = 6 := by
  have hrun : run (threadStep next) (start (Fin 2) fun _ => ⟨0, 0⟩) makeTwice = some _ :=
    run_eq_final (by decide +kernel)
  refine ⟨_, hrun, fun handle => ?_⟩
  rw [(static_mutex_unique (reaches_of_run makeTwice hrun)).1]
  have hmutex : (final (threadStep next) (start (Fin 2) fun _ => ⟨0, 0⟩) makeTwice).shared.mutex =
      some 6 := by decide +kernel
  have hmade : ∀ i, ((final (threadStep next) (start (Fin 2) fun _ => ⟨0, 0⟩)
      makeTwice).locals i).made = none := by decide +kernel
  rw [hmutex]
  constructor
  · rintro (h | ⟨i, hi⟩)
    · exact (Option.some.inj h).symm
    · rw [hmade] at hi
      cases hi
  · rintro rfl
    exact .inl rfl

theorem static_mutex_linearizable_makeTwice :
    ∃ c, run (threadStep next) (start (Fin 2) fun _ => ⟨0, 0⟩) makeTwice = some c ∧
      c.shared.object.history = [.call zeroToOne, .call zeroToOne, .ret 1 ⟨0, 0⟩,
        .ret 0 ⟨1, 0⟩] ∧
      Sound CompareExchange64.access compareExchange Eq (fun _ => ⟨0, 0⟩) c.shared.object
        fun i => (c.locals i).stage := by
  have hrun : run (threadStep next) (start (Fin 2) fun _ => ⟨0, 0⟩) makeTwice = some _ :=
    run_eq_final (by decide +kernel)
  refine ⟨_, hrun, by decide +kernel, static_mutex_linearizable ?_⟩
  have hcreates : ∀ e ∈ makeTwice, e.2 ≠ .created none := by decide
  exact reachesIf_of_run makeTwice (allMeet_of_forall fun e he _ => hcreates e he) hrun

end CompareExchange64

end Libuzi
