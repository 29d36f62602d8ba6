import Libuzi.Bytes
import Libuzi.Effects
import Libuzi.Threads

/-!
# A critical section in an opaque object

`uzi.h` hands out critical sections as a `UZI_CS`, 32 opaque bytes, and `uzi.c` casts a
pointer to one into a pointer to an `RTL_CRITICAL_SECTION`. On LP64 the latter has
40 bytes:

| bytes | field |
|---|---|
| 0 to 7 | `DebugInfo` |
| 8 to 11 | `LockCount` |
| 12 to 15 | `RecursionCount` |
| 16 to 23 | `OwningThread` |
| 24 to 31 | `LockSemaphore` |
| 32 to 39 | `SpinCount` |

so `SpinCount` lies in whatever the caller has put behind the object. Here the functions
of `critical.c` are run against the bytes of memory. Each is a program that asks for one
access at a time, so that any number of threads may be in any of the functions at once;
between its calls a thread writes what it likes to the memory that is its own.
-/

namespace Libuzi

open Effects Runs Threads

namespace Opaque

/-! ### Accesses -/

/-- The functions of `semaphore.h`. -/
inductive SemaphoreOp
  /-- `sem_init`. -/
  | init
  /-- `sem_wait`. -/
  | wait
  /-- `sem_post`. -/
  | post
  /-- `sem_destroy`. -/
  | destroy
  deriving DecidableEq

/-- What the functions ask the machine for. -/
inductive Access
  /-- Load `n` bytes. -/
  | load (a n : ℕ)
  /-- Store `n` bytes. -/
  | store (a n w : ℕ)
  /-- An interlocked operation: replace the `LONG` at `a` by its value under `f`. -/
  | interlocked (a : ℕ) (f : ℕ → ℕ)
  /-- `malloc(sizeof(winpr_sem_t))`. -/
  | malloc
  /-- `free`. -/
  | free (a : ℕ)
  /-- A call of the semaphore library, on the semaphore at `a`. -/
  | semaphore (op : SemaphoreOp) (a : ℕ)

/-- What the machine answers: the value loaded, or the value that an interlocked
operation has found; the pointer from `malloc`; whether the semaphore library has
succeeded. -/
def Answer : Access → Type
  | .load .. | .interlocked .. | .malloc => ℕ
  | .store .. | .free .. => Unit
  | .semaphore .. => Bool

/-- A program over these accesses. -/
abbrev Code := Prog Access Answer

/-! ### The structure -/

/-- The fields of an `RTL_CRITICAL_SECTION`. -/
inductive Field
  | debugInfo
  | lockCount
  | recursionCount
  | owningThread
  | lockSemaphore
  | spinCount
  deriving DecidableEq

/-- Where a field begins. -/
def Field.offset : Field → ℕ
  | .debugInfo => 0
  | .lockCount => 8
  | .recursionCount => 12
  | .owningThread => 16
  | .lockSemaphore => 24
  | .spinCount => 32

/-- How many bytes it has: pointers and the `ULONG_PTR` eight, a `LONG` four. -/
def Field.size : Field → ℕ
  | .lockCount | .recursionCount => 4
  | _ => 8

/-- Load a field of the section at `p`. -/
def load (p : ℕ) (f : Field) : Code ℕ := Prog.perform (Access.load (p + f.offset) f.size)

/-- Store a field of the section at `p`. -/
def store (p : ℕ) (f : Field) (w : ℕ) : Code Unit :=
  Prog.perform (Access.store (p + f.offset) f.size w)

/-- An interlocked operation on `LockCount`: the value it has found. -/
def interlockedLockCount (p : ℕ) (f : ℕ → ℕ) : Code ℕ :=
  Prog.perform (Access.interlocked (p + Field.lockCount.offset) f)

/-- `malloc(sizeof(winpr_sem_t))`. -/
def malloc : Code ℕ := Prog.perform Access.malloc

/-- `free`. -/
def free (a : ℕ) : Code Unit := Prog.perform (Access.free a)

/-- A call of the semaphore library. -/
def semaphore (op : SemaphoreOp) (a : ℕ) : Code Bool := Prog.perform (Access.semaphore op a)

/-- The value of a `LONG` with these bits. -/
def long (w : ℕ) : ℤ := (BitVec.ofNat 32 w).toInt

/-- The bits of the `LONG` `-1`. -/
def minusOne : ℕ := 2 ^ 32 - 1

/-- `InterlockedCompareExchange(&lpCriticalSection->LockCount, 0, -1)`. -/
def compareExchangeLockCount (p : ℕ) : Code ℕ :=
  interlockedLockCount p fun v => if v = minusOne then 0 else v

/-- `InterlockedIncrement(&lpCriticalSection->LockCount)`. -/
def incrementLockCount (p : ℕ) : Code ℕ := do
  return ((← interlockedLockCount p fun v => v + 1) + 1) % 2 ^ 32

/-- `InterlockedDecrement(&lpCriticalSection->LockCount)`. -/
def decrementLockCount (p : ℕ) : Code ℕ := do
  return ((← interlockedLockCount p fun v => v + minusOne) + minusOne) % 2 ^ 32

/-- `lpCriticalSection->RecursionCount++`. -/
def incrementRecursionCount (p : ℕ) : Code Unit := do
  store p .recursionCount ((← load p .recursionCount) + 1)

/-- `--lpCriticalSection->RecursionCount`. -/
def decrementRecursionCount (p : ℕ) : Code ℕ := do
  let v ← load p .recursionCount
  store p .recursionCount (v + minusOne)
  return (v + minusOne) % 2 ^ 32

/-! ### The functions of `critical.c` -/

/-- `SetCriticalSectionSpinCount`, on a system with this many processors. -/
def setCriticalSectionSpinCount (dwNumberOfProcessors p dwSpinCount : ℕ) : Code ℕ := do
  let dwPreviousSpinCount ← load p .spinCount
  -- don't spin on uniprocessor systems
  store p .spinCount (if dwSpinCount ≠ 0 ∧ dwNumberOfProcessors < 2 then 0 else dwSpinCount)
  return dwPreviousSpinCount % 2 ^ 32

/-- `InitializeCriticalSectionEx`. -/
def initializeCriticalSectionEx (dwNumberOfProcessors p dwSpinCount flags : ℕ) : Code Bool := do
  if flags ≠ 0 then
    return false
  else
    store p .debugInfo 0
    store p .lockCount minusOne
    store p .spinCount 0
    store p .recursionCount 0
    store p .owningThread 0
    let q ← malloc
    store p .lockSemaphore q
    if (← load p .lockSemaphore) = 0 then
      return false
    else
      let ok ← semaphore .init (← load p .lockSemaphore)
      if ok then
        let _ ← setCriticalSectionSpinCount dwNumberOfProcessors p dwSpinCount
        return true
      else
        free (← load p .lockSemaphore)
        return false

/-- The two stores of a thread that has got the lock. -/
def own (self p : ℕ) : Code Unit := do
  store p .recursionCount 1
  store p .owningThread self

/-- `TryEnterCriticalSection`, by a thread with this identity. -/
def tryEnterCriticalSection (self p : ℕ) : Code Bool := do
  if (← compareExchangeLockCount p) = minusOne then
    own self p
    return true
  else if (← load p .owningThread) = self then
    incrementRecursionCount p
    let _ ← incrementLockCount p
    return true
  else
    return false

/-- The loop of `EnterCriticalSection`, `SpinCount` being `n`: whether it has got the
lock. `sched_yield` and `usleep` change no memory. -/
def spin (self p : ℕ) : ℕ → Code Bool
  | 0 => return false
  | n + 1 => do
    if long (← load p .lockCount) < 1 then
      if (← compareExchangeLockCount p) = minusOne then
        own self p
        return true
      else
        spin self p n
    else
      return false

/-- `ULONG SpinCount = lpCriticalSection->SpinCount`. -/
def loadSpinCount (p : ℕ) : Code ℕ := do
  return (← load p .spinCount) % 2 ^ 32

/-- `EnterCriticalSection`, by a thread with this identity. -/
def enterCriticalSection (self p : ℕ) : Code Unit := do
  let spinCount ← loadSpinCount p
  if ← (if spinCount ≠ 0 then tryEnterCriticalSection self p else pure false) then
    return ()
  else if ← spin self p spinCount then
    return ()
  else if (← incrementLockCount p) ≠ 0 then
    if (← load p .owningThread) = self then
      incrementRecursionCount p
    else
      let _ ← semaphore .wait (← load p .lockSemaphore)
      own self p
  else
    own self p

/-- `LeaveCriticalSection`. -/
def leaveCriticalSection (p : ℕ) : Code Unit := do
  if long (← decrementRecursionCount p) < 1 then
    store p .owningThread 0
    if 0 ≤ long (← decrementLockCount p) then
      let _ ← semaphore .post (← load p .lockSemaphore)
  else
    let _ ← decrementLockCount p

/-- `DeleteCriticalSection`. -/
def deleteCriticalSection (p : ℕ) : Code Unit := do
  store p .lockCount minusOne
  store p .spinCount 0
  store p .recursionCount 0
  store p .owningThread 0
  if (← load p .lockSemaphore) ≠ 0 then
    let _ ← semaphore .destroy (← load p .lockSemaphore)
    free (← load p .lockSemaphore)
    store p .lockSemaphore 0

/-! ### The functions of `uzi.c` -/

/-- A call of one of the functions on a `UZI_CS`. -/
inductive Call
  /-- `UziInitCS`. -/
  | uziInitCS (spinCount flags : ℕ)
  /-- `UziEnterCS`. -/
  | uziEnterCS
  /-- `UziTryEnterCS`. -/
  | uziTryEnterCS
  /-- `UziLeaveCS`. -/
  | uziLeaveCS
  /-- `UziDeleteCS`. -/
  | uziDeleteCS
  deriving DecidableEq

/-- **What a call does** to the object at `p`: the cast passes on the pointer. -/
def Call.code (dwNumberOfProcessors self p : ℕ) : Call → Code Unit
  | .uziInitCS spinCount flags => do
    let _ ← initializeCriticalSectionEx dwNumberOfProcessors p
      (if spinCount = 0 then 4000 else spinCount) flags
  | .uziEnterCS => enterCriticalSection self p
  | .uziTryEnterCS => do
    let _ ← tryEnterCriticalSection self p
  | .uziLeaveCS => leaveCriticalSection p
  | .uziDeleteCS => deleteCriticalSection p

end Opaque

end Libuzi
