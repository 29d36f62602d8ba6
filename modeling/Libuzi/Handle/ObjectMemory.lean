import Libuzi.Handle.Handle
import Libuzi.Timer.WaitableTimer
import Mathlib.Logic.Function.Basic
import Mathlib.Tactic.Common

/-!
# Handles as memory

A handle is a pointer to an object, and the operations of `event.c`, `semaphore.c`,
`mutex.c`, `timer.c` and `thread.c` cast it to the structure they work on. Some of them
look at the `Type` word first; the others do not, and then read and write the words of
whatever object the handle points to as if it were theirs.

So that this can be followed, an object is here the memory at its address, in words of
32 bits, and a field is a position in it: the structures are laid out as on 64-bit Linux
with glibc, where a `pthread_mutex_t` has ten words, a `pthread_cond_t` twelve and a
`pthread_attr_t` fourteen. The functions are those of the build that Linux gets, with
`eventfd`, `timerfd` and `poll`.

| words | event | semaphore | mutex | timer | thread |
|---|---|---|---|---|---|
| 0, 1 | `Type`, `Mode` | `Type`, `Mode` | `Type`, `Mode` | `Type`, `Mode` | `Type`, `Mode` |
| 2, 3 | `ops` | `ops` | `ops` | `ops` | `ops` |
| 4 | `pipe_fd[0]` | `pipe_fd[0]` | `mutex` | `fd` | `started` |
| 5 | `pipe_fd[1]` | `pipe_fd[1]` | `mutex` | `bInit` | `pipe_fd[0]` |
| 6 | `bAttached` | `sem` | `mutex` | `lPeriod` | `pipe_fd[1]` |
| 7 | `bManualReset` | `sem` | `mutex` | `bManualReset` | `mainProcess` |
| 9 | | | `mutex` | `pfnCompletionRoutine` | `joined` |
| 10 | | | `mutex` | `lpArgToCompletionRoutine` | `exited` |
| 11 | | | `mutex` | `lpArgToCompletionRoutine` | `dwExitCode` |
| 18 to 27 | | | | `timeout`, to 21 | `mutex` |

The functions of the system are given by their answers, which are arguments of a call:
what they return and, for one that is handed the address of a part of the object, what
that part holds afterwards.
-/

namespace Libuzi

open Handle

namespace Foreign

/-! ### Memory -/

/-- A word of memory. -/
abbrev Word := BitVec 32

/-- The memory at the address of an object, word by word. The words beyond the size of the
object belong to something else. -/
abbrev Memory := ℕ → Word

/-- Store a word. -/
def store (m : Memory) (k : ℕ) (w : Word) : Memory := Function.update m k w

/-- Store a double word, the less significant half first. -/
def store64 (m : Memory) (k : ℕ) (w : BitVec 64) : Memory :=
  store (store m k (w.setWidth 32)) (k + 1) ((w >>> 32).setWidth 32)

/-- Load a double word. -/
def load64 (m : Memory) (k : ℕ) : BitVec 64 := m (k + 1) ++ m k

/-- Replace the `n` words from `k` on. -/
def overwrite (m : Memory) (k n : ℕ) (contents : ℕ → Word) : Memory :=
  fun j => if k ≤ j ∧ j < k + n then contents (j - k) else m j

theorem store_of_ne {m : Memory} {k j : ℕ} {w : Word} (h : j ≠ k) : store m k w j = m j := by
  rw [store, Function.update_of_ne h]

@[simp]
theorem store_self (m : Memory) (k : ℕ) (w : Word) : store m k w k = w := by
  rw [store, Function.update_self]

theorem store64_of_lt {m : Memory} {k j : ℕ} {w : BitVec 64} (h : j < k) :
    store64 m k w j = m j := by
  rw [store64, store_of_ne (by omega), store_of_ne (by omega)]

theorem overwrite_of_lt {m : Memory} {k n j : ℕ} {contents : ℕ → Word} (h : j < k) :
    overwrite m k n contents j = m j :=
  if_neg fun hk => by omega

theorem overwrite_add {m : Memory} {k n i : ℕ} {contents : ℕ → Word} (h : i < n) :
    overwrite m k n contents (k + i) = contents i := by
  rw [overwrite, if_pos ⟨by omega, by omega⟩, Nat.add_sub_cancel_left]

/-- Of two replacements of the same words, the second one stands. -/
@[simp]
theorem overwrite_overwrite (m : Memory) (k n : ℕ) (contents contents' : ℕ → Word) :
    overwrite (overwrite m k n contents) k n contents' = overwrite m k n contents' := by
  funext j
  unfold overwrite
  split <;> rfl

/-! ### Objects -/

/-- The values of the `HANDLE_TYPE_…` constants. -/
def code : HandleType → Word
  | .thread => 2
  | .event => 3
  | .mutex => 4
  | .semaphore => 5
  | .timer => 6
  | .timerQueue => 11
  | .timerQueueTimer => 12

/-- The size of the structure of each type, in words. -/
def size : HandleType → ℕ
  | .thread => 54
  | .event => 8
  | .mutex => 14
  | .semaphore => 8
  | .timer => 22
  | .timerQueue => 58
  | .timerQueueTimer => 26

theorem code_injective : Function.Injective code := by
  intro s t h
  cases s <;> cases t <;> first | rfl | exact absurd h (by decide)

theorem eight_le_size (t : HandleType) : 8 ≤ size t := by
  cases t <;> decide

/-- **An object** of a type: memory whose `Type` word says so. The functions that create
objects are the only ones that write this word (`call_type`). -/
structure Object where
  /-- The type with which the object has been created. -/
  type : HandleType
  /-- The memory at its address. -/
  memory : Memory
  /-- The `Type` word. -/
  type_word : memory 0 = code type

/-- Two memories agree on the words of an object of type `t`. -/
def Same (t : HandleType) (m m' : Memory) : Prop := ∀ k < size t, m' k = m k

theorem Same.refl (t : HandleType) (m : Memory) : Same t m m := fun _ _ => rfl

/-! ### The answers of the system -/

/-- The answer of a function that is handed the address of a part of the object. -/
structure Answer where
  /-- What it returns. -/
  status : ℤ
  /-- What that part of the object holds afterwards. -/
  contents : ℕ → Word

/-- `ETIMEDOUT`. -/
def etimedout : ℤ := 110

/-- The answers in one round of the loop of `ResetEvent`. The ones that the round does not
come to are not used. -/
structure Round where
  /-- `pthread_mutex_timedlock`, in the wait for a mutex. -/
  timedlock : Answer
  /-- `poll`, in the wait for anything else. -/
  poll : ℤ
  /-- `read`, in the cleanup function of a semaphore or a timer. -/
  length : ℤ
  /-- `errno` after it. -/
  errno : ℤ
  /-- `pthread_mutex_lock`, in the cleanup function of a thread. -/
  lock : Answer
  /-- `pthread_join`, in the same function. -/
  join : ℤ
  /-- `pthread_mutex_unlock`, in the same function. -/
  unlock : Answer
  /-- `eventfd_read` in the body of the loop, once it has not been interrupted. -/
  eventfdRead : ℤ

/-- The answers during `ResumeThread`. -/
structure ResumeAnswers where
  /-- `pthread_mutex_lock(&thread->mutex)`. -/
  lock : Answer
  /-- `pthread_create(&thread->thread, …)`. -/
  create : Answer
  /-- `pthread_mutex_lock(&thread->threadIsReadyMutex)`. -/
  readyLock : Answer
  /-- `ListDictionary_Add(thread_list, &thread->thread, thread)`. -/
  add : Bool
  /-- `pthread_cond_signal(&thread->threadIsReady)`. -/
  signal : Answer
  /-- `pthread_mutex_unlock(&thread->threadIsReadyMutex)`. -/
  readyUnlock : Answer
  /-- `pthread_mutex_unlock(&thread->mutex)`. -/
  unlock : Answer

/-- The answers during `SetWaitableTimer`. -/
structure TimerAnswers where
  /-- `timerfd_create`. -/
  timerfdCreate : ℤ
  /-- `fcntl`. -/
  fcntl : ℤ
  /-- `timer_create(…, &timer->tid)`. -/
  timerCreate : Answer
  /-- `timerfd_settime`. -/
  timerfdSettime : ℤ
  /-- `timer_settime`. -/
  timerSettime : ℤ

/-! ### Waiting -/

/-- `EventGetFd`, `SemaphoreGetFd`, `TimerGetFd` and `ThreadGetFd`: the word `k` of an object
of type `t`. -/
def getFd (t : HandleType) (k : ℕ) (m : Memory) : ℤ :=
  if m 0 ≠ code t then -1 else (m k).toInt

/-- `EventGetFd`. -/
def eventGetFd : Memory → ℤ := getFd .event 4

/-- `SemaphoreGetFd`. -/
def semaphoreGetFd : Memory → ℤ := getFd .semaphore 4

/-- `TimerGetFd`. -/
def timerGetFd : Memory → ℤ := getFd .timer 4

/-- `ThreadGetFd`. -/
def threadGetFd : Memory → ℤ := getFd .thread 5

/-- `MutexGetFd`: a mutex does not support file handles. -/
def mutexGetFd (_ : Memory) : ℤ := -1

/-- `SemaphoreCleanupHandle`, which reads a byte from the pipe. -/
def semaphoreCleanupHandle (r : Round) (m : Memory) : Memory × ℕ :=
  if m 0 ≠ code .semaphore then (m, waitFailed)
  else if r.length ≠ 1 then (m, waitFailed)
  else (m, waitObject0)

/-- `TimerCleanupHandle`, which reads the number of expirations. -/
def timerCleanupHandle (r : Round) (m : Memory) : Memory × ℕ :=
  if m 0 ≠ code .timer then (m, waitFailed)
  else if r.length ≠ 8 then
    if r.length = -1 ∧ r.errno = etimedout then (m, waitTimeout) else (m, waitFailed)
  else (m, waitObject0)

/-- `ThreadCleanupHandle`, which joins the thread, under its mutex, unless this has been done
before. -/
def threadCleanupHandle (r : Round) (m : Memory) : Memory × ℕ :=
  if m 0 ≠ code .thread then (m, waitFailed)
  else
    let m := overwrite m 18 10 r.lock.contents
    if r.lock.status ≠ 0 then (m, waitFailed)
    else if m 9 = 0 ∧ r.join ≠ 0 then (overwrite m 18 10 r.unlock.contents, waitFailed)
    else
      let m := if m 9 = 0 then store m 9 1 else m
      let m := overwrite m 18 10 r.unlock.contents
      if r.unlock.status ≠ 0 then (m, waitFailed) else (m, waitObject0)

/-- The tables of operations. A timer queue is allocated with `calloc` and its table is not
set. -/
def ops (r : Round) : HandleType → Option (HandleOps Memory)
  | .event => some { getFd := some eventGetFd, cleanupHandle := none }
  | .semaphore =>
    some { getFd := some semaphoreGetFd, cleanupHandle := some (semaphoreCleanupHandle r) }
  | .mutex => some { getFd := some mutexGetFd, cleanupHandle := none }
  | .timer => some { getFd := some timerGetFd, cleanupHandle := some (timerCleanupHandle r) }
  | .thread => some { getFd := some threadGetFd, cleanupHandle := some (threadCleanupHandle r) }
  | .timerQueue => none
  | .timerQueueTimer => none

/-- **`WaitForSingleObject(hHandle, 0)`**: the memory afterwards and the result. The timer of
a timer queue is allocated with `malloc` and its table is not set either: unless the words
happen to be zero, the wait calls through a pointer that points nowhere. -/
def waitForSingleObject (t : HandleType) (r : Round) (m : Memory) : Option (Memory × ℕ) :=
  if m 0 = code .mutex then
    let m := overwrite m 4 10 r.timedlock.contents
    if r.timedlock.status = etimedout then some (m, waitTimeout) else some (m, waitObject0)
  else if t = .timerQueueTimer ∧ load64 m 2 ≠ 0 then none
  else if winprHandleGetFd (ops r t) m < 0 then some (m, waitFailed)
  else if r.poll < 0 then some (m, waitFailed)
  else if r.poll ≠ 1 then some (m, waitTimeout)
  else some (winprHandleCleanup (ops r t) m)

/-! ### The operations on events -/

/-- **`SetEvent`**, given what the last `eventfd_write` to the word `pipe_fd[0]` returns. -/
def setEvent (length : ℤ) (m : Memory) : Memory × ℤ := (m, if length = 0 then 1 else 0)

/-- **`ResetEvent`**: it reads from `pipe_fd[0]` for as long as a wait – which goes by the
type of the object – says that there is something to read. There is no result when the
loop goes on after the given rounds. -/
def resetEvent (t : HandleType) : List Round → Memory → Option (Memory × ℤ)
  | [], _ => none
  | r :: rs, m =>
    match waitForSingleObject t r m with
    | none => none
    | some (m, w) =>
      if w = waitObject0 then
        if r.eventfdRead < 0 then some (m, 0) else resetEvent t rs m
      else some (m, 1)

/-- **`GetEventFileDescriptor`**: the word `pipe_fd[0]`. -/
def getEventFileDescriptor (m : Memory) : Memory × ℤ := (m, (m 4).toInt)

/-- **`SetEventFileDescriptor`**: it sets `bAttached`, `Mode` and `pipe_fd[0]`. The descriptor
that was there is closed if it was not attached, which changes no word. -/
def setEventFileDescriptor (fileDescriptor mode : Word) (m : Memory) : Memory × ℤ :=
  (store (store (store m 6 1) 1 mode) 4 fileDescriptor, 0)

/-! ### The operations on semaphores, mutexes and timers -/

/-- **`ReleaseSemaphore`**, given what each `write` to `pipe_fd[1]` returns: the loop ends with
the first one that does not write its byte. -/
def releaseSemaphore (lReleaseCount : ℤ) (write : ℕ → ℤ) (m : Memory) : Memory × ℤ :=
  if m 0 = code .semaphore then
    if m 4 ≠ -1 then (m, if ∀ i < lReleaseCount.toNat, write i = 1 then 1 else 0) else (m, 1)
  else (m, 0)

/-- **`ReleaseMutex`.** -/
def releaseMutex (unlock : Answer) (m : Memory) : Memory × ℤ :=
  if m 0 = code .mutex then
    (overwrite m 4 10 unlock.contents, if unlock.status ≠ 0 then 0 else 1)
  else (m, 0)

/-- `InitializeWaitableTimer`. The memory of a timer that is freed is left as it is. -/
def initializeWaitableTimer (a : TimerAnswers) (m : Memory) : Memory × ℤ :=
  if load64 m 10 = 0 then
    let m := store m 4 (BitVec.ofInt 32 a.timerfdCreate)
    if (m 4).toInt ≤ 0 then (m, -1)
    else if a.fcntl ≠ 0 then (m, -1)
    else (store m 5 1, 0)
  else
    let m := overwrite m 12 2 a.timerCreate.contents
    if a.timerCreate.status ≠ 0 then (m, -1) else (store m 5 1, 0)

/-- The part of `SetWaitableTimer` that fills in `timeout`, the interval first, for a due time
that is not positive. -/
def setTimeout (due : Int64) (lPeriod : Word) (m : Memory) : Memory :=
  let m := overwrite m 14 8 fun _ => 0
  let m :=
    if 0 < lPeriod.toInt then
      store64 (store64 m 14 (BitVec.ofInt 64 (lPeriod.toInt / 1000))) 16
        (BitVec.ofInt 64 (lPeriod.toInt % 1000 * 1000000))
    else m
  if due ≠ 0 then
    let value := WaitableTimer.valueOf due
    store64 (store64 m 18 value.tvSec.toBitVec) 20 value.tvNsec.toBitVec
  else store64 (store64 m 18 (load64 m 14)) 20 (load64 m 16)

/-- **`SetWaitableTimer`**, the due time being `none` for a null pointer. -/
def setWaitableTimer (lpDueTime : Option Int64) (lPeriod : Word)
    (pfnCompletionRoutine lpArgToCompletionRoutine : BitVec 64) (a : TimerAnswers) (m : Memory) :
    Memory × ℤ :=
  if m 0 ≠ code .timer then (m, 0)
  else
    match lpDueTime with
    | none => (m, 0)
    | some due =>
      if lPeriod.toInt < 0 then (m, 0)
      else
        let m := store m 6 lPeriod
        let m := store64 m 8 pfnCompletionRoutine
        let m := store64 m 10 lpArgToCompletionRoutine
        let r := if m 5 = 0 then initializeWaitableTimer a m else (m, 0)
        let m := r.1
        if r.2 < 0 then (m, 0)
        else if 0 < due then (overwrite m 14 8 fun _ => 0, 0)
        else
          let m := setTimeout due lPeriod m
          if load64 m 8 = 0 then (m, if a.timerfdSettime ≠ 0 then 0 else 1)
          else (m, if a.timerSettime ≠ 0 then 0 else 1)

/-! ### The operations on threads -/

/-- `winpr_StartThread`. Resetting the event only reads from `pipe_fd[0]`; what the new thread
does to the object is not part of the call. -/
def winprStartThread (a : ResumeAnswers) (m : Memory) : Memory × Bool :=
  let m := store m 4 1
  let m := overwrite m 12 2 a.create.contents
  if a.create.status ≠ 0 then (m, false)
  else
    let m := overwrite m 28 10 a.readyLock.contents
    if a.readyLock.status ≠ 0 then (m, false)
    else if !a.add then (overwrite m 28 10 a.readyUnlock.contents, false)
    else
      let m := overwrite m 38 12 a.signal.contents
      let m' := overwrite m 28 10 a.readyUnlock.contents
      if a.signal.status ≠ 0 then (m', false)
      else if a.readyUnlock.status ≠ 0 then (m', false)
      else (m', true)

/-- `(DWORD) -1`. -/
def dwordMinusOne : ℤ := 0xFFFFFFFF

/-- **`ResumeThread`.** -/
def resumeThread (a : ResumeAnswers) (m : Memory) : Memory × ℤ :=
  let m := overwrite m 18 10 a.lock.contents
  if a.lock.status ≠ 0 then (m, dwordMinusOne)
  else
    let r := if m 4 = 0 then winprStartThread a m else (m, true)
    let m := overwrite r.1 18 10 a.unlock.contents
    if r.2 = false then (m, dwordMinusOne)
    else if a.unlock.status ≠ 0 then (m, dwordMinusOne)
    else (m, 0)

/-- **`TerminateThread`.** Cancelling the thread and setting the event only read the object,
and what they return is not looked at. -/
def terminateThread (dwExitCode : Word) (lock unlock : Answer) (m : Memory) : Memory × ℤ :=
  let m := store (store m 10 1) 11 dwExitCode
  let m := overwrite m 18 10 lock.contents
  if lock.status ≠ 0 then (m, 0)
  else
    let m := overwrite m 18 10 unlock.contents
    if unlock.status ≠ 0 then (m, 0) else (m, 1)

/-- **`GetExitCodeThread`**: what is stored through `lpExitCode`, and what is returned. -/
def getExitCodeThread (m : Memory) : Word × ℤ := (m 11, 1)

/-! ### Calls -/

/-- A call of an operation that is meant for one type of object: its arguments, and the
answers of the system during it. -/
inductive Call
  | setEvent (length : ℤ)
  | resetEvent (rounds : List Round)
  | setEventFileDescriptor (fileDescriptor mode : Word)
  | getEventFileDescriptor
  | releaseSemaphore (lReleaseCount : ℤ) (write : ℕ → ℤ)
  | releaseMutex (unlock : Answer)
  | setWaitableTimer (lpDueTime : Option Int64) (lPeriod : Word)
      (pfnCompletionRoutine lpArgToCompletionRoutine : BitVec 64) (a : TimerAnswers)
  | resumeThread (a : ResumeAnswers)
  | terminateThread (dwExitCode : Word) (lock unlock : Answer)
  | getExitCodeThread

/-- The type of object that the operation is meant for. -/
def Call.objectType : Call → HandleType
  | .setEvent _ | .resetEvent _ | .setEventFileDescriptor _ _ | .getEventFileDescriptor => .event
  | .releaseSemaphore _ _ => .semaphore
  | .releaseMutex _ => .mutex
  | .setWaitableTimer _ _ _ _ _ => .timer
  | .resumeThread _ | .terminateThread _ _ _ | .getExitCodeThread => .thread

/-- The value by which the operation says that it has failed. -/
def Call.failure : Call → ℤ
  | .setEventFileDescriptor _ _ | .getEventFileDescriptor => -1
  | .resumeThread _ => dwordMinusOne
  | .setEvent _ | .resetEvent _ | .releaseSemaphore _ _ | .releaseMutex _
  | .setWaitableTimer _ _ _ _ _ | .terminateThread _ _ _ | .getExitCodeThread => 0

/-- The call with the handle of an object: the memory at its address afterwards, and what is
returned, if anything is. -/
def call (o : Object) : Call → Option (Memory × ℤ)
  | .setEvent length => some (setEvent length o.memory)
  | .resetEvent rounds => resetEvent o.type rounds o.memory
  | .setEventFileDescriptor fileDescriptor mode =>
    some (setEventFileDescriptor fileDescriptor mode o.memory)
  | .getEventFileDescriptor => some (getEventFileDescriptor o.memory)
  | .releaseSemaphore lReleaseCount write =>
    some (releaseSemaphore lReleaseCount write o.memory)
  | .releaseMutex unlock => some (releaseMutex unlock o.memory)
  | .setWaitableTimer lpDueTime lPeriod pfnCompletionRoutine lpArgToCompletionRoutine a =>
    some (setWaitableTimer lpDueTime lPeriod pfnCompletionRoutine lpArgToCompletionRoutine a
      o.memory)
  | .resumeThread a => some (resumeThread a o.memory)
  | .terminateThread dwExitCode lock unlock =>
    some (terminateThread dwExitCode lock unlock o.memory)
  | .getExitCodeThread => some (o.memory, (getExitCodeThread o.memory).2)

/-- **The operation turns the object away**: it returns its failure value and leaves every word
of the object as it was. -/
def Rejects (o : Object) (c : Call) : Prop :=
  ∃ m', call o c = some (m', c.failure) ∧ Same o.type o.memory m'

/-! ### Two functions that create objects -/

/-- `calloc` of a structure of type `t`, at an address behind which the memory is `rest`. -/
def calloc (t : HandleType) (rest : Memory) : Memory := overwrite rest 0 (size t) fun _ => 0

/-- `WINPR_HANDLE_SET_TYPE_AND_MODE`. -/
def winprHandleSetTypeAndMode (m : Memory) (type : HandleType) (mode : Word) : Memory :=
  store (store m 0 (code type)) 1 mode

/-- `CreateSemaphoreW`, with the two ends of its pipe and the address of its table. -/
def createSemaphore (rest : Memory) (pipeFd : Word × Word) (ops : BitVec 64) : Object where
  type := .semaphore
  memory :=
    winprHandleSetTypeAndMode
      (store (store (store64 (calloc .semaphore rest) 2 ops) 4 pipeFd.1) 5 pipeFd.2)
      .semaphore (BitVec.ofNat 32 fdRead)
  type_word := by simp [winprHandleSetTypeAndMode, store]

/-- `CreateWaitableTimerA`, with the address of its table. -/
def createWaitableTimer (rest : Memory) (bManualReset : Word) (ops : BitVec 64) : Object where
  type := .timer
  memory :=
    let m := winprHandleSetTypeAndMode (calloc .timer rest) .timer (BitVec.ofNat 32 fdRead)
    store64 (store (store m 4 (-1)) 7 bManualReset) 2 ops
  type_word := by simp [winprHandleSetTypeAndMode, store, store64]

end Foreign

end Libuzi
