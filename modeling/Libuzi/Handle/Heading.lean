import Libuzi.Handle.Foreign
import Libuzi.Timer.Timespec

/-!
# The heading of an object

Every object begins with `Type`, `Mode` and `ops`, and every function that creates one fills
them in by hand. This file has those functions, on the memory that the allocator gives them,
and whatever else the library does to an object later; the words of `Type` and `ops` together
are its *heading* (`Dispatch.heading`).

| in the source | allocates with | `ops` |
|---|---|---|
| `CreateEventW`, `CreateFileDescriptorEventW` | `calloc` | the table of `event.c` |
| `CreateMutexW` | `calloc` | the table of `mutex.c` |
| `CreateSemaphoreW` | `calloc` | the table of `semaphore.c` |
| `CreateWaitableTimerA` | `calloc` | the table of `timer.c` |
| `CreateThread` | `calloc` | the table of `thread.c` |
| `CreateTimerQueue` | `calloc` | not set |
| `CreateTimerQueueTimer` | `malloc` | not set |

So the heading of a new object is what its type asks for (`Dispatch.create_heading`), unless it
is the timer of a timer queue: its `ops` is what the memory held before
(`Dispatch.createTimerQueueTimer_heading`). Nothing that is done to an object later changes
the heading.

The words of a timer queue and of the timers in it, in the same layout:

| words | timer queue | timer queue timer |
|---|---|---|
| 4 to 7 | `thread`, to 5; `attr`, from 6 | `Flags`, `DueTime`, `Period` |
| 8 to 13 | `attr`, to 19 | `Parameter`, `Callback`, `FireCount` |
| 14 to 21 | `mutex`, 20 to 29 | `StartTime`, `ExpirationTime` |
| 22 to 25 | | `timerQueue`, `next` |
| 30 to 51 | `cond`, to 41; `cond_mutex` | |
| 52 to 57 | `param`, `bCancelled`, `activeHead`, `inactiveHead` | |
-/

namespace Libuzi

open Handle Foreign
open Timer (Timespec timespecAddMs)

namespace Dispatch

/-! ### The heading -/

/-- The words of `Type` and `ops`. -/
def heading (m : Memory) : Word × BitVec 64 := (m 0, load64 m 2)

section Heading

variable {m m' : Memory} {k n : ℕ}

theorem heading_congr (h : ∀ k < 4, k ≠ 1 → m' k = m k) : heading m' = heading m := by
  rw [heading, heading, load64, load64, h 0 (by decide) (by decide), h 2 (by decide) (by decide),
    h 3 (by decide) (by decide)]

@[simp] theorem heading_store (hk : 4 ≤ k) (w : Word) : heading (store m k w) = heading m :=
  heading_congr fun _ hj _ => store_of_ne (by omega)

/-- `Mode` is not part of the heading. -/
@[simp] theorem heading_store_mode (w : Word) : heading (store m 1 w) = heading m :=
  heading_congr fun _ _ hj => store_of_ne hj

@[simp] theorem heading_store64 (hk : 4 ≤ k) (w : BitVec 64) :
    heading (store64 m k w) = heading m :=
  heading_congr fun _ hj _ => store64_of_lt (by omega)

@[simp] theorem heading_overwrite (hk : 4 ≤ k) (contents : ℕ → Word) :
    heading (overwrite m k n contents) = heading m :=
  heading_congr fun _ hj _ => overwrite_of_lt (by omega)

/-- A double word that is stored can be loaded. -/
theorem load64_store64 (w : BitVec 64) : load64 (store64 m k w) k = w := by
  have hlow : store64 m k w k = w.setWidth 32 := by
    rw [store64, store_of_ne (by omega), store_self]
  rw [load64, hlow, store64, store_self]
  ext i hi
  simp only [BitVec.getElem_append, BitVec.getElem_setWidth, BitVec.getLsbD_ushiftRight]
  split
  · exact BitVec.getLsbD_eq_getElem hi
  · rw [Nat.add_sub_cancel' (by omega)]
    exact BitVec.getLsbD_eq_getElem hi

@[simp] theorem heading_store_ops (w : BitVec 64) :
    heading (store64 m 2 w) = ((heading m).1, w) :=
  Prod.ext (store64_of_lt (w := w) (show 0 < 2 by decide)) (load64_store64 w)

@[simp] theorem heading_setTypeAndMode (t : HandleType) (mode : Word) :
    heading (winprHandleSetTypeAndMode m t mode) = (code t, (heading m).2) := by
  rw [winprHandleSetTypeAndMode, heading_store_mode]
  refine Prod.ext (store_self m 0 _) ?_
  simp only [heading, load64, store_of_ne (show 3 ≠ 0 by decide),
    store_of_ne (show 2 ≠ 0 by decide)]

@[simp] theorem heading_calloc (t : HandleType) : heading (calloc t m) = (0, 0) := by
  have hzero : ∀ k < 4, calloc t m k = 0 := fun k hk =>
    if_pos ⟨Nat.zero_le k, by have := eight_le_size t; omega⟩
  rw [heading, load64, hzero 0 (by decide), hzero 2 (by decide), hzero 3 (by decide)]
  rfl

end Heading

/-! ### The tables -/

/-- The types whose module has a table of operations. -/
def tabled : List HandleType := [.thread, .event, .mutex, .semaphore, .timer]

/-- **Where the tables are**: the addresses of the five `static HANDLE_OPS ops`. -/
structure Tables where
  /-- The address of the table in the module of a type. -/
  address : HandleType → BitVec 64
  /-- None of them is null. -/
  ne_zero : ∀ t ∈ tabled, address t ≠ 0
  /-- No two of them are the same. -/
  injective : ∀ t ∈ tabled, ∀ u ∈ tabled, address t = address u → t = u

/-- The `ops` of an object of type `t`: the table of the type, and null if it has none. -/
def Tables.own (T : Tables) (t : HandleType) : BitVec 64 := if t ∈ tabled then T.address t else 0

/-! ### The functions that create objects -/

section Create

variable (T : Tables)

/-- `CreateEventW`, given what `eventfd` returns. -/
def createEventW (bManualReset : Word) (eventfd : ℤ) (rest : Memory) : Option Memory :=
  let m := store (store (calloc .event rest) 6 0) 7 bManualReset
  let m := store64 m 2 (T.address .event)
  let m := winprHandleSetTypeAndMode m .event (BitVec.ofNat 32 fdRead)
  if bManualReset = 0 then none
  else
    let m := store (store m 4 (-1)) 5 (-1)
    let m := store m 4 (BitVec.ofInt 32 eventfd)
    if (m 4).toInt < 0 then none else some m

/-- `CreateFileDescriptorEventW`. -/
def createFileDescriptorEventW (bManualReset fileDescriptor mode : Word) (rest : Memory) :
    Option Memory :=
  let m := store (store (calloc .event rest) 6 1) 7 bManualReset
  let m := store (store m 4 fileDescriptor) 5 (-1)
  let m := store64 m 2 (T.address .event)
  some (winprHandleSetTypeAndMode m .event mode)

/-- `CreateMutexW`, given what `pthread_mutex_init` and `pthread_mutex_lock` leave. -/
def createMutexW (bInitialOwner : Bool) (init lock : Answer) (rest : Memory) : Option Memory :=
  let m := overwrite (calloc .mutex rest) 4 10 init.contents
  let m := winprHandleSetTypeAndMode m .mutex (BitVec.ofNat 32 fdRead)
  let m := store64 m 2 (T.address .mutex)
  some (if bInitialOwner then overwrite m 4 10 lock.contents else m)

/-- `CreateSemaphoreW`, given the pipe, if there is one, and what each `write` to it
returns. -/
def createSemaphoreW (lInitialCount : ℤ) (pipe : Option (Word × Word)) (write : ℕ → ℤ)
    (rest : Memory) : Option Memory :=
  match pipe with
  | none => none
  | some pipeFd =>
    if ∀ i < lInitialCount.toNat, write i = 1 then
      some (createSemaphore rest pipeFd (T.address .semaphore)).memory
    else none

/-- `CreateWaitableTimerA`. -/
def createWaitableTimerA (bManualReset : Word) (rest : Memory) : Option Memory :=
  some (createWaitableTimer rest bManualReset (T.address .timer)).memory

/-- The answers during `CreateThread`. -/
structure ThreadAnswers where
  /-- `eventfd`. -/
  eventfd : ℤ
  /-- `pthread_mutex_init(&thread->mutex, 0)`. -/
  mutex : Answer
  /-- `pthread_mutex_init(&thread->threadIsReadyMutex, NULL)`. -/
  readyMutex : Answer
  /-- `pthread_cond_init(&thread->threadIsReady, NULL)`. -/
  ready : Answer
  /-- There is a `thread_list`, or `ListDictionary_New` returns one. -/
  threadList : Bool
  /-- The answers during `winpr_StartThread`. -/
  start : ResumeAnswers
  /-- `eventfd_write`, in `set_event`. -/
  eventfdWrite : ℤ

/-- `CreateThread`. What the new thread does to the object is not part of the call. -/
def createThread (a : ThreadAnswers)
    (dwStackSize lpStartAddress lpParameter lpThreadAttributes : BitVec 64)
    (createSuspended : Bool) (rest : Memory) : Option Memory :=
  let m := store64 (store64 (calloc .thread rest) 14 dwStackSize) 16 lpParameter
  let m := store64 (store64 m 50 lpStartAddress) 52 lpThreadAttributes
  let m := store64 m 2 (T.address .thread)
  let m := store (store m 5 (-1)) 6 (-1)
  let m := store m 5 (BitVec.ofInt 32 a.eventfd)
  if (m 5).toInt < 0 then none
  else
    let m := overwrite m 18 10 a.mutex.contents
    if a.mutex.status ≠ 0 then none
    else
      let m := overwrite m 28 10 a.readyMutex.contents
      if a.readyMutex.status ≠ 0 then none
      else
        let m := overwrite m 38 12 a.ready.contents
        if a.ready.status ≠ 0 then none
        else
          let m := winprHandleSetTypeAndMode m .thread (BitVec.ofNat 32 fdRead)
          if !a.threadList then none
          else if !createSuspended then
            let r := winprStartThread a.start m
            if r.2 then some r.1 else none
          else if a.eventfdWrite = 0 then some m else none

/-- What `StartTimerQueueThread` hands to the system. -/
structure QueueAnswers where
  /-- `pthread_cond_init`. -/
  cond : Answer
  /-- `pthread_mutex_init(&(timerQueue->cond_mutex), NULL)`. -/
  condMutex : Answer
  /-- `pthread_mutex_init(&(timerQueue->mutex), NULL)`. -/
  mutex : Answer
  /-- `sched_get_priority_max(SCHED_FIFO)`. -/
  priority : Word
  /-- The attributes, once they have been initialised and set. -/
  attr : Answer
  /-- `pthread_create`. -/
  create : Answer

/-- `StartTimerQueueThread`, which does not look at what these functions return. -/
def startTimerQueueThread (a : QueueAnswers) (m : Memory) : Memory :=
  let m := overwrite m 30 12 a.cond.contents
  let m := overwrite m 42 10 a.condMutex.contents
  let m := overwrite m 20 10 a.mutex.contents
  let m := store m 52 a.priority
  let m := overwrite m 6 14 a.attr.contents
  overwrite m 4 2 a.create.contents

/-- `CreateTimerQueue`: the table is not set. -/
def createTimerQueue (a : QueueAnswers) (rest : Memory) : Option Memory :=
  let m := calloc .timerQueue rest
  let m := winprHandleSetTypeAndMode m .timerQueue (BitVec.ofNat 32 fdRead)
  let m := store (store64 (store64 m 54 0) 56 0) 53 0
  some (startTimerQueueThread a m)

/-- Store a `struct timespec`. -/
def storeTimespec (m : Memory) (k : ℕ) (t : Timespec) : Memory :=
  store64 (store64 m k (BitVec.ofInt 64 t.tvSec)) (k + 2) (BitVec.ofNat 64 t.tvNsec)

/-- `CreateTimerQueueTimer`, given the clock and the `next` that the insertion leaves: the
memory is that of `malloc`, and the table is not set. -/
def createTimerQueueTimer (timerQueue callback parameter : BitVec 64)
    (dueTime period flags : Word) (currentTime : Timespec) (next : BitVec 64) (rest : Memory) :
    Option Memory :=
  if timerQueue = 0 then none
  else
    let m := winprHandleSetTypeAndMode rest .timerQueueTimer (BitVec.ofNat 32 fdRead)
    let startTime := timespecAddMs currentTime (UInt32.ofBitVec dueTime)
    let m := storeTimespec (storeTimespec m 14 startTime) 18 startTime
    let m := store (store (store m 4 flags) 5 dueTime) 6 period
    let m := store64 (store64 m 10 callback) 8 parameter
    let m := store64 m 22 timerQueue
    let m := store m 12 0
    some (store64 m 24 next)

/-- **A call of one of these functions**: its arguments, and the answers of the system. -/
inductive Creation
  | event (bManualReset : Word) (eventfd : ℤ)
  | fileDescriptorEvent (bManualReset fileDescriptor mode : Word)
  | mutex (bInitialOwner : Bool) (init lock : Answer)
  | semaphore (lInitialCount : ℤ) (pipe : Option (Word × Word)) (write : ℕ → ℤ)
  | waitableTimer (bManualReset : Word)
  | thread (a : ThreadAnswers)
      (dwStackSize lpStartAddress lpParameter lpThreadAttributes : BitVec 64)
      (createSuspended : Bool)
  | timerQueue (a : QueueAnswers)
  | timerQueueTimer (timerQueue callback parameter : BitVec 64) (dueTime period flags : Word)
      (currentTime : Timespec) (next : BitVec 64)

/-- The type of the object that is created. -/
def Creation.objectType : Creation → HandleType
  | .event .. | .fileDescriptorEvent .. => .event
  | .mutex .. => .mutex
  | .semaphore .. => .semaphore
  | .waitableTimer .. => .timer
  | .thread .. => .thread
  | .timerQueue .. => .timerQueue
  | .timerQueueTimer .. => .timerQueueTimer

/-- The object that is created, if one is, in the memory that the allocator has returned, if it
has: `rest` is what that memory holds before. -/
def create (c : Creation) (memory : Option Memory) : Option Memory :=
  memory.bind fun rest =>
    match c with
    | .event bManualReset eventfd => createEventW T bManualReset eventfd rest
    | .fileDescriptorEvent bManualReset fileDescriptor mode =>
      createFileDescriptorEventW T bManualReset fileDescriptor mode rest
    | .mutex bInitialOwner init lock => createMutexW T bInitialOwner init lock rest
    | .semaphore lInitialCount pipe write => createSemaphoreW T lInitialCount pipe write rest
    | .waitableTimer bManualReset => createWaitableTimerA T bManualReset rest
    | .thread a dwStackSize lpStartAddress lpParameter lpThreadAttributes createSuspended =>
      createThread T a dwStackSize lpStartAddress lpParameter lpThreadAttributes createSuspended
        rest
    | .timerQueue a => createTimerQueue a rest
    | .timerQueueTimer timerQueue callback parameter dueTime period flags currentTime next =>
      createTimerQueueTimer timerQueue callback parameter dueTime period flags currentTime next
        rest

end Create

/-! ### What the library does to an object later -/

/-- Where an object stands before it is closed. -/
inductive State
  /-- The object is there. -/
  | live (m : Memory)
  /-- Its memory has been released. -/
  | released

/-- **`SetWaitableTimer` releases the timer**: `timerfd_create` has not returned a descriptor
that is positive. -/
def setWaitableTimerReleases (lpDueTime : Option Int64) (lPeriod : Word)
    (lpArgToCompletionRoutine : BitVec 64) (a : TimerAnswers) (m : Memory) : Prop :=
  m 0 = code .timer ∧ lpDueTime ≠ none ∧ 0 ≤ lPeriod.toInt ∧ m 5 = 0 ∧
    lpArgToCompletionRoutine = 0 ∧ (BitVec.ofInt 32 a.timerfdCreate).toInt ≤ 0

/-- **The call releases the object.** -/
def callReleases (m : Memory) : Call → Prop
  | .setWaitableTimer lpDueTime lPeriod _ lpArgToCompletionRoutine a =>
    setWaitableTimerReleases lpDueTime lPeriod lpArgToCompletionRoutine a m
  | _ => False

instance (lpDueTime : Option Int64) (lPeriod : Word) (lpArgToCompletionRoutine : BitVec 64)
    (a : TimerAnswers) (m : Memory) :
    Decidable (setWaitableTimerReleases lpDueTime lPeriod lpArgToCompletionRoutine a m) :=
  inferInstanceAs (Decidable (_ ∧ _))

instance (m : Memory) : (c : Call) → Decidable (callReleases m c)
  | .setWaitableTimer lpDueTime lPeriod _ lpArgToCompletionRoutine a =>
    inferInstanceAs
      (Decidable (setWaitableTimerReleases lpDueTime lPeriod lpArgToCompletionRoutine a m))
  | .setEvent _ | .resetEvent _ | .setEventFileDescriptor _ _ | .getEventFileDescriptor
  | .releaseSemaphore _ _ | .releaseMutex _ | .resumeThread _ | .terminateThread _ _ _
  | .getExitCodeThread => isFalse id

/-- `WaitableTimerSignalHandler`. -/
def waitableTimerSignalHandler (m : Memory) : Memory :=
  if load64 m 8 ≠ 0 ∧ m 6 ≠ 0 then
    store64 (store64 m 14 (BitVec.ofInt 64 ((m 6).toInt.tdiv 1000))) 16
      (BitVec.ofInt 64 ((m 6).toInt.tmod 1000 * 1000000))
  else m

/-- `thread_launcher`, up to the start routine. -/
def threadLauncher (lock wait unlock : Answer) (m : Memory) : Memory :=
  let m := overwrite m 28 10 lock.contents
  let m := overwrite m 38 12 wait.contents
  overwrite m 28 10 unlock.contents

/-- A thread that ends releases the object when it is `detached`, or not `started`. -/
def endReleases (m : Memory) : Prop := m 8 ≠ 0 ∨ m 4 = 0

instance (m : Memory) : Decidable (endReleases m) := inferInstanceAs (Decidable (_ ∨ _))

/-- `thread_launcher`, once the start routine has returned `rc`. -/
def threadExit (rc : Word) (m : Memory) : Memory := if m 10 = 0 then store m 11 rc else m

/-- `ExitThread`. -/
def exitThread (dwExitCode : Word) (m : Memory) : Memory := store (store m 10 1) 11 dwExitCode

/-- What is done to a timer queue under `cond_mutex`, by its thread, by `CreateTimerQueueTimer`,
by `ChangeTimerQueueTimer` and by `DeleteTimerQueueTimer`. -/
def queueUnderLock (lock : Answer) (activeHead inactiveHead : BitVec 64) (cond unlock : Answer)
    (m : Memory) : Memory :=
  let m := overwrite m 42 10 lock.contents
  let m := store64 (store64 m 54 activeHead) 56 inactiveHead
  let m := overwrite m 30 12 cond.contents
  overwrite m 42 10 unlock.contents

/-- What `InsertTimerQueueTimer` and `RemoveTimerQueueTimer` do to a timer on the list. -/
def setNext (next : BitVec 64) (m : Memory) : Memory := store64 m 24 next

/-- `ChangeTimerQueueTimer`, given the clock and the `next` that the insertion leaves. -/
def changeTimerQueueTimer (dueTime period : Word) (currentTime : Timespec) (next : BitVec 64)
    (m : Memory) : Memory :=
  let m := store (store m 5 dueTime) 6 period
  let startTime := timespecAddMs currentTime (UInt32.ofBitVec dueTime)
  setNext next (storeTimespec (storeTimespec m 14 startTime) 18 startTime)

/-- What `FireExpiredTimerQueueTimers` does to a timer, given what `timespec_add_ms` makes of its
`ExpirationTime` and the `next` that the insertion leaves. -/
def fireTimer (expirationTime : Timespec) (next : BitVec 64) (m : Memory) : Memory :=
  let m := store m 12 (m 12 + 1)
  setNext next (if m 6 ≠ 0 then storeTimespec m 18 expirationTime else m)

/-! ### The heading stays -/

section Stays

variable (T : Tables) {m m' : Memory}

@[simp] theorem heading_storeTimespec {k : ℕ} (hk : 4 ≤ k) (t : Timespec) :
    heading (storeTimespec m k t) = heading m := by
  rw [storeTimespec, heading_store64 (by omega), heading_store64 hk]

@[simp] theorem heading_setNext (next : BitVec 64) : heading (setNext next m) = heading m :=
  heading_store64 (by decide) next

@[simp] theorem heading_winprStartThread (a : ResumeAnswers) :
    heading (winprStartThread a m).1 = heading m :=
  heading_congr fun _ hk _ => winprStartThread_word a m hk

theorem heading_call {o : Object} {c : Call} {v : ℤ} (h : call o c = some (m', v)) :
    heading m' = heading o.memory :=
  heading_congr fun _ hk hmode => call_word hk hmode h

theorem heading_waitableTimerSignalHandler :
    heading (waitableTimerSignalHandler m) = heading m := by
  unfold waitableTimerSignalHandler
  split
  · simp
  · rfl

theorem heading_threadLauncher (lock wait unlock : Answer) :
    heading (threadLauncher lock wait unlock m) = heading m := by
  simp [threadLauncher]

theorem heading_threadExit (rc : Word) : heading (threadExit rc m) = heading m := by
  unfold threadExit
  split
  · simp
  · rfl

theorem heading_exitThread (dwExitCode : Word) :
    heading (exitThread dwExitCode m) = heading m := by
  simp [exitThread]

theorem heading_queueUnderLock (lock : Answer) (activeHead inactiveHead : BitVec 64)
    (cond unlock : Answer) :
    heading (queueUnderLock lock activeHead inactiveHead cond unlock m) = heading m := by
  simp [queueUnderLock]

theorem heading_changeTimerQueueTimer (dueTime period : Word) (currentTime : Timespec)
    (next : BitVec 64) :
    heading (changeTimerQueueTimer dueTime period currentTime next m) = heading m := by
  simp [changeTimerQueueTimer]

theorem heading_fireTimer (expirationTime : Timespec) (next : BitVec 64) :
    heading (fireTimer expirationTime next m) = heading m := by
  rw [fireTimer, heading_setNext]
  split <;> simp

end Stays

/-! ### The heading of a new object -/

section New

variable {T : Tables} {m rest : Memory}

theorem Tables.own_of_mem {t : HandleType} (ht : t ∈ tabled) : T.own t = T.address t := if_pos ht

theorem createEventW_heading {bManualReset : Word} {eventfd : ℤ}
    (h : createEventW T bManualReset eventfd rest = some m) :
    heading m = (code .event, T.address .event) := by
  simp only [createEventW] at h
  split_ifs at h
  obtain rfl := Option.some.inj h
  simp

theorem createFileDescriptorEventW_heading {bManualReset fileDescriptor mode : Word}
    (h : createFileDescriptorEventW T bManualReset fileDescriptor mode rest = some m) :
    heading m = (code .event, T.address .event) := by
  obtain rfl := Option.some.inj h
  simp

theorem createMutexW_heading {bInitialOwner : Bool} {init lock : Answer}
    (h : createMutexW T bInitialOwner init lock rest = some m) :
    heading m = (code .mutex, T.address .mutex) := by
  obtain rfl := Option.some.inj h
  split <;> simp

theorem createSemaphoreW_heading {lInitialCount : ℤ} {pipe : Option (Word × Word)} {write : ℕ → ℤ}
    (h : createSemaphoreW T lInitialCount pipe write rest = some m) :
    heading m = (code .semaphore, T.address .semaphore) := by
  cases pipe with
  | none => cases h
  | some pipeFd =>
    simp only [createSemaphoreW] at h
    split_ifs at h
    obtain rfl := Option.some.inj h
    simp [createSemaphore]

theorem createWaitableTimerA_heading {bManualReset : Word}
    (h : createWaitableTimerA T bManualReset rest = some m) :
    heading m = (code .timer, T.address .timer) := by
  obtain rfl := Option.some.inj h
  simp [createWaitableTimer]

theorem createThread_heading {a : ThreadAnswers}
    {dwStackSize lpStartAddress lpParameter lpThreadAttributes : BitVec 64}
    {createSuspended : Bool}
    (h : createThread T a dwStackSize lpStartAddress lpParameter lpThreadAttributes createSuspended
      rest = some m) :
    heading m = (code .thread, T.address .thread) := by
  simp only [createThread] at h
  -- an object is returned from two places, with the thread running and with it suspended
  split_ifs at h <;> obtain rfl := Option.some.inj h
  · simp
  · simp

theorem createTimerQueue_heading {a : QueueAnswers} (h : createTimerQueue a rest = some m) :
    heading m = (code .timerQueue, 0) := by
  obtain rfl := Option.some.inj h
  simp [startTimerQueueThread]

/-- **The timer of a timer queue**: `ops` is what the memory held before. -/
theorem createTimerQueueTimer_heading {timerQueue callback parameter : BitVec 64}
    {dueTime period flags : Word} {currentTime : Timespec} {next : BitVec 64}
    (h : createTimerQueueTimer timerQueue callback parameter dueTime period flags currentTime next
      rest = some m) :
    heading m = (code .timerQueueTimer, load64 rest 2) := by
  unfold createTimerQueueTimer at h
  split_ifs at h
  obtain rfl := Option.some.inj h
  change heading _ = (code .timerQueueTimer, (heading rest).2)
  simp

/-- **The heading of any other object** is what its type asks for. -/
theorem create_heading {c : Creation} {memory : Option Memory}
    (hc : c.objectType ≠ .timerQueueTimer) (h : create T c memory = some m) :
    heading m = (code c.objectType, T.own c.objectType) := by
  obtain ⟨rest, -, h⟩ := Option.bind_eq_some_iff.mp h
  cases c with
  | event _ _ => exact createEventW_heading h
  | fileDescriptorEvent _ _ _ => exact createFileDescriptorEventW_heading h
  | mutex _ _ _ => exact createMutexW_heading h
  | semaphore _ _ _ => exact createSemaphoreW_heading h
  | waitableTimer _ => exact createWaitableTimerA_heading h
  | thread _ _ _ _ _ _ => exact createThread_heading h
  | timerQueue _ => exact createTimerQueue_heading h
  | timerQueueTimer _ _ _ _ _ _ _ _ => exact absurd rfl hc

end New

end Dispatch

end Libuzi
