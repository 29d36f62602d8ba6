import Libuzi.Threads
import Libuzi.Timer.TimerQueue

/-!
# The thread of a timer queue, and its callers

A timer queue of `libuzi/timer.c` belongs to a thread of its own, which sleeps until the first
active timer is due, and to any number of threads that create, change and delete timers. They
meet at `cond_mutex` and `cond`:

| in the source | here |
|---|---|
| the loop of `TimerQueueThread` | `Timer.WorkerPc`, `Timer.timerQueueThread` |
| `CreateTimerQueueTimer` and the others | `Timer.CallerPc`, `Timer.callerStep` |
| `pthread_cond_timedwait` | `WorkerPc.wait`, `WorkerPc.asleep`, `WorkerPc.relock` |
| `pthread_cond_signal` | `Timer.Shared.woken` |
| `pthread_join` | `Timer.Shared.ended` |

A step is one of these calls, a reading of the clock, one turn of a loop that need not end, or
what a function does to the lists between taking the mutex and giving it back. That the last is
one step does no harm, since nobody else is at the queue then (`Timer.exclusive`).

A signal reaches the thread if it is asleep, and is lost otherwise. The thread may wake up for
no reason. Callbacks do nothing to the queue, and timers are not used after they have been
deleted (`Timer.Admissible`), nor the queue (`Timer.Proper`).
-/

namespace Libuzi

open Runs Threads

namespace Timer

/-! ### The functions -/

/-- A call, with what it has read of the clock and got from `malloc` before it takes the mutex. -/
inductive Call
  /-- `CreateTimerQueueTimer`. -/
  | create (timer : Addr) (tval : Timeval) (dueTime period : UInt32)
  /-- `ChangeTimerQueueTimer`. -/
  | change (timer : Addr) (tval : Timeval) (dueTime period : UInt32)
  /-- `DeleteTimerQueueTimer`. -/
  | delete (timer : Addr)
  /-- `DeleteTimerQueueEx`. -/
  | destroy
  deriving DecidableEq

/-- What `pthread_cond_timedwait` returns. -/
inductive Status
  /-- `0`. -/
  | ok
  /-- `ETIMEDOUT`. -/
  | timedOut
  /-- Something else. -/
  | error
  deriving DecidableEq

/-- Where the thread of the queue stands in `TimerQueueThread`. -/
inductive WorkerPc
  /-- At the first `pthread_mutex_lock`. -/
  | lock
  /-- At `timespec_gettimeofday(&timeout)`. -/
  | clock
  /-- At `if (!timerQueue->activeHead)`, having read the time. -/
  | deadline (currentTime : Timespec)
  /-- At `pthread_cond_timedwait`. -/
  | wait (currentTime timeout : Timespec)
  /-- In it, without the mutex. -/
  | asleep (currentTime timeout : Timespec)
  /-- In it, about to take the mutex again. -/
  | relock (status : Status)
  /-- At `FireExpiredTimerQueueTimers`. -/
  | fire (status : Status)
  /-- In its loop. -/
  | firing (status : Status)
  /-- At `pthread_mutex_unlock`. -/
  | unlock (status : Status)
  /-- At the two tests that leave the loop. -/
  | test (status : Status)
  /-- It has returned. -/
  | ended
  deriving DecidableEq

/-- Where another thread stands in one of the functions. -/
inductive CallerPc
  /-- In none of them. -/
  | idle
  /-- At `pthread_mutex_lock`. -/
  | lock (call : Call)
  /-- Behind it. -/
  | body (call : Call)
  /-- At `pthread_cond_signal`. -/
  | signal (call : Call)
  /-- At `pthread_mutex_unlock`. -/
  | unlock (call : Call)
  /-- At `free(timer)`. -/
  | free (timer : Addr)
  /-- At `pthread_join`. -/
  | join
  /-- In the loops of `DeleteTimerQueueEx`, or at `free(timerQueue)`. -/
  | release
  deriving DecidableEq

/-- What the threads share. -/
structure Shared (ι : Type*) where
  /-- The lists and the timers. -/
  queue : Queue
  /-- Who has `cond_mutex`. -/
  condMutex : Option ι
  /-- `bCancelled`. -/
  bCancelled : Bool
  /-- The thread of the queue has been signalled since it went to sleep. -/
  woken : Bool
  /-- It has returned. -/
  ended : Bool
  /-- `free(timerQueue)` has been called. -/
  freed : Bool

/-- Where a thread stands. -/
inductive Local
  /-- The thread of the queue. -/
  | worker (pc : WorkerPc)
  /-- Another one. -/
  | caller (pc : CallerPc)
  deriving DecidableEq

/-- What happens next to a thread. -/
inductive Choice
  /-- It goes on. -/
  | go
  /-- It reads the clock. -/
  | clock (tval : Timeval)
  /-- It wakes up. -/
  | wake (status : Status)
  /-- It calls one of the functions. -/
  | call (call : Call)
  deriving DecidableEq

/-- What `TimerQueueThread` waits for, having read `currentTime`. -/
def deadline (q : Queue) (currentTime : Timespec) : Except Fault Timespec :=
  match q.activeHead with
  | none => .ok (timespecAddMs currentTime 50)
  | some node => do
    let nd ← q.heap.load node
    .ok (if timespecCompare currentTime nd.expirationTime < 0 then nd.expirationTime
      else currentTime)

/-- `DeleteTimerQueueTimer` under the mutex. -/
def unlinkTimerQueueTimer (s : Queue) (timer : Addr) : Except Fault Queue := do
  let r ← removeTimerQueueTimer s.created.length s.heap s.activeHead timer
  .ok { s with heap := r.1, activeHead := r.2, deleted := timer :: s.deleted }

/-- `malloc` returns a new address, and a timer that is changed or deleted has not been
deleted. -/
def Admissible (q : Queue) : Call → Prop
  | .create timer _ _ _ => timer ∉ q.allocated
  | .change timer _ _ _ | .delete timer => q.Live timer
  | .destroy => True

instance (q : Queue) : (call : Call) → Decidable (Admissible q call)
  | .create timer _ _ _ => inferInstanceAs (Decidable (timer ∉ q.allocated))
  | .change timer _ _ _ | .delete timer => inferInstanceAs (Decidable (q.Live timer))
  | .destroy => inferInstanceAs (Decidable True)

/-- What a function does to the lists between taking the mutex and the signal. -/
def Call.body (q : Queue) : Call → Queue
  | .create timer tval dueTime period =>
    q.settle (createTimerQueueTimer q timer tval dueTime period)
  | .change timer tval dueTime period =>
    q.settle (changeTimerQueueTimer q timer tval dueTime period)
  | .delete timer => q.settle (unlinkTimerQueueTimer q timer)
  | .destroy => q

/-- Where a function stands when it has given the mutex back. -/
def Call.afterUnlock : Call → CallerPc
  | .create _ _ _ _ | .change _ _ _ _ => .idle
  | .delete timer => .free timer
  | .destroy => .join

variable {ι : Type*}

/-- **One step of `TimerQueueThread`**, which is thread `i`. -/
def timerQueueThread (i : ι) (s : Shared ι) : WorkerPc → Choice → Option (Shared ι × WorkerPc)
  | .lock, .go => if s.condMutex = none then some ({ s with condMutex := some i }, .clock) else none
  | .clock, .clock tval => some (s, .deadline (timespecGettimeofday tval))
  | .deadline currentTime, .go =>
    match deadline s.queue currentTime with
    | .ok timeout => some (s, .wait currentTime timeout)
    | .error f => some ({ s with queue := s.queue.settle (.error f) }, .deadline currentTime)
  -- the mutex is given back and the sleep begun at once
  | .wait currentTime timeout, .go =>
    some ({ s with condMutex := none, woken := false }, .asleep currentTime timeout)
  | .asleep _ _, .wake status => some ({ s with woken := false }, .relock status)
  | .relock status, .go =>
    if s.condMutex = none then some ({ s with condMutex := some i }, .fire status) else none
  | .fire status, .clock tval =>
    some ({ s with queue := fireExpiredTimerQueueTimers s.queue tval }, .firing status)
  | .firing status, .go =>
    match s.queue.control with
    | .firing currentTime =>
      some ({ s with queue := s.queue.settle (fireTurn s.queue currentTime) }, .firing status)
    | .idle => some (s, .unlock status)
    | _ => none
  | .unlock status, .go => some ({ s with condMutex := none }, .test status)
  | .test status, .go =>
    if (status ≠ .timedOut ∧ status ≠ .ok) ∨ s.bCancelled = true then
      some ({ s with ended := true }, .ended)
    else some (s, .lock)
  | _, _ => none

/-- **One step of another thread**, which is thread `i`. -/
def callerStep (i : ι) (s : Shared ι) : CallerPc → Choice → Option (Shared ι × CallerPc)
  | .idle, .call call => some (s, .lock call)
  | .lock call, .go =>
    if s.condMutex = none then some ({ s with condMutex := some i }, .body call) else none
  | .body call, .go =>
    if Admissible s.queue call then
      some ({ s with
        queue := call.body s.queue
        bCancelled := s.bCancelled || decide (call = .destroy) }, .signal call)
    else none
  | .signal call, .go => some ({ s with woken := true }, .unlock call)
  | .unlock call, .go => some ({ s with condMutex := none }, call.afterUnlock)
  | .free timer, .go =>
    some ({ s with queue := { s.queue with heap := Function.update s.queue.heap timer none } },
      .idle)
  | .join, .go =>
    if s.ended then
      some ({ s with queue := { s.queue with control := .moving s.queue.activeHead } }, .release)
    else none
  | .release, .go =>
    match s.queue.control with
    | .moving node => some ({ s with queue := s.queue.settle (moveTurn s.queue node) }, .release)
    | .freeing node => some ({ s with queue := s.queue.settle (freeTurn s.queue node) }, .release)
    | .destroyed => some ({ s with freed := true }, .idle)
    | _ => none
  | _, _ => none

/-- A function has touched a timer that is not there, or walks for ever. -/
def Control.isFaulted : Control → Bool
  | .faulted _ => true
  | _ => false

/-- **One step of thread `i`.** After a fault there are none. -/
def next (i : ι) (x : Choice) (s : Shared ι) (l : Local) : Option (Shared ι × Local) :=
  if s.queue.control.isFaulted then none
  else
    match l with
    | .worker pc => (timerQueueThread i s pc x).map fun r => (r.1, .worker r.2)
    | .caller pc => (callerStep i s pc x).map fun r => (r.1, .caller r.2)

/-- `CreateTimerQueue` has returned: thread `w` is the one of the queue. -/
def start [DecidableEq ι] (w : ι) : Config ι (Shared ι) Local where
  shared :=
    { queue := createTimerQueue, condMutex := none, bCancelled := false, woken := false,
      ended := false, freed := false }
  locals := fun i => if i = w then .worker .lock else .caller .idle

/-! ### The use of a queue -/

/-- The thread is in `DeleteTimerQueueEx`. -/
def Local.destroys : Local → Bool
  | .worker _ => false
  | .caller pc =>
    match pc with
    | .lock call | .body call | .signal call | .unlock call => decide (call = .destroy)
    | .join | .release => true
    | .idle | .free _ => false

/-- **The queue is not used after it has been deleted**: no function is called when
`DeleteTimerQueueEx` has been, and this is called when no other call is under way. -/
def Proper (w : ι) (c : Config ι (Shared ι) Local) : ι × Choice → Prop
  | (i, .call call) => c.shared.freed = false ∧ (∀ j, (c.locals j).destroys = false) ∧
    (call = .destroy → ∀ j, j ≠ i → j ≠ w → c.locals j = .caller .idle)
  | _ => True

instance [Fintype ι] [DecidableEq ι] (w : ι) (c : Config ι (Shared ι) Local) :
    (e : ι × Choice) → Decidable (Proper w c e)
  | (i, .call call) => inferInstanceAs (Decidable (c.shared.freed = false ∧
      (∀ j, (c.locals j).destroys = false) ∧
      (call = .destroy → ∀ j, j ≠ i → j ≠ w → c.locals j = .caller .idle)))
  | (_, .go) | (_, .clock _) | (_, .wake _) => inferInstanceAs (Decidable True)

/-! ### What a step is -/

/-- **What a step of thread `i` does**, to what the threads share and to itself. -/
inductive Step (i : ι) (s : Shared ι) : Local → Choice → Shared ι → Local → Prop
  | lock (h : s.condMutex = none) :
      Step i s (.worker .lock) .go { s with condMutex := some i } (.worker .clock)
  | clock (tval : Timeval) :
      Step i s (.worker .clock) (.clock tval) s (.worker (.deadline (timespecGettimeofday tval)))
  | deadline (currentTime timeout : Timespec) (h : deadline s.queue currentTime = .ok timeout) :
      Step i s (.worker (.deadline currentTime)) .go s (.worker (.wait currentTime timeout))
  | deadlineFault (currentTime : Timespec) (f : Fault)
      (h : deadline s.queue currentTime = .error f) :
      Step i s (.worker (.deadline currentTime)) .go
        { s with queue := s.queue.settle (.error f) } (.worker (.deadline currentTime))
  | wait (currentTime timeout : Timespec) :
      Step i s (.worker (.wait currentTime timeout)) .go
        { s with condMutex := none, woken := false } (.worker (.asleep currentTime timeout))
  | wake (currentTime timeout : Timespec) (status : Status) :
      Step i s (.worker (.asleep currentTime timeout)) (.wake status)
        { s with woken := false } (.worker (.relock status))
  | relock (status : Status) (h : s.condMutex = none) :
      Step i s (.worker (.relock status)) .go { s with condMutex := some i }
        (.worker (.fire status))
  | fire (status : Status) (tval : Timeval) :
      Step i s (.worker (.fire status)) (.clock tval)
        { s with queue := fireExpiredTimerQueueTimers s.queue tval } (.worker (.firing status))
  | fireTurn (status : Status) (currentTime : Timespec)
      (h : s.queue.control = .firing currentTime) :
      Step i s (.worker (.firing status)) .go
        { s with queue := s.queue.settle (fireTurn s.queue currentTime) }
        (.worker (.firing status))
  | fired (status : Status) (h : s.queue.control = .idle) :
      Step i s (.worker (.firing status)) .go s (.worker (.unlock status))
  | unlock (status : Status) :
      Step i s (.worker (.unlock status)) .go { s with condMutex := none } (.worker (.test status))
  | leave (status : Status)
      (h : (status ≠ .timedOut ∧ status ≠ .ok) ∨ s.bCancelled = true) :
      Step i s (.worker (.test status)) .go { s with ended := true } (.worker .ended)
  | again (status : Status) (h : s.bCancelled = false) :
      Step i s (.worker (.test status)) .go s (.worker .lock)
  | call (call : Call) : Step i s (.caller .idle) (.call call) s (.caller (.lock call))
  | callerLock (call : Call) (h : s.condMutex = none) :
      Step i s (.caller (.lock call)) .go { s with condMutex := some i } (.caller (.body call))
  | body (call : Call) (h : Admissible s.queue call) :
      Step i s (.caller (.body call)) .go
        { s with
          queue := call.body s.queue
          bCancelled := s.bCancelled || decide (call = .destroy) } (.caller (.signal call))
  | signal (call : Call) :
      Step i s (.caller (.signal call)) .go { s with woken := true } (.caller (.unlock call))
  | callerUnlock (call : Call) :
      Step i s (.caller (.unlock call)) .go { s with condMutex := none }
        (.caller call.afterUnlock)
  | free (timer : Addr) :
      Step i s (.caller (.free timer)) .go
        { s with queue := { s.queue with heap := Function.update s.queue.heap timer none } }
        (.caller .idle)
  | join (h : s.ended = true) :
      Step i s (.caller .join) .go
        { s with queue := { s.queue with control := .moving s.queue.activeHead } }
        (.caller .release)
  | move (node : Option Addr) (h : s.queue.control = .moving node) :
      Step i s (.caller .release) .go
        { s with queue := s.queue.settle (moveTurn s.queue node) } (.caller .release)
  | release (node : Option Addr) (h : s.queue.control = .freeing node) :
      Step i s (.caller .release) .go
        { s with queue := s.queue.settle (freeTurn s.queue node) } (.caller .release)
  | freed (h : s.queue.control = .destroyed) :
      Step i s (.caller .release) .go { s with freed := true } (.caller .idle)

section Steps

variable {i : ι} {s s' : Shared ι} {x : Choice} {l l' : Local}

theorem step_of_timerQueueThread {pc pc' : WorkerPc}
    (h : timerQueueThread i s pc x = some (s', pc')) :
    Step i s (.worker pc) x s' (.worker pc') := by
  unfold timerQueueThread at h
  split at h
  case h_1 =>
    split at h
    case isTrue hfree => cases h; exact .lock hfree
    case isFalse => cases h
  case h_2 => cases h; exact .clock _
  case h_3 =>
    split at h
    case h_1 timeout hdeadline => cases h; exact .deadline _ timeout hdeadline
    case h_2 f hdeadline => cases h; exact .deadlineFault _ f hdeadline
  case h_4 => cases h; exact .wait _ _
  case h_5 => cases h; exact .wake _ _ _
  case h_6 =>
    split at h
    case isTrue hfree => cases h; exact .relock _ hfree
    case isFalse => cases h
  case h_7 => cases h; exact .fire _ _
  case h_8 =>
    split at h
    case h_1 currentTime hc => cases h; exact .fireTurn _ currentTime hc
    case h_2 hc => cases h; exact .fired _ hc
    case h_3 => cases h
  case h_9 => cases h; exact .unlock _
  case h_10 =>
    split at h
    case isTrue htest => cases h; exact .leave _ htest
    case isFalse htest =>
      cases h
      exact .again _ (by simpa using (not_or.mp htest).2)
  case h_11 => cases h

theorem step_of_callerStep {pc pc' : CallerPc} (h : callerStep i s pc x = some (s', pc')) :
    Step i s (.caller pc) x s' (.caller pc') := by
  unfold callerStep at h
  split at h
  case h_1 => cases h; exact .call _
  case h_2 =>
    split at h
    case isTrue hfree => cases h; exact .callerLock _ hfree
    case isFalse => cases h
  case h_3 =>
    split at h
    case isTrue hadm => cases h; exact .body _ hadm
    case isFalse => cases h
  case h_4 => cases h; exact .signal _
  case h_5 => cases h; exact .callerUnlock _
  case h_6 => cases h; exact .free _
  case h_7 =>
    split at h
    case isTrue hended => cases h; exact .join hended
    case isFalse => cases h
  case h_8 =>
    split at h
    case h_1 node hc => cases h; exact .move node hc
    case h_2 node hc => cases h; exact .release node hc
    case h_3 hc => cases h; exact .freed hc
    case h_4 => cases h
  case h_9 => cases h

/-- **Every step is one of these**, and is not made after a fault. -/
theorem step_of_next (h : next i x s l = some (s', l')) :
    s.queue.control.isFaulted = false ∧ Step i s l x s' l' := by
  unfold next at h
  split at h
  case isTrue => cases h
  case isFalse hfault =>
    refine ⟨by simpa using hfault, ?_⟩
    split at h
    case h_1 pc =>
      obtain ⟨⟨s'', pc'⟩, hstep, hr⟩ := Option.map_eq_some_iff.mp h
      obtain ⟨rfl, rfl⟩ := Prod.mk.inj hr
      exact step_of_timerQueueThread hstep
    case h_2 pc =>
      obtain ⟨⟨s'', pc'⟩, hstep, hr⟩ := Option.map_eq_some_iff.mp h
      obtain ⟨rfl, rfl⟩ := Prod.mk.inj hr
      exact step_of_callerStep hstep

end Steps

end Timer

end Libuzi
