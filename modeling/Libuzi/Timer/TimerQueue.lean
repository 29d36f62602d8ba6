import Libuzi.Chain
import Libuzi.Runs
import Libuzi.Timer.Timespec

/-!
# Timer queues, pointer by pointer

The timer queue of `libuzi/timer.c`: two null-terminated lists of timers in a heap,
the active and the inactive one, and the functions that move timers between them.

A heap gives the timer at an address, if there is one. `free` takes it away, and a
step that touches an address without a timer is undefined behaviour: it ends in
`Timer.Fault.freed`. Addresses stand for allocations, so `malloc` never returns the
same one twice. The walks of `InsertTimerQueueTimer` and `RemoveTimerQueueTimer`
write nothing, so one that has taken more steps than there are timers has come back
to a timer and never ends; `Timer.Fault.hung` is that.

All functions run under the mutex of the queue. A call that ends is one step of the
queue (`Timer.step`), except that each turn of the loops of
`FireExpiredTimerQueueTimers` and `DeleteTimerQueueEx` is a step of its own, because
these loops need not end. The label of a step carries what the environment decides:
the arguments, the reading of the clock, the address `malloc` returns.

Left out are the fields that no function of the queue reads (`Flags`, `Parameter`,
`Callback`, `timerQueue` – the callback of a timer is recorded as its address), the
checks for null handles, the failure of `malloc`, and the thread, whose only effect on
the queue is to call `FireExpiredTimerQueueTimers`.
-/

namespace Libuzi

open Runs

namespace Timer

/-- The address of a timer. -/
abbrev Addr := ℕ

/-- `WINPR_TIMER_QUEUE_TIMER`. -/
structure QueueTimer where
  /-- `DueTime`, in milliseconds. -/
  dueTime : UInt32
  /-- `Period`, in milliseconds; `0` for a timer that fires once. -/
  period : UInt32
  /-- `FireCount`. -/
  fireCount : ℤ
  /-- `StartTime`. -/
  startTime : Timespec
  /-- `ExpirationTime`. -/
  expirationTime : Timespec
  /-- `next`. -/
  next : Option Addr
  deriving DecidableEq

/-- The timers in memory. -/
abbrev Heap := Addr → Option QueueTimer

/-- Why a function does not return. -/
inductive Fault
  /-- It touches this address, where there is no timer. -/
  | freed (a : Addr)
  /-- It walks for ever. -/
  | hung
  deriving DecidableEq

/-- Dereference a pointer. -/
def Heap.load (h : Heap) (a : Addr) : Except Fault QueueTimer :=
  match h a with
  | some t => .ok t
  | none => .error (.freed a)

/-- Apply `f` to the timer at `a`. -/
def Heap.modify (h : Heap) (a : Addr) (f : QueueTimer → QueueTimer) : Heap :=
  Function.update h a ((h a).map f)

/-- `a->next = p`. -/
def Heap.setNext (h : Heap) (a : Addr) (p : Option Addr) : Heap :=
  h.modify a fun t => { t with next := p }

/-! ### The lists -/

/-- The loop of `InsertTimerQueueTimer`, at `node`: the node it ends at. -/
def insertLoop (h : Heap) (expirationTime : Timespec) : ℕ → Addr → Except Fault Addr
  | 0, _ => .error .hung
  | n + 1, node => do
    let nd ← h.load node
    match nd.next with
    | none => .ok node
    | some nodeNext =>
      if 0 < timespecCompare expirationTime nd.expirationTime then
        let nn ← h.load nodeNext
        if timespecCompare expirationTime nn.expirationTime < 0 then .ok node
        else insertLoop h expirationTime n nodeNext
      else insertLoop h expirationTime n nodeNext

/-- `InsertTimerQueueTimer`: the heap and the head afterwards. -/
def insertTimerQueueTimer (fuel : ℕ) (h : Heap) (head : Option Addr) (timer : Addr) :
    Except Fault (Heap × Option Addr) := do
  let t ← h.load timer
  match head with
  | none => .ok (h.setNext timer none, some timer)
  | some first =>
    let node ← insertLoop h t.expirationTime fuel first
    let nd ← h.load node
    match nd.next with
    | some nodeNext =>
      -- `timer->next = node->next->next; node->next = timer`
      let nn ← h.load nodeNext
      .ok ((h.setNext timer nn.next).setNext node (some timer), head)
    | none => .ok ((h.setNext node (some timer)).setNext timer none, head)

/-- The loop of `RemoveTimerQueueTimer`, at `node` after `prevNode`: whether the timer is
found, and then the node before it. -/
def removeLoop (h : Heap) (timer : Addr) :
    ℕ → Option Addr → Option Addr → Except Fault (Option (Option Addr))
  | _, none, _ => .ok none
  | 0, some _, _ => .error .hung
  | n + 1, some node, prevNode =>
    if node = timer then .ok (some prevNode)
    else do
      let nd ← h.load node
      removeLoop h timer n nd.next (some node)

/-- `RemoveTimerQueueTimer`: the heap and the head afterwards. -/
def removeTimerQueueTimer (fuel : ℕ) (h : Heap) (head : Option Addr) (timer : Addr) :
    Except Fault (Heap × Option Addr) :=
  if some timer = head then do
    let t ← h.load timer
    .ok (h.setNext timer none, t.next)
  else do
    let found ← removeLoop h timer fuel head none
    match found with
    | none => .ok (h, head)
    | some prevNode =>
      let t ← h.load timer
      match prevNode with
      | some p => .ok ((h.setNext p t.next).setNext timer none, head)
      | none => .ok (h.setNext timer none, head)

/-! ### The queue -/

/-- What the queue is in the middle of. -/
inductive Control
  /-- Nothing: the mutex is free. -/
  | idle
  /-- The loop of `FireExpiredTimerQueueTimers`, which has read this time. -/
  | firing (currentTime : Timespec)
  /-- The first loop of `DeleteTimerQueueEx`, at this node. -/
  | moving (node : Option Addr)
  /-- Its second loop, at this node. -/
  | freeing (node : Option Addr)
  /-- `DeleteTimerQueueEx` is done. -/
  | destroyed
  /-- A call does not return. -/
  | faulted (f : Fault)
  deriving DecidableEq

/-- A call of `CreateTimerQueueTimer`. -/
structure Creation where
  /-- The timer it has made. -/
  timer : Addr
  /-- The time it has read. -/
  currentTime : Timespec
  /-- The argument `DueTime`. -/
  dueTime : UInt32
  /-- The argument `Period`. -/
  period : UInt32
  deriving DecidableEq

/-- `WINPR_TIMER_QUEUE` with the timers in memory, and a record of what has been done. -/
structure Queue where
  /-- The timers in memory. -/
  heap : Heap
  /-- `activeHead`. -/
  activeHead : Option Addr
  /-- `inactiveHead`. -/
  inactiveHead : Option Addr
  /-- What the queue is in the middle of. -/
  control : Control
  /-- The timers created, the last one first. -/
  created : List Creation
  /-- The timers freed by `DeleteTimerQueueTimer`. -/
  deleted : List Addr
  /-- The timers whose callbacks have been invoked, the last one first. -/
  fired : List Addr
  /-- The times at which `FireExpiredTimerQueueTimers` has been called, the last one
  first. -/
  fireTimes : List Timespec

/-- The addresses that `malloc` has returned. -/
def Queue.allocated (s : Queue) : List Addr := s.created.map Creation.timer

/-- `CreateTimerQueue`. -/
def createTimerQueue : Queue where
  heap _ := none
  activeHead := none
  inactiveHead := none
  control := .idle
  created := []
  deleted := []
  fired := []
  fireTimes := []

/-- A call that has faulted leaves the queue where it is. -/
def Queue.settle (s : Queue) : Except Fault Queue → Queue
  | .ok s' => s'
  | .error f => { s with control := .faulted f }

/-- `CreateTimerQueueTimer`, `malloc` having returned `timer` and the clock `tval`. -/
def createTimerQueueTimer (s : Queue) (timer : Addr) (tval : Timeval) (dueTime period : UInt32) :
    Except Fault Queue := do
  let currentTime := timespecGettimeofday tval
  let startTime := timespecAddMs currentTime dueTime
  let t : QueueTimer :=
    { dueTime := dueTime, period := period, fireCount := 0, startTime := startTime,
      expirationTime := startTime, next := none }
  let r ← insertTimerQueueTimer (s.created.length + 1) (Function.update s.heap timer (some t))
    s.activeHead timer
  .ok
    { s with
      heap := r.1
      activeHead := r.2
      created := { timer, currentTime, dueTime, period } :: s.created }

/-- `ChangeTimerQueueTimer`, the clock having returned `tval`. -/
def changeTimerQueueTimer (s : Queue) (timer : Addr) (tval : Timeval) (dueTime period : UInt32) :
    Except Fault Queue := do
  let startTime := timespecAddMs (timespecGettimeofday tval) dueTime
  let r ← removeTimerQueueTimer s.created.length s.heap s.activeHead timer
  let r' ← removeTimerQueueTimer s.created.length r.1 s.inactiveHead timer
  let h := r'.1.modify timer fun t =>
    { t with
      dueTime := dueTime, period := period, next := none, startTime := startTime,
      expirationTime := startTime }
  let r'' ← insertTimerQueueTimer s.created.length h r.2 timer
  .ok { s with heap := r''.1, activeHead := r''.2, inactiveHead := r'.2 }

/-- `FireExpiredTimerQueueTimers` up to its loop, the clock returning `tval`. -/
def fireExpiredTimerQueueTimers (s : Queue) (tval : Timeval) : Queue :=
  { s with
    control := if s.activeHead.isSome then .firing (timespecGettimeofday tval) else .idle
    fireTimes := timespecGettimeofday tval :: s.fireTimes }

/-- One turn of the loop of `FireExpiredTimerQueueTimers`, or its end. -/
def fireTurn (s : Queue) (currentTime : Timespec) : Except Fault Queue :=
  match s.activeHead with
  | none => .ok { s with control := .idle }
  | some node => do
    let nd ← s.heap.load node
    if 0 ≤ timespecCompare currentTime nd.expirationTime then
      let h := s.heap.modify node fun t => { t with fireCount := t.fireCount + 1, next := none }
      if nd.period ≠ 0 then
        let h' := h.modify node fun t =>
          { t with expirationTime := timespecAddMs t.expirationTime t.period }
        let r ← insertTimerQueueTimer s.created.length h' nd.next node
        .ok { s with heap := r.1, activeHead := r.2, fired := node :: s.fired }
      else
        let r ← insertTimerQueueTimer s.created.length h s.inactiveHead node
        .ok
          { s with
            heap := r.1
            activeHead := nd.next
            inactiveHead := r.2
            fired := node :: s.fired }
    else .ok { s with control := .idle }

/-- `DeleteTimerQueueTimer`. -/
def deleteTimerQueueTimer (s : Queue) (timer : Addr) : Except Fault Queue := do
  let r ← removeTimerQueueTimer s.created.length s.heap s.activeHead timer
  .ok
    { s with
      heap := Function.update r.1 timer none
      activeHead := r.2
      deleted := timer :: s.deleted }

/-- One turn of the first loop of `DeleteTimerQueueEx`, or its end. -/
def moveTurn (s : Queue) : Option Addr → Except Fault Queue
  | none => .ok { s with activeHead := none, control := .freeing s.inactiveHead }
  | some node => do
    let r ← insertTimerQueueTimer s.created.length s.heap s.inactiveHead node
    let nd ← Heap.load r.1 node
    .ok { s with heap := r.1, inactiveHead := r.2, control := .moving nd.next }

/-- One turn of the second loop of `DeleteTimerQueueEx`, or its end. -/
def freeTurn (s : Queue) : Option Addr → Except Fault Queue
  | none => .ok { s with inactiveHead := none, control := .destroyed }
  | some node => do
    let nd ← s.heap.load node
    .ok { s with heap := Function.update s.heap node none, control := .freeing nd.next }

/-- What happens next to a queue. -/
inductive Label
  /-- `CreateTimerQueueTimer`. -/
  | create (timer : Addr) (tval : Timeval) (dueTime period : UInt32)
  /-- `ChangeTimerQueueTimer`. -/
  | change (timer : Addr) (tval : Timeval) (dueTime period : UInt32)
  /-- `FireExpiredTimerQueueTimers`. -/
  | fire (tval : Timeval)
  /-- `DeleteTimerQueueTimer`. -/
  | delete (timer : Addr)
  /-- `DeleteTimerQueueEx`. -/
  | destroy
  /-- The next turn of the loop under way. -/
  | turn
  deriving DecidableEq

/-- The timer is one of the queue, and has not been deleted. -/
def Queue.Live (s : Queue) (timer : Addr) : Prop := timer ∈ s.allocated ∧ timer ∉ s.deleted

instance (s : Queue) (timer : Addr) : Decidable (s.Live timer) :=
  inferInstanceAs (Decidable (_ ∧ _))

/-- **One step of a timer queue.** Calls are made with the mutex free, and on timers of
the queue that have not been deleted; `malloc` returns a new address. -/
def step (s : Queue) : Label → Option Queue
  | .create timer tval dueTime period =>
    if s.control = .idle ∧ timer ∉ s.allocated then
      some (s.settle (createTimerQueueTimer s timer tval dueTime period))
    else none
  | .change timer tval dueTime period =>
    if s.control = .idle ∧ s.Live timer then
      some (s.settle (changeTimerQueueTimer s timer tval dueTime period))
    else none
  | .fire tval =>
    if s.control = .idle then some (fireExpiredTimerQueueTimers s tval) else none
  | .delete timer =>
    if s.control = .idle ∧ s.Live timer then some (s.settle (deleteTimerQueueTimer s timer))
    else none
  | .destroy =>
    if s.control = .idle then some { s with control := .moving s.activeHead } else none
  | .turn =>
    match s.control with
    | .firing currentTime => some (s.settle (fireTurn s currentTime))
    | .moving node => some (s.settle (moveTurn s node))
    | .freeing node => some (s.settle (freeTurn s node))
    | _ => none

end Timer

end Libuzi
