import Libuzi.Handle.Handle
import Libuzi.Loop
import Mathlib.Data.List.Basic
import Mathlib.Algebra.Order.Ring.Int

/-!
# Manual-reset events

`libuzi/event.c`, in its two builds. Where there is `eventfd`, an event is a counter in the
kernel: setting it adds one, and it is set when the counter is not zero. Otherwise an event
is a pipe: setting it writes a byte, unless a wait says that one is there already, and it
is set when there is a byte to read. Resetting reads for as long as a wait says that the
event is set – once for a counter, which a read clears, and once for each byte of a pipe.

The system calls are those of a run without signals and failures. What they do to the
object in the kernel is explicit (`Kernel`), the limit of the counter included: a write
that would take it beyond its greatest value fails, which is why the number of calls to
set an event in a row is bounded below.

Both builds are one boolean (`event_is_boolean`): whatever the calls, they return what the
boolean says, and so the builds cannot be told apart.
-/

namespace Libuzi

open Handle Loop

namespace Event

/-! ### The kernel's side -/

/-- Whether `HAVE_EVENTFD_H` is defined. -/
inductive Build
  | eventfd
  | pipe
  deriving DecidableEq

/-- What is behind the descriptors of an event. -/
inductive Kernel
  /-- An `eventfd`, with its counter. -/
  | eventfd (counter : ℕ)
  /-- A pipe, with the bytes that are in it. -/
  | pipe (bytes : List UInt8)
  deriving DecidableEq

/-- The greatest value of the counter of an `eventfd`. -/
def counterMax : ℕ := 2 ^ 64 - 2

/-- The poll events that hold of the descriptor an event waits on: the counter, or the end
of the pipe that is read from. -/
def Kernel.revents : Kernel → ℕ
  | .eventfd counter =>
    (if counter = 0 then 0 else pollIn) ||| (if counter < counterMax then pollOut else 0)
  | .pipe bytes => if bytes.isEmpty then 0 else pollIn

/-- `eventfd_write`, without blocking. -/
def Kernel.eventfdWrite (val : ℕ) : Kernel → Kernel × ℤ
  | .eventfd counter =>
    if counter + val ≤ counterMax then (.eventfd (counter + val), 0) else (.eventfd counter, -1)
  | k => (k, -1)

/-- `eventfd_read`, without blocking. -/
def Kernel.eventfdRead : Kernel → Kernel × ℤ
  | .eventfd counter => if counter = 0 then (.eventfd counter, -1) else (.eventfd 0, 0)
  | k => (k, -1)

/-- `write` of one byte to a pipe. -/
def Kernel.write (byte : UInt8) : Kernel → Kernel × ℤ
  | .pipe bytes => (.pipe (bytes ++ [byte]), 1)
  | k => (k, -1)

/-- `read` of one byte from a pipe. An empty pipe would block; it is read only after a wait has
reported a byte. -/
def Kernel.read : Kernel → Kernel × ℤ
  | .pipe (_ :: bytes) => (.pipe bytes, 1)
  | k => (k, -1)

/-! ### The functions -/

/-- `WINPR_EVENT`, together with what is behind its descriptors. -/
structure WinprEvent where
  /-- `Type`. -/
  type : HandleType
  /-- `Mode`. -/
  mode : ℕ
  /-- `pipe_fd`. -/
  pipeFd : ℤ × ℤ
  /-- `bAttached`. -/
  bAttached : Bool
  /-- `bManualReset`. -/
  bManualReset : Bool
  /-- The object in the kernel. -/
  kernel : Kernel
  deriving DecidableEq

/-- `EventIsHandled`. -/
def eventIsHandled (e : WinprEvent) : Bool := decide (e.type = .event)

/-- `EventGetFd`. -/
def eventGetFd (e : WinprEvent) : ℤ := if eventIsHandled e then e.pipeFd.1 else -1

/-- The table of operations of an event, which has no cleanup function. -/
def ops : HandleOps WinprEvent := { getFd := some eventGetFd, cleanupHandle := none }

/-- `waitOnFd`, with a timeout of zero: the number of descriptors that `poll` reports. -/
def waitOnFd (e : WinprEvent) : ℤ :=
  if e.kernel.revents &&& handleModeToPollevent e.mode = 0 then 0 else 1

/-- **`WaitForSingleObject(hEvent, 0)`**, for an event. -/
def waitForSingleObject (e : WinprEvent) : WinprEvent × ℕ :=
  if winprHandleGetFd (some ops) e < 0 then (e, waitFailed)
  else if waitOnFd e < 0 then (e, waitFailed)
  else if waitOnFd e ≠ 1 then (e, waitTimeout)
  else winprHandleCleanup (some ops) e

/-- **`SetEvent`.** -/
def setEvent (b : Build) (e : WinprEvent) : WinprEvent × Bool :=
  match b with
  | .eventfd =>
    let r := e.kernel.eventfdWrite 1
    ({ e with kernel := r.1 }, decide (r.2 = 0))
  | .pipe =>
    let w := waitForSingleObject e
    if w.2 ≠ waitObject0 then
      let r := w.1.kernel.write 0x2D
      ({ w.1 with kernel := r.1 }, decide (r.2 = 1))
    else (w.1, true)

/-- The test of the loop of `ResetEvent`, whose state is the object in the kernel and
`status`. -/
def resetGuard (e : WinprEvent) (s : Kernel × Bool) : Bool :=
  s.2 && (waitForSingleObject { e with kernel := s.1 }).2 == waitObject0

/-- A round of the loop of `ResetEvent`. -/
def resetRound (b : Build) (s : Kernel × Bool) : Flow (Kernel × Bool) Unit :=
  let r := match b with
    | .eventfd => s.1.eventfdRead
    | .pipe => s.1.read
  .next (r.1, if r.2 < 0 then false else s.2)

/-- How many reads it takes until there is nothing to read. -/
def Kernel.pending : Kernel → ℕ
  | .eventfd counter => if counter = 0 then 0 else 1
  | .pipe bytes => bytes.length

/-- How many rounds the loop of `ResetEvent` makes at most. -/
def resetVariant (s : Kernel × Bool) : ℕ := if s.2 then s.1.pending else 0

/-- The outcome of the loop of `ResetEvent`. -/
def resetLoop (b : Build) (e : WinprEvent) : (Kernel × Bool) × Unit :=
  whileLoop (resetGuard e) (resetRound b) () resetVariant (e.kernel, true)

/-- **`ResetEvent`.** -/
def resetEvent (b : Build) (e : WinprEvent) : WinprEvent × Bool :=
  let out := resetLoop b e
  ({ e with kernel := out.1.1 }, out.1.2)

/-- **`CreateEventW`**, with the descriptors that the kernel has given: the counter's alone, or
those of the two ends of the pipe. A negative one says that the call has failed. -/
def createEventW (b : Build) (fds : ℤ × ℤ) (bManualReset bInitialState : Bool) :
    Option WinprEvent :=
  if !bManualReset then none
  else if fds.1 < 0 then none
  else
    let event : WinprEvent :=
      { type := .event
        mode := fdRead
        pipeFd := match b with
          | .eventfd => (fds.1, -1)
          | .pipe => fds
        bAttached := false
        bManualReset := bManualReset
        kernel := match b with
          | .eventfd => .eventfd 0
          | .pipe => .pipe [] }
    some (if bInitialState then (setEvent b event).1 else event)

/-! ### Runs -/

/-- A call on an event. -/
inductive Call
  | set
  | reset
  | wait
  deriving DecidableEq

/-- What a call returns. -/
inductive Result
  | bool (b : Bool)
  | dword (w : ℕ)
  deriving DecidableEq

/-- The event after a call, and what the call returns. -/
def exec (b : Build) (e : WinprEvent) : Call → WinprEvent × Result
  | .set => ((setEvent b e).1, .bool (setEvent b e).2)
  | .reset => ((resetEvent b e).1, .bool (resetEvent b e).2)
  | .wait => ((waitForSingleObject e).1, .dword (waitForSingleObject e).2)

/-- The event after a sequence of calls, and what they return. -/
def execAll (b : Build) : WinprEvent → List Call → WinprEvent × List Result
  | e, [] => (e, [])
  | e, c :: cs =>
    let r := exec b e c
    let out := execAll b r.1 cs
    (out.1, r.2 :: out.2)

/-- **A boolean**, which the calls set and reset and look at. -/
def specExec (signalled : Bool) : Call → Bool × Result
  | .set => (true, .bool true)
  | .reset => (false, .bool true)
  | .wait => (signalled, .dword (if signalled then waitObject0 else waitTimeout))

/-- A boolean after a sequence of calls, and what they return. -/
def specExecAll : Bool → List Call → Bool × List Result
  | s, [] => (s, [])
  | s, c :: cs =>
    let r := specExec s c
    let out := specExecAll r.1 cs
    (out.1, r.2 :: out.2)

/-- Fewer than `counterMax` calls to set the event in a row, that is, without a call to reset it
in between, of which `k` have been made. -/
def FewSets : ℕ → List Call → Prop
  | _, [] => True
  | k, .set :: cs => k + 1 < counterMax ∧ FewSets (k + 1) cs
  | _, .reset :: cs => FewSets 0 cs
  | k, .wait :: cs => FewSets k cs

/-! ### The calls on one event -/

/-- What a creation leaves in the header of an event, and no call changes. -/
structure Ready (e : WinprEvent) : Prop where
  type : e.type = .event
  mode : e.mode = fdRead
  fd : 0 ≤ e.pipeFd.1

/-- The object in the kernel is one of the build, stands for the boolean `signalled`, and has
counted at most `k` calls after the one at creation. -/
def Stands (b : Build) (signalled : Bool) (k : ℕ) (kernel : Kernel) : Prop :=
  match b with
  | .eventfd => ∃ counter, kernel = .eventfd counter ∧ (signalled = true ↔ counter ≠ 0) ∧
      counter ≤ k + 1
  | .pipe => ∃ bytes, kernel = .pipe bytes ∧ (signalled = true ↔ bytes ≠ [])

variable {b : Build} {e : WinprEvent} {signalled : Bool} {k : ℕ} {kernel : Kernel}

/-- There is something to read when `poll` reports it. -/
theorem revents_and_pollIn (kernel : Kernel) :
    kernel.revents &&& pollIn = 0 ↔ kernel.pending = 0 := by
  cases kernel with
  | eventfd counter =>
    simp only [Kernel.revents, Kernel.pending]
    split_ifs <;> decide
  | pipe bytes =>
    cases bytes with
    | nil => decide
    | cons byte bytes =>
      have hin : pollIn &&& pollIn ≠ 0 := by decide
      exact iff_of_false hin (Nat.succ_ne_zero _)

/-- **What a wait says**: whether there is something to read. -/
theorem waitForSingleObject_eq (he : Ready e) :
    waitForSingleObject e =
      (e, if e.kernel.pending = 0 then waitTimeout else waitObject0) := by
  have hmode : handleModeToPollevent e.mode = pollIn := by
    rw [he.mode]
    decide
  have hfd : winprHandleGetFd (some ops) e = e.pipeFd.1 := by
    simp only [winprHandleGetFd, ops, eventGetFd, eventIsHandled, he.type, decide_true, if_true]
  have hwait : waitOnFd e = if e.kernel.pending = 0 then 0 else 1 := by
    simp only [waitOnFd, hmode, revents_and_pollIn]
  rw [waitForSingleObject, hfd, if_neg (Int.not_lt.mpr he.fd), hwait]
  split_ifs with hpending
  all_goals first | rfl | omega

/-- An object that stands for a boolean has something to read when the boolean is true. -/
theorem Stands.pending_iff (h : Stands b signalled k kernel) :
    kernel.pending = 0 ↔ signalled = false := by
  cases b with
  | eventfd =>
    obtain ⟨counter, rfl, hcounter, -⟩ := h
    rw [Kernel.pending]
    rcases eq_or_ne counter 0 with hzero | hzero
    · simp only [if_pos hzero, true_iff]
      exact Bool.eq_false_iff.mpr fun hs => hcounter.mp hs hzero
    · simp only [if_neg hzero, hcounter.mpr hzero, Nat.one_ne_zero, Bool.true_eq_false]
  | pipe =>
    obtain ⟨bytes, rfl, hbytes⟩ := h
    rw [Kernel.pending, List.length_eq_zero_iff, ← Bool.not_eq_true, hbytes, not_not]

/-- **A wait** returns the boolean and changes nothing. -/
theorem wait_spec (he : Ready e) (h : Stands b signalled k e.kernel) :
    waitForSingleObject e = (e, if signalled then waitObject0 else waitTimeout) := by
  rw [waitForSingleObject_eq he]
  simp only [h.pending_iff]
  cases signalled <;> rfl

/-- **`SetEvent`** succeeds and sets the boolean. -/
theorem setEvent_spec (he : Ready e) (h : Stands b signalled k e.kernel) (hk : k + 1 < counterMax) :
    (setEvent b e).2 = true ∧ Ready (setEvent b e).1 ∧
      Stands b true (k + 1) (setEvent b e).1.kernel := by
  cases b with
  | eventfd =>
    obtain ⟨counter, hkernel, -, hle⟩ := h
    have hroom : counter + 1 ≤ counterMax := by omega
    have hset : setEvent .eventfd e = ({ e with kernel := .eventfd (counter + 1) }, true) := by
      simp only [setEvent, hkernel, Kernel.eventfdWrite, if_pos hroom, decide_true]
    rw [hset]
    exact ⟨rfl, ⟨he.type, he.mode, he.fd⟩, counter + 1, rfl, by simp, by omega⟩
  | pipe =>
    have hwait := wait_spec he h
    cases signalled with
    | true =>
      have hset : setEvent .pipe e = (e, true) := by
        simp only [setEvent, hwait, if_true, ne_eq, not_true, if_false]
      obtain ⟨bytes, hkernel, hbytes⟩ := h
      rw [hset]
      exact ⟨rfl, he, bytes, hkernel, hbytes⟩
    | false =>
      obtain ⟨bytes, hkernel, -⟩ := h
      have hset : setEvent .pipe e = ({ e with kernel := .pipe (bytes ++ [0x2D]) }, true) := by
        simp only [setEvent, hwait, hkernel, Kernel.write]
        rfl
      rw [hset]
      exact ⟨rfl, ⟨he.type, he.mode, he.fd⟩, bytes ++ [0x2D], rfl, by simp⟩

/-- The test of the loop of `ResetEvent`. -/
theorem resetGuard_iff (he : Ready e) (s : Kernel × Bool) :
    resetGuard e s = true ↔ s.2 = true ∧ s.1.pending ≠ 0 := by
  have hready : Ready { e with kernel := s.1 } := ⟨he.type, he.mode, he.fd⟩
  rw [resetGuard, waitForSingleObject_eq hready, Bool.and_eq_true, beq_iff_eq]
  refine and_congr_right fun _ => ?_
  simp only
  split_ifs with hpending
  · exact iff_of_false (by decide) (not_not.mpr hpending)
  · exact iff_of_true rfl hpending

/-- **A round of `ResetEvent` takes something out**, or gives up. -/
theorem decreases_resetRound (he : Ready e) :
    Decreases (resetGuard e) (resetRound b) resetVariant := by
  constructor
  · intro s hs
    obtain ⟨hstatus, hpending⟩ := (resetGuard_iff he s).mp hs
    rw [resetVariant, if_pos hstatus]
    exact Nat.pos_of_ne_zero hpending
  · rintro ⟨kernel, status⟩ s' hs hround
    obtain ⟨hstatus, hpending⟩ := (resetGuard_iff he _).mp hs
    obtain rfl : status = true := hstatus
    cases hround
    cases b with
    | eventfd =>
      cases kernel with
      | eventfd counter =>
        have hcounter : counter ≠ 0 := fun hzero => hpending (if_pos hzero)
        simp [Kernel.eventfdRead, resetVariant, Kernel.pending, hcounter]
      | pipe bytes =>
        exact Nat.pos_of_ne_zero hpending
    | pipe =>
      cases kernel with
      | eventfd counter => exact Nat.pos_of_ne_zero hpending
      | pipe bytes =>
        cases bytes with
        | nil => exact absurd rfl hpending
        | cons byte bytes => exact Nat.lt_succ_self _

/-- The loop of `ResetEvent` where there is nothing to read. -/
theorem resetLoop_done (he : Ready e) (hpending : kernel.pending = 0) :
    whileLoop (resetGuard e) (resetRound b) () resetVariant (kernel, true) =
      ((kernel, true), ()) :=
  whileLoop_done (Bool.eq_false_iff.mpr fun hs => ((resetGuard_iff he _).mp hs).2 hpending)

/-- One read clears a counter. -/
theorem resetLoop_eventfd (he : Ready e) (counter : ℕ) :
    whileLoop (resetGuard e) (resetRound .eventfd) () resetVariant (.eventfd counter, true) =
      ((.eventfd 0, true), ()) := by
  rcases eq_or_ne counter 0 with rfl | hcounter
  · exact resetLoop_done he rfl
  · have hguard : resetGuard e (.eventfd counter, true) = true :=
      (resetGuard_iff he _).mpr ⟨rfl, by simp [Kernel.pending, hcounter]⟩
    have hround : resetRound .eventfd (.eventfd counter, true) = .next (.eventfd 0, true) := by
      simp [resetRound, Kernel.eventfdRead, hcounter]
    rw [whileLoop_next (decreases_resetRound he) hguard hround]
    exact resetLoop_done he rfl

/-- As many reads as there are bytes empty a pipe. -/
theorem resetLoop_pipe (he : Ready e) (bytes : List UInt8) :
    whileLoop (resetGuard e) (resetRound .pipe) () resetVariant (.pipe bytes, true) =
      ((.pipe [], true), ()) := by
  induction bytes with
  | nil => exact resetLoop_done he rfl
  | cons byte bytes ih =>
    have hguard : resetGuard e (.pipe (byte :: bytes), true) = true :=
      (resetGuard_iff he _).mpr ⟨rfl, Nat.succ_ne_zero _⟩
    have hround : resetRound .pipe (.pipe (byte :: bytes), true) = .next (.pipe bytes, true) := rfl
    rw [whileLoop_next (decreases_resetRound he) hguard hround]
    exact ih

/-- **`ResetEvent`** succeeds and resets the boolean. -/
theorem resetEvent_spec (he : Ready e) (h : Stands b signalled k e.kernel) :
    (resetEvent b e).2 = true ∧ Ready (resetEvent b e).1 ∧
      Stands b false 0 (resetEvent b e).1.kernel := by
  cases b with
  | eventfd =>
    obtain ⟨counter, hkernel, -, -⟩ := h
    have hreset : resetEvent .eventfd e = ({ e with kernel := .eventfd 0 }, true) := by
      rw [resetEvent, resetLoop, hkernel, resetLoop_eventfd he]
    rw [hreset]
    exact ⟨rfl, ⟨he.type, he.mode, he.fd⟩, 0, rfl, by simp, Nat.zero_le _⟩
  | pipe =>
    obtain ⟨bytes, hkernel, -⟩ := h
    have hreset : resetEvent .pipe e = ({ e with kernel := .pipe [] }, true) := by
      rw [resetEvent, resetLoop, hkernel, resetLoop_pipe he]
    rw [hreset]
    exact ⟨rfl, ⟨he.type, he.mode, he.fd⟩, [], rfl, by simp⟩

/-! ### Whole runs -/

/-- A creation gives an event that stands for the initial state. -/
theorem createEventW_spec (b : Build) {fds : ℤ × ℤ} (hfds : 0 ≤ fds.1) (bInitialState : Bool) :
    ∃ e, createEventW b fds true bInitialState = some e ∧ Ready e ∧
      Stands b bInitialState 0 e.kernel := by
  have hfds' : ¬ fds.1 < 0 := Int.not_lt.mpr hfds
  simp only [createEventW, Bool.not_true, Bool.false_eq_true, if_false, if_neg hfds']
  refine ⟨_, rfl, ?_⟩
  cases b with
  | eventfd =>
    cases bInitialState with
    | false => exact ⟨⟨rfl, rfl, hfds⟩, 0, rfl, by simp, Nat.zero_le _⟩
    | true => exact ⟨⟨rfl, rfl, hfds⟩, 1, rfl, by simp, Nat.le_refl _⟩
  | pipe =>
    cases bInitialState with
    | false => exact ⟨⟨rfl, rfl, hfds⟩, [], rfl, by simp⟩
    | true =>
      have hempty : Stands .pipe false 0 (.pipe []) := ⟨[], rfl, by simp⟩
      exact (setEvent_spec ⟨rfl, rfl, hfds⟩ hempty (by decide)).2

/-- **A run of calls** from an event that stands for a boolean returns what the boolean says,
and the event stands for the boolean after it. -/
theorem execAll_spec (he : Ready e) (h : Stands b signalled k e.kernel) {cs : List Call}
    (hcs : FewSets k cs) :
    (execAll b e cs).2 = (specExecAll signalled cs).2 ∧ Ready (execAll b e cs).1 ∧
      ∃ k', Stands b (specExecAll signalled cs).1 k' (execAll b e cs).1.kernel := by
  induction cs generalizing e signalled k with
  | nil => exact ⟨rfl, he, k, h⟩
  | cons c cs ih =>
    cases c with
    | set =>
      obtain ⟨hret, he', h'⟩ := setEvent_spec he h hcs.1
      obtain ⟨hrets, hrest⟩ := ih he' h' hcs.2
      refine ⟨?_, hrest⟩
      simp only [execAll, exec, specExecAll, specExec, hret, hrets]
    | reset =>
      obtain ⟨hret, he', h'⟩ := resetEvent_spec he h
      obtain ⟨hrets, hrest⟩ := ih he' h' hcs
      refine ⟨?_, hrest⟩
      simp only [execAll, exec, specExecAll, specExec, hret, hrets]
    | wait =>
      obtain ⟨hrets, hrest⟩ := ih he h hcs
      simp only [execAll, exec, specExecAll, specExec, wait_spec he h, hrets]
      exact ⟨trivial, hrest⟩

/-- **A manual-reset event is a boolean**, in both builds: a creation succeeds, and the calls
of any run return what they return for a boolean that starts in the initial state. In the
state after the run a wait returns the boolean and changes nothing, and the loop of
`ResetEvent` comes to an end. So the two builds give the same results. -/
theorem event_is_boolean (fds : Build → ℤ × ℤ) (hfds : ∀ b, 0 ≤ (fds b).1) (bInitialState : Bool)
    (cs : List Call) (hcs : FewSets 0 cs) :
    ∃ e : Build → WinprEvent, (∀ b, createEventW b (fds b) true bInitialState = some (e b)) ∧
      (∀ b, (execAll b (e b) cs).2 = (specExecAll bInitialState cs).2 ∧
        waitForSingleObject (execAll b (e b) cs).1 = ((execAll b (e b) cs).1,
          if (specExecAll bInitialState cs).1 then waitObject0 else waitTimeout) ∧
        Exits (resetGuard (execAll b (e b) cs).1) (resetRound b) ()
          ((execAll b (e b) cs).1.kernel, true) (resetLoop b (execAll b (e b) cs).1)) ∧
      (execAll .eventfd (e .eventfd) cs).2 = (execAll .pipe (e .pipe) cs).2 := by
  choose e hcreate hready hstands using
    fun b => createEventW_spec b (hfds b) bInitialState
  have hrun := fun b => execAll_spec (hready b) (hstands b) hcs
  refine ⟨e, hcreate, fun b => ?_, (hrun .eventfd).1.trans (hrun .pipe).1.symm⟩
  obtain ⟨hrets, hready', k, hstands'⟩ := hrun b
  exact ⟨hrets, wait_spec hready' hstands', exits_whileLoop (decreases_resetRound hready') _⟩

/-- An event that is created set, set twice more, reset and set again. -/
theorem event_is_boolean_reset :
    ∃ e : Build → WinprEvent, (∀ b, createEventW b (3, 4) true true = some (e b)) ∧
      ∀ b, (execAll b (e b) [.wait, .set, .set, .reset, .wait, .set, .wait]).2 =
        [.dword 0, .bool true, .bool true, .bool true, .dword 0x102, .bool true, .dword 0] := by
  obtain ⟨e, hcreate, hrun, -⟩ := event_is_boolean (fun _ => (3, 4)) (fun _ => by decide) true
    [.wait, .set, .set, .reset, .wait, .set, .wait] (by simp [FewSets, counterMax])
  exact ⟨e, hcreate, fun b => (hrun b).1⟩

end Event

end Libuzi
