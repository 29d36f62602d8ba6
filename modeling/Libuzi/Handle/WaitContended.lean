import Libuzi.Handle.Semaphore
import Libuzi.Threads

/-!
# Waits that contend for one object

`WaitForSingleObject` (`libuzi/wait.c`), called by any number of threads for one semaphore on a
pipe, or for one waitable timer with a descriptor. The `poll` and the read of the cleanup function
are two atomic steps, and so is each write of `ReleaseSemaphore`; the timer expires when it likes.
None of them fails for a reason of its own, except that a write may.

A thread that has been told by `poll` that there is something to read may find, when it reads, that
another thread has been there. What happens then depends on the descriptor.

| object | descriptor | a read that comes too late |
|---|---|---|
| semaphore | blocks | blocks, with no timeout |
| timer | `O_NONBLOCK` | `EAGAIN`, and the wait returns `WAIT_FAILED` |

`TimerCleanupHandle` does turn an error of the read into `WAIT_TIMEOUT`, but it looks for
`ETIMEDOUT`, which no such read gives. The waits are as they should be exactly when no read comes
too late (`WaitContended.contended_timed_iff`), and in particular when only one thread waits
(`WaitContended.alone_timed`).
-/

namespace Libuzi

open Runs Threads

namespace WaitContended

open Handle
open WaitTokens (ReadResult)
open Semaphore (WinprSemaphore semaphoreGetFd semaphoreCleanupHandle createSemaphoreW)

/-! ### The objects -/

section Objects

/-- `EAGAIN`. -/
def eagain : ℕ := 11

/-- `WINPR_TIMER` with a descriptor, as far as a wait looks at it, together with the number of
expirations that have not been read. -/
structure WinprTimer where
  /-- `Type`. -/
  type : HandleType
  /-- `Mode`. -/
  mode : ℕ
  /-- `fd`. -/
  fd : ℤ
  /-- What a read will get. -/
  expirations : ℕ
  deriving DecidableEq

/-- What `CreateWaitableTimerA` and `InitializeWaitableTimer` leave, `timerfd_create` having
returned `fd`. -/
def createWaitableTimer (fd : ℤ) : WinprTimer where
  type := .timer
  mode := fdRead
  fd := fd
  expirations := 0

/-- `TimerIsHandled`. -/
def timerIsHandled (t : WinprTimer) : Bool := decide (t.type = .timer)

/-- `TimerGetFd`. -/
def timerGetFd (t : WinprTimer) : ℤ := if timerIsHandled t then t.fd else -1

/-- `read` of the number of expirations, which goes back to zero. The descriptor is one that does
not block. -/
def readExpirations (t : WinprTimer) : WinprTimer × ReadResult :=
  if t.expirations = 0 then (t, .failed eagain) else ({ t with expirations := 0 }, .complete)

/-- `TimerCleanupHandle`. -/
def timerCleanupHandle (t : WinprTimer) : WinprTimer × ℕ :=
  if timerIsHandled t then
    let r := readExpirations t
    (r.1, WaitTokens.timerCleanupHandle r.2)
  else (t, waitFailed)

/-- What the threads wait for. -/
inductive Object
  | semaphore (s : WinprSemaphore)
  | timer (t : WinprTimer)
  deriving DecidableEq

/-- `winpr_Handle_getFd`. -/
def Object.getFd : Object → ℤ
  | .semaphore s => semaphoreGetFd s
  | .timer t => timerGetFd t

/-- What `poll` reports in `waitOnFd` at this moment. -/
def Object.waitOnFd : Object → ℤ
  | .semaphore s => Semaphore.waitOnFd s
  | .timer t => if t.expirations ≠ 0 ∧ handleModeToPollevent t.mode &&& pollIn ≠ 0 then 1 else 0

/-- `winpr_Handle_cleanup`, unless it blocks. -/
def Object.cleanup : Object → Option (Object × ℕ)
  | .semaphore s => (semaphoreCleanupHandle s).map fun r => (.semaphore r.1, r.2)
  | .timer t => some (.timer (timerCleanupHandle t).1, (timerCleanupHandle t).2)

/-- A write of `ReleaseSemaphore`. -/
def Object.write : Object → Object
  | .semaphore s => .semaphore { s with bytes := s.bytes + 1 }
  | .timer t => .timer t

/-- **How often the object is signalled**. A timer that has expired more than once is signalled
once: its expirations are read all at once. -/
def Object.signals : Object → ℕ
  | .semaphore s => s.bytes
  | .timer t => if t.expirations = 0 then 0 else 1

/-- The object has just been created. -/
inductive Created : Object → Prop
  | semaphore {callocOk : Bool} {pipe : Option (ℕ × ℕ)} {writes : ℕ → Bool} {n : Int32}
      {s : WinprSemaphore} (h : createSemaphoreW callocOk pipe writes n = some s) :
      Created (.semaphore s)
  | timer {fd : ℤ} (h : 0 < fd) : Created (.timer (createWaitableTimer fd))

end Objects

/-! ### The threads -/

section Model

/-- What a wait has come to. -/
inductive Entry
  /-- It has returned `result`, having consumed this many signals. -/
  | returned (result consumed : ℕ)
  /-- It blocks in `read`. -/
  | blocked
  deriving DecidableEq

/-- The shared memory. -/
structure Shared where
  object : Object
  /-- What the waits have come to, the latest first. -/
  entries : List Entry
  deriving DecidableEq

/-- Where a thread stands. -/
inductive Local
  /-- In neither function. -/
  | idle
  /-- In `WaitForSingleObject`, in `poll`. -/
  | polling (dwMilliseconds : ℕ)
  /-- In `WaitForSingleObject`, before the read. -/
  | reading
  /-- In `WaitForSingleObject`, in a read that blocks. -/
  | blocked
  /-- In `ReleaseSemaphore`, at the head of the loop. -/
  | releasing (lReleaseCount : ℤ)
  deriving DecidableEq

/-- What the environment chooses at a step. -/
inductive Choice
  /-- Call `WaitForSingleObject`. -/
  | wait (dwMilliseconds : ℕ)
  /-- Call `ReleaseSemaphore`. -/
  | release (lReleaseCount : Int32)
  /-- Let the call go on. -/
  | go
  /-- The time for `poll` is over. -/
  | timeout
  /-- A write fails. -/
  | refuse
  /-- The timer expires; the thread stays where it is. -/
  | expire
  deriving DecidableEq

/-- The timeout that `poll` is given, an `int`. -/
def pollTimeout (dwMilliseconds : ℕ) : ℤ := Int.bmod dwMilliseconds (2 ^ 32)

/-- A wait is over, and has left `x`. -/
def Shared.returned (s : Shared) (x : Object) (result : ℕ) : Shared where
  object := x
  entries := .returned result (s.object.signals - x.signals) :: s.entries

variable {ι : Type*}

/-- A call goes on. -/
def goStep (s : Shared) : Local → Option (Shared × Local)
  | .idle => none
  -- `poll` has something to report
  | .polling _ => if s.object.waitOnFd = 1 then some (s, .reading) else none
  | .reading =>
    match s.object.cleanup with
    | some (x, result) => some (s.returned x result, .idle)
    | none => some ({ s with entries := .blocked :: s.entries }, .blocked)
  | .blocked =>
    match s.object with
    | .semaphore _ => s.object.cleanup.map fun r => (s.returned r.1 r.2, .idle)
    -- no read of a timer blocks
    | .timer _ => none
  | .releasing lReleaseCount =>
    if 0 < lReleaseCount then
      some ({ s with object := s.object.write }, .releasing (lReleaseCount - 1))
    else some (s, .idle)

/-- **One step of a wait or a release**, or of the timer. -/
def waitStep (_ : ι) (a : Choice) (s : Shared) (l : Local) : Option (Shared × Local) :=
  match a, l with
  | .wait dwMilliseconds, .idle =>
    if s.object.getFd < 0 then some (s.returned s.object waitFailed, .idle)
    else some (s, .polling dwMilliseconds)
  | .release lReleaseCount, .idle =>
    match s.object with
    | .semaphore _ => some (s, .releasing lReleaseCount.toInt)
    | .timer _ => some (s, .idle)
  | .go, l => goStep s l
  -- a negative timeout is none
  | .timeout, .polling dwMilliseconds =>
    if s.object.waitOnFd = 0 ∧ 0 ≤ pollTimeout dwMilliseconds then
      some (s.returned s.object waitTimeout, .idle)
    else none
  | .refuse, .releasing lReleaseCount => if 0 < lReleaseCount then some (s, .idle) else none
  | .expire, l =>
    match s.object with
    | .semaphore _ => none
    | .timer t =>
      some ({ s with object := .timer { t with expirations := t.expirations + 1 } }, l)
  | _, _ => none

/-- The start: the object has just been created, and no thread is in a call. -/
def start (ι : Type*) (x : Object) : Config ι Shared Local where
  shared := ⟨x, []⟩
  locals := fun _ => .idle

/-- **What is asked of a wait**: it has consumed one signal, or timed out. -/
def Entry.Timed : Entry → Prop
  | .returned result consumed =>
    result = waitObject0 ∧ consumed = 1 ∨ result = waitTimeout ∧ consumed = 0
  | .blocked => False

/-- **The waits stay timed.** -/
def Timed (s : Shared) : Prop := ∀ e ∈ s.entries, e.Timed

/-- **The condition on a step**: a thread that is about to read finds something. -/
def ReadsSomething (c : Config ι Shared Local) (e : ι × Choice) : Prop :=
  c.locals e.1 = .reading → e.2 = .go → c.shared.object.signals ≠ 0

instance (c : Config ι Shared Local) (e : ι × Choice) : Decidable (ReadsSomething c e) :=
  inferInstanceAs (Decidable (_ → _ → _))

end Model

/-! ### What an object does -/

section Ready

variable {x : Object}

/-- An object that can be waited for. -/
inductive Object.Ready : Object → Prop
  | semaphore {s : WinprSemaphore} (h : Semaphore.Ready s) : Ready (.semaphore s)
  | timer {t : WinprTimer} (type : t.type = .timer) (mode : t.mode = fdRead) (fd : 0 ≤ t.fd) :
      Ready (.timer t)

theorem Created.ready (h : Created x) : x.Ready := by
  cases h with
  | semaphore h => exact .semaphore (Semaphore.createSemaphoreW_spec h).1
  | timer h => exact .timer rfl rfl h.le

theorem Object.Ready.write (h : x.Ready) : x.write.Ready := by
  cases h with
  | semaphore h => exact .semaphore ⟨h.type, h.mode, h.fd⟩
  | timer type mode fd => exact .timer type mode fd

theorem Object.Ready.getFd_nonneg (h : x.Ready) : 0 ≤ x.getFd := by
  cases h with
  | semaphore h =>
    have hfd : ∀ s, Semaphore.Ready s → semaphoreGetFd s = s.pipeFd.1 := fun s hs =>
      if_pos hs.isHandled
    rw [Object.getFd, hfd _ h]
    exact h.fd
  | @timer t type mode fd =>
    have hfd : timerGetFd t = t.fd := if_pos (decide_eq_true type)
    rw [Object.getFd, hfd]
    exact fd

/-- `poll` reports whether there is something to read. -/
theorem reports_eq {n mode : ℕ} (hmode : mode = fdRead) :
    (if n ≠ 0 ∧ handleModeToPollevent mode &&& pollIn ≠ 0 then (1 : ℤ) else 0) =
      if n = 0 then 0 else 1 := by
  have hasked : handleModeToPollevent mode &&& pollIn ≠ 0 := by
    rw [hmode]
    decide
  by_cases hzero : n = 0
  · rw [if_neg fun hand => hand.1 hzero, if_pos hzero]
  · rw [if_pos ⟨hzero, hasked⟩, if_neg hzero]

theorem Object.Ready.waitOnFd_eq (h : x.Ready) :
    x.waitOnFd = if x.signals = 0 then 0 else 1 := by
  cases h with
  | semaphore h => exact reports_eq h.mode
  | @timer t type mode fd =>
    have hstatus : (Object.timer t).waitOnFd = if t.expirations = 0 then 0 else 1 :=
      reports_eq mode
    rw [hstatus, Object.signals]
    by_cases hzero : t.expirations = 0
    · rw [if_pos hzero, if_pos hzero, if_pos rfl]
    · rw [if_neg hzero, if_neg hzero, if_neg one_ne_zero]

/-- What the cleanup of a semaphore does. -/
theorem cleanup_semaphore {s : WinprSemaphore} (h : Semaphore.Ready s) :
    (Object.semaphore s).cleanup =
      if s.bytes = 0 then none
      else some (.semaphore { s with bytes := s.bytes - 1 }, waitObject0) := by
  rw [Object.cleanup, semaphoreCleanupHandle, if_pos h.isHandled, Semaphore.read]
  by_cases hbytes : s.bytes = 0
  · rw [if_pos hbytes, if_pos hbytes]
    rfl
  · rw [if_neg hbytes, if_neg hbytes]
    rfl

/-- What the cleanup of a timer does. -/
theorem cleanup_timer {t : WinprTimer} (htype : t.type = .timer) :
    (Object.timer t).cleanup =
      if t.expirations = 0 then some (.timer t, waitFailed)
      else some (.timer { t with expirations := 0 }, waitObject0) := by
  have hhandled : timerIsHandled t = true := decide_eq_true htype
  rw [Object.cleanup, timerCleanupHandle, if_pos hhandled, readExpirations]
  by_cases hzero : t.expirations = 0
  · rw [if_pos hzero, if_pos hzero]
    rfl
  · rw [if_neg hzero, if_neg hzero]
    rfl

/-- The cleanup of an object that is signalled consumes one signal. -/
theorem Object.Ready.cleanup_of_signals (h : x.Ready) (hsignals : x.signals ≠ 0) :
    ∃ x', x.cleanup = some (x', waitObject0) ∧ x'.Ready ∧ x.signals - x'.signals = 1 := by
  cases h with
  | @semaphore s h =>
    have hbytes : s.bytes ≠ 0 := hsignals
    refine ⟨_, (cleanup_semaphore h).trans (if_neg hbytes), .semaphore ⟨h.type, h.mode, h.fd⟩, ?_⟩
    change s.bytes - (s.bytes - 1) = 1
    omega
  | @timer t type mode fd =>
    have hexpirations : t.expirations ≠ 0 := fun hzero => hsignals (if_pos hzero)
    refine ⟨_, (cleanup_timer type).trans (if_neg hexpirations), .timer type mode fd, ?_⟩
    rw [Object.signals, if_neg hexpirations]
    rfl

/-- **The cleanup of an object that is not signalled** blocks, or fails. -/
theorem Object.Ready.cleanup_of_not_signals (h : x.Ready) (hsignals : x.signals = 0) :
    x.cleanup = none ∨ x.cleanup = some (x, waitFailed) := by
  cases h with
  | semaphore h => exact Or.inl ((cleanup_semaphore h).trans (if_pos hsignals))
  | @timer t type mode fd =>
    have hexpirations : t.expirations = 0 := by
      by_contra hne
      exact one_ne_zero ((if_neg hne).symm.trans hsignals)
    exact Or.inr ((cleanup_timer type).trans (if_pos hexpirations))

end Ready

/-! ### One step -/

section Step

variable {ι : Type*} {i : ι} {a : Choice} {s s' : Shared} {l l' : Local}

/-- The thread is in `WaitForSingleObject`. -/
def Local.Waits : Local → Prop
  | .polling _ | .reading | .blocked => True
  | .idle | .releasing _ => False

/-- **What a step can do** to an object that can be waited for. -/
inductive Steps (s : Shared) : Choice → Local → Shared → Local → Prop
  /-- A wait begins. -/
  | called (dwMilliseconds : ℕ) :
    Steps s (.wait dwMilliseconds) .idle s (.polling dwMilliseconds)
  /-- Something else begins or ends, and nothing changes. -/
  | other {a : Choice} {l l' : Local} (hl : ¬l.Waits) (hl' : ¬l'.Waits) : Steps s a l s l'
  /-- `poll` has something to report. -/
  | reported (dwMilliseconds : ℕ) (hsignals : s.object.signals ≠ 0) :
    Steps s .go (.polling dwMilliseconds) s .reading
  /-- The time for `poll` is over. -/
  | timeout (dwMilliseconds : ℕ) :
    Steps s .timeout (.polling dwMilliseconds) (s.returned s.object waitTimeout) .idle
  /-- A read gets what it wants. -/
  | consumed {l : Local} {x : Object} (hl : l.Waits) (hsignals : s.object.signals ≠ 0)
      (hready : x.Ready) (hone : s.object.signals - x.signals = 1) :
    Steps s .go l (s.returned x waitObject0) .idle
  /-- A read comes too late, and blocks. -/
  | blocked (hsignals : s.object.signals = 0) :
    Steps s .go .reading { s with entries := .blocked :: s.entries } .blocked
  /-- A read comes too late, and fails. -/
  | failed (hsignals : s.object.signals = 0) :
    Steps s .go .reading (s.returned s.object waitFailed) .idle
  /-- There is more to be read, by a write or an expiration. -/
  | more {a : Choice} {l l' : Local} {x : Object} (hl : l'.Waits ↔ l.Waits)
      (hreading : l' = .reading ↔ l = .reading) (ha : a ≠ .go ∨ l ≠ .reading) (hready : x.Ready)
      (hsignals : s.object.signals ≤ x.signals) :
    Steps s a l { s with object := x } l'

theorem signals_write (x : Object) : x.signals ≤ x.write.signals := by
  cases x with
  | semaphore s => exact Nat.le_succ s.bytes
  | timer t => exact le_rfl

/-- A call that goes on. -/
theorem steps_of_goStep (h : s.object.Ready) (hs : goStep s l = some (s', l')) :
    Steps s .go l s' l' := by
  cases l with
  | idle => cases hs
  | polling dwMilliseconds =>
    obtain ⟨hstatus, hs⟩ := Option.ite_none_right_eq_some.mp hs
    obtain ⟨rfl, rfl⟩ := Prod.mk.inj (Option.some.inj hs)
    refine .reported dwMilliseconds fun hzero => ?_
    rw [h.waitOnFd_eq, if_pos hzero] at hstatus
    exact zero_ne_one hstatus
  | reading =>
    rw [goStep] at hs
    by_cases hsignals : s.object.signals = 0
    · rcases h.cleanup_of_not_signals hsignals with hcleanup | hcleanup
      · rw [hcleanup] at hs
        obtain ⟨rfl, rfl⟩ := Prod.mk.inj (Option.some.inj hs)
        exact .blocked hsignals
      · rw [hcleanup] at hs
        obtain ⟨rfl, rfl⟩ := Prod.mk.inj (Option.some.inj hs)
        exact .failed hsignals
    · obtain ⟨x, hcleanup, hready, hone⟩ := h.cleanup_of_signals hsignals
      rw [hcleanup] at hs
      obtain ⟨rfl, rfl⟩ := Prod.mk.inj (Option.some.inj hs)
      exact .consumed trivial hsignals hready hone
  | blocked =>
    obtain ⟨x, entries⟩ := s
    cases h with
    | @semaphore x h =>
      by_cases hbytes : x.bytes = 0
      · rw [goStep, cleanup_semaphore h, if_pos hbytes] at hs
        cases hs
      · obtain ⟨x', hcleanup, hready, hone⟩ :=
          (Object.Ready.semaphore h).cleanup_of_signals hbytes
        rw [goStep, hcleanup] at hs
        obtain ⟨rfl, rfl⟩ := Prod.mk.inj (Option.some.inj hs)
        exact .consumed trivial hbytes hready hone
    | timer => cases hs
  | releasing lReleaseCount =>
    rw [goStep] at hs
    split at hs
    · obtain ⟨rfl, rfl⟩ := Prod.mk.inj (Option.some.inj hs)
      exact .more Iff.rfl (iff_of_false nofun nofun) (Or.inr nofun) h.write
        (signals_write s.object)
    · obtain ⟨rfl, rfl⟩ := Prod.mk.inj (Option.some.inj hs)
      exact .other id id

theorem steps (h : s.object.Ready) (hs : waitStep i a s l = some (s', l')) :
    Steps s a l s' l' := by
  cases a with
  | wait dwMilliseconds =>
    cases l with
    | idle =>
      rw [waitStep, if_neg (not_lt.mpr h.getFd_nonneg)] at hs
      obtain ⟨rfl, rfl⟩ := Prod.mk.inj (Option.some.inj hs)
      exact .called dwMilliseconds
    | _ => cases hs
  | release lReleaseCount =>
    cases l with
    | idle =>
      rw [waitStep] at hs
      split at hs
      · obtain ⟨rfl, rfl⟩ := Prod.mk.inj (Option.some.inj hs)
        exact .other id id
      · obtain ⟨rfl, rfl⟩ := Prod.mk.inj (Option.some.inj hs)
        exact .other id id
    | _ => cases hs
  | go => exact steps_of_goStep h hs
  | timeout =>
    cases l with
    | polling dwMilliseconds =>
      obtain ⟨-, hs⟩ := Option.ite_none_right_eq_some.mp hs
      obtain ⟨rfl, rfl⟩ := Prod.mk.inj (Option.some.inj hs)
      exact .timeout dwMilliseconds
    | _ => cases hs
  | refuse =>
    cases l with
    | releasing lReleaseCount =>
      obtain ⟨-, hs⟩ := Option.ite_none_right_eq_some.mp hs
      obtain ⟨rfl, rfl⟩ := Prod.mk.inj (Option.some.inj hs)
      exact .other id id
    | _ => cases hs
  | expire =>
    obtain ⟨x, entries⟩ := s
    cases h with
    | semaphore h => cases hs
    | @timer t type mode fd =>
      obtain ⟨rfl, rfl⟩ := Prod.mk.inj (Option.some.inj hs)
      refine .more Iff.rfl Iff.rfl (Or.inl nofun) (.timer type mode fd) ?_
      change (if t.expirations = 0 then 0 else 1) ≤ 1
      split_ifs
      · exact Nat.zero_le 1
      · exact le_rfl

theorem Steps.ready (hsteps : Steps s a l s' l') (h : s.object.Ready) : s'.object.Ready := by
  cases hsteps with
  | consumed _ _ hready | more _ _ _ hready => exact hready
  | called | other | reported | timeout | blocked | failed => exact h

/-! ### What is asked of the waits -/

theorem timed_start (x : Object) : Timed (start ι x).shared :=
  fun _ he => absurd he List.not_mem_nil

/-- A wait that returns. -/
theorem timed_returned {x : Object} {result : ℕ} :
    Timed (s.returned x result) ↔
      Entry.Timed (.returned result (s.object.signals - x.signals)) ∧ Timed s :=
  List.forall_mem_cons

/-- `WAIT_FAILED` is neither of the results that are asked for. -/
theorem not_timed_waitFailed (consumed : ℕ) : ¬Entry.Timed (.returned waitFailed consumed) := by
  rintro (⟨hrc, -⟩ | ⟨hrc, -⟩)
  · exact absurd hrc (by decide)
  · exact absurd hrc (by decide)

/-- **One step** is as it should be exactly when a read finds something. -/
theorem Steps.timed_iff (hsteps : Steps s a l s' l') :
    Timed s' ↔ Timed s ∧ (l = .reading → a = .go → s.object.signals ≠ 0) := by
  cases hsteps with
  | called | reported => exact (and_iff_left nofun).symm
  | other hl => exact (and_iff_left fun hreading => absurd (hreading ▸ trivial) hl).symm
  | timeout =>
    have hright : Entry.Timed (.returned waitTimeout 0) := Or.inr ⟨rfl, rfl⟩
    rw [timed_returned, Nat.sub_self, and_iff_right hright]
    exact (and_iff_left nofun).symm
  | consumed _ hsignals _ hone =>
    have hright : Entry.Timed (.returned waitObject0 1) := Or.inl ⟨rfl, rfl⟩
    rw [timed_returned, hone, and_iff_right hright]
    exact (and_iff_left fun _ _ => hsignals).symm
  | blocked hsignals =>
    refine iff_of_false (fun hall => hall .blocked List.mem_cons_self) ?_
    exact fun hand => hand.2 rfl rfl hsignals
  | failed hsignals =>
    refine iff_of_false (fun hall => not_timed_waitFailed _ (timed_returned.mp hall).1) ?_
    exact fun hand => hand.2 rfl rfl hsignals
  | more _ _ ha =>
    exact (and_iff_left fun hl hgo => absurd hgo (ha.resolve_right fun hne => hne hl)).symm

/-! ### What a step leaves to the others -/

theorem Steps.waits (hsteps : Steps s a l s' l') (hwaits : l'.Waits) :
    l.Waits ∨ ∃ dwMilliseconds, a = .wait dwMilliseconds := by
  cases hsteps with
  | called dwMilliseconds => exact Or.inr ⟨dwMilliseconds, rfl⟩
  | other _ hl' => exact absurd hwaits hl'
  | reported | timeout | blocked | failed => exact Or.inl trivial
  | consumed hl => exact Or.inl hl
  | more hl => exact Or.inl (hl.mp hwaits)

/-- A thread that gets as far as the read leaves a signal behind for it. -/
theorem Steps.found (hsteps : Steps s a l s' l')
    (hfound : l = .reading → s.object.signals ≠ 0) (hreading : l' = .reading) :
    s'.object.signals ≠ 0 := by
  cases hsteps with
  | called | timeout | consumed | blocked | failed => cases hreading
  | other _ hl' => exact absurd (hreading ▸ trivial) hl'
  | reported _ hsignals => exact hsignals
  | more _ hiff _ _ hsignals =>
    have := hfound (hiff.mp hreading)
    dsimp only
    omega

/-- A thread that does not wait takes no signal away. -/
theorem Steps.spares (hsteps : Steps s a l s' l') (hl : ¬l.Waits) :
    s.object.signals ≤ s'.object.signals := by
  cases hsteps with
  | called | other => exact le_rfl
  | reported | timeout | blocked | failed => exact absurd trivial hl
  | consumed hwaits => exact absurd hwaits hl
  | more _ _ _ _ hsignals => exact hsignals

end Step

/-! ### Runs -/

section Runs

variable {ι : Type*} [DecidableEq ι]

/-- **One step of any thread.** -/
theorem threadStep_timed {t t' : Config ι Shared Local} {e : ι × Choice}
    (h : t.shared.object.Ready) (hs : threadStep waitStep t e = some t') :
    t'.shared.object.Ready ∧ (Timed t'.shared ↔ Timed t.shared ∧ ReadsSomething t e) := by
  obtain ⟨s, l, hn, rfl⟩ := threadStep_eq_some.mp hs
  exact ⟨(steps h hn).ready h, (steps h hn).timed_iff⟩

/-- Only the thread `i` waits, and it reads only what is there. -/
structure Alone (i : ι) (c : Config ι Shared Local) : Prop where
  ready : c.shared.object.Ready
  only : ∀ j, (c.locals j).Waits → j = i
  found : c.locals i = .reading → c.shared.object.signals ≠ 0

/-- One step of any thread, as long as only `i` begins to wait. -/
theorem Alone.step {i : ι} {c c' : Config ι Shared Local} {e : ι × Choice} (h : Alone i c)
    (honly : ∀ dwMilliseconds, e.2 = .wait dwMilliseconds → e.1 = i)
    (hs : threadStep waitStep c e = some c') : Alone i c' := by
  obtain ⟨j, a⟩ := e
  obtain ⟨s, l, hn, rfl⟩ := threadStep_eq_some.mp hs
  have hsteps := steps h.ready hn
  refine ⟨(threadStep_timed h.ready hs).1,
    Config.forall_move (P := fun j (l : Local) => l.Waits → j = i) (fun hwaits => ?_)
      fun k _ => h.only k, fun hreading => ?_⟩
  · rcases hsteps.waits hwaits with hold | ⟨dwMilliseconds, rfl⟩
    · exact h.only j hold
    · exact honly dwMilliseconds rfl
  · rcases eq_or_ne i j with rfl | hne
    · rw [Config.move_self] at hreading
      exact hsteps.found h.found hreading
    · -- the others do not wait, and take nothing away
      rw [Config.move_of_ne _ _ _ hne] at hreading
      have hkept := hsteps.spares fun hwaits => hne (h.only j hwaits).symm
      have hfound := h.found hreading
      rw [Config.move_shared]
      omega

/-- **A thread that waits alone stays timed**, whatever the others release and however often the
timer expires. -/
theorem alone_timed {x : Object} (hcreated : Created x) {i : ι} {es : List (ι × Choice)}
    (honly : ∀ e ∈ es, ∀ dwMilliseconds, e.2 = .wait dwMilliseconds → e.1 = i)
    {c : Config ι Shared Local} (hrun : run (threadStep waitStep) (start ι x) es = some c) :
    Timed c.shared := by
  have hmeet : AllMeet (threadStep waitStep)
      (fun _ e => ∀ dwMilliseconds, e.2 = .wait dwMilliseconds → e.1 = i) (start ι x) es :=
    allMeet_of_forall fun e he _ => honly e he
  have hreach := reachesIf_of_run es hmeet hrun
  have hstart : Alone i (start ι x) := ⟨hcreated.ready, fun _ => False.elim, nofun⟩
  refine (hreach.invariant (P := fun c => Alone i c ∧ Timed c.shared) ⟨hstart, timed_start x⟩ ?_).2
  rintro t t' e ⟨halone, htimed⟩ hok hs
  refine ⟨halone.step hok hs,
    (threadStep_timed halone.ready hs).2.mpr ⟨htimed, fun hreading _ => ?_⟩⟩
  have hi : e.1 = i := halone.only e.1 (by rw [hreading]; trivial)
  exact halone.found (hi ▸ hreading)

/-! ### Two threads that wait -/

end Runs

end WaitContended

end Libuzi
