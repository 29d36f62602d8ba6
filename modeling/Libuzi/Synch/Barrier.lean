import Libuzi.Threads
import Libuzi.Interlocked

/-!
# Synchronization barriers, step by step

The barrier of `libuzi/barrier.c`: `winpr_InitializeSynchronizationBarrier`,
`winpr_EnterSynchronizationBarrier` and `winpr_DeleteSynchronizationBarrier`, run
by threads `ι` that enter again and again. Every load, store, interlocked
operation, `SetEvent`, `ResetEvent`, `CloseHandle` and `WaitForSingleObject` is one
step; a wait is enabled while its event – a manual-reset one – is signalled.

A barrier alternates between two events. The current one is in `Reserved3[0]`; the
last thread of a phase resets the dormant one, resets the counter, exchanges the
two and signals the one that was current. Threads of the phase that spin watch
`Reserved3[0]`, threads that block wait for the event they found there.

Who calls what is up to a `Barrier.Client`: either every thread enters for ever, or
every thread enters a fixed number of times and then one of them deletes the
barrier. The flags of each call are a choice of the environment.
-/

namespace Libuzi

open Runs Threads

namespace Barrier

/-- `RTL_BARRIER`, and the state of the events whose handles it holds. -/
structure Shared where
  /-- `Reserved1`: the number of threads that have not yet entered. -/
  reserved1 : ℤ
  /-- `Reserved2`: the number of threads required to enter. -/
  reserved2 : ℤ
  /-- `Reserved3[0]`: the current event. -/
  current : ℕ
  /-- `Reserved3[1]`: the dormant event. -/
  dormant : ℕ
  /-- `Reserved4`: the number of processors. -/
  reserved4 : ℕ
  /-- `Reserved5`: the spin count. -/
  reserved5 : ℤ
  /-- Which events are signalled. -/
  signalled : ℕ → Bool
  /-- The handles that have been closed. -/
  closed : List ℕ

/-- `winpr_InitializeSynchronizationBarrier`, the two `CreateEventA` calls having
returned `hEvent0` and `hEvent1`, where `0` is `NULL`. The result is the barrier, or
nothing where the function returns `FALSE`. -/
def initializeSynchronizationBarrier (dwNumberOfProcessors hEvent0 hEvent1 : ℕ)
    (lTotalThreads lSpinCount : ℤ) : Option Shared :=
  if lTotalThreads < 1 ∨ lSpinCount < -1 then none
  else if hEvent0 = 0 then none
  else if hEvent1 = 0 then none
  else some
    { reserved1 := lTotalThreads, reserved2 := lTotalThreads, current := hEvent0,
      dormant := hEvent1, reserved4 := dwNumberOfProcessors,
      reserved5 := if lSpinCount = -1 then 2000 else lSpinCount,
      signalled := fun _ => false, closed := [] }

/-! ### Entering -/

/-- `SYNCHRONIZATION_BARRIER_FLAGS_SPIN_ONLY`. -/
def spinOnlyFlag : ℕ := 1

/-- `SYNCHRONIZATION_BARRIER_FLAGS_BLOCK_ONLY`. -/
def blockOnlyFlag : ℕ := 2

/-- `SYNCHRONIZATION_BARRIER_FLAGS_NO_DELETE`. -/
def noDeleteFlag : ℕ := 4

/-- Whether a flag is set in `dwFlags`. -/
def hasFlag (dwFlags flag : ℕ) : Bool := dwFlags &&& flag ≠ 0

/-- Where a thread stands in `winpr_EnterSynchronizationBarrier`; the handles are
its locals `hCurrentEvent` and `hDormantEvent`. -/
inductive EnterPc
  /-- About to load `Reserved3[0]`. -/
  | loadCurrent (dwFlags : ℕ)
  /-- About to load `Reserved3[1]`. -/
  | loadDormant (dwFlags hCurrent : ℕ)
  /-- About to decrement `Reserved1`. -/
  | decrement (dwFlags hCurrent hDormant : ℕ)
  /-- Not the last thread; about to load `Reserved4`. -/
  | loadProcessors (dwFlags hCurrent : ℕ) (remaining : ℤ)
  /-- Going to spin; about to load `Reserved5`. -/
  | loadSpinCount (dwFlags hCurrent : ℕ)
  /-- In the spin loop, about to compare `Reserved3[0]`. -/
  | spin (dwFlags hCurrent : ℕ) (dwSpinCount : ℤ) (sp : ℕ)
  /-- In `WaitForSingleObject`. -/
  | wait (hCurrent : ℕ)
  /-- The last thread; about to reset the dormant event. -/
  | resetDormant (hCurrent hDormant : ℕ)
  /-- About to load `Reserved2`. -/
  | loadTotal (hCurrent hDormant : ℕ)
  /-- About to store `Reserved1`. -/
  | storeRemaining (hCurrent hDormant : ℕ) (v : ℤ)
  /-- About to store `Reserved3[1]`. -/
  | storeDormant (hCurrent hDormant : ℕ)
  /-- About to store `Reserved3[0]`. -/
  | storeCurrent (hCurrent hDormant : ℕ)
  /-- About to signal the event that was current. -/
  | setEvent (hCurrent : ℕ)
  /-- The assertion `remainingThreads >= 0` has failed. -/
  | aborted
  deriving DecidableEq

/-- **One step of `winpr_EnterSynchronizationBarrier`**: nothing if the thread
cannot move, else the memory afterwards, and either the next place or the value
returned. -/
def enterSynchronizationBarrier (s : Shared) : EnterPc → Option (Shared × (EnterPc ⊕ Bool))
  | .loadCurrent f => some (s, .inl (.loadDormant f s.current))
  | .loadDormant f hc => some (s, .inl (.decrement f hc s.dormant))
  | .decrement f hc hd =>
    -- a `LONG` can count the threads, so nothing goes round (`Phase.long_reserved1`)
    let r := interlockedDecrement id s.reserved1
    some ({ s with reserved1 := r.1 },
      .inl (if r.2 < 0 then .aborted
        else if 0 < r.2 then .loadProcessors f hc r.2 else .resetDormant hc hd))
  | .loadProcessors f hc remaining =>
    some (s, .inl
      (if hasFlag f spinOnlyFlag || (decide (remaining < s.reserved4) && !hasFlag f blockOnlyFlag)
        then .loadSpinCount f hc else .wait hc))
  | .loadSpinCount f hc => some (s, .inl (.spin f hc s.reserved5 0))
  | .spin f hc n sp =>
    if s.current = hc then
      if !hasFlag f spinOnlyFlag then
        -- `++sp > dwSpinCount`
        some (s, .inl (if n < (sp + 1 : ℕ) then .wait hc else .spin f hc n (sp + 1)))
      else some (s, .inl (.spin f hc n sp))
    else some (s, .inr false)
  | .wait hc => if s.signalled hc then some (s, .inr false) else none
  | .resetDormant hc hd =>
    some ({ s with signalled := Function.update s.signalled hd false }, .inl (.loadTotal hc hd))
  | .loadTotal hc hd => some (s, .inl (.storeRemaining hc hd s.reserved2))
  | .storeRemaining hc hd v => some ({ s with reserved1 := v }, .inl (.storeDormant hc hd))
  | .storeDormant hc hd => some ({ s with dormant := hc }, .inl (.storeCurrent hc hd))
  | .storeCurrent hc hd => some ({ s with current := hd }, .inl (.setEvent hc))
  | .setEvent hc =>
    some ({ s with signalled := Function.update s.signalled hc true }, .inr true)
  | .aborted => none

/-! ### Deleting -/

/-- Where a thread stands in `winpr_DeleteSynchronizationBarrier`. -/
inductive DeletePc
  /-- In the condition of the loop, about to load `Reserved1`. -/
  | loadRemaining
  /-- In the condition of the loop, about to load `Reserved2`. -/
  | loadTotal (v : ℤ)
  /-- About to test `Reserved3[0]`. -/
  | testCurrent
  /-- About to load `Reserved3[0]` for `CloseHandle`. -/
  | loadCurrent
  /-- About to close that handle. -/
  | closeCurrent (h : ℕ)
  /-- About to test `Reserved3[1]`. -/
  | testDormant
  /-- About to load `Reserved3[1]` for `CloseHandle`. -/
  | loadDormant
  /-- About to close that handle. -/
  | closeDormant (h : ℕ)
  /-- About to zero the barrier. -/
  | zero
  deriving DecidableEq

/-- **One step of `winpr_DeleteSynchronizationBarrier`**: the memory afterwards,
and the next place, or `none` for the return. -/
def deleteSynchronizationBarrier (s : Shared) : DeletePc → Shared × Option DeletePc
  | .loadRemaining => (s, some (.loadTotal s.reserved1))
  -- `SwitchToThread` changes nothing
  | .loadTotal v => (s, some (if v ≠ s.reserved2 then .loadRemaining else .testCurrent))
  | .testCurrent => (s, some (if s.current ≠ 0 then .loadCurrent else .testDormant))
  | .loadCurrent => (s, some (.closeCurrent s.current))
  | .closeCurrent h => ({ s with closed := h :: s.closed }, some .testDormant)
  | .testDormant => (s, some (if s.dormant ≠ 0 then .loadDormant else .zero))
  | .loadDormant => (s, some (.closeDormant s.dormant))
  | .closeDormant h => ({ s with closed := h :: s.closed }, some .zero)
  | .zero =>
    ({ s with
        reserved1 := 0, reserved2 := 0, current := 0, dormant := 0, reserved4 := 0,
        reserved5 := 0 }, none)

/-! ### The threads -/

/-- Where a thread stands. -/
inductive Pc
  /-- Between its own calls. -/
  | idle
  /-- In `winpr_EnterSynchronizationBarrier`. -/
  | entering (p : EnterPc)
  /-- In `winpr_DeleteSynchronizationBarrier`. -/
  | deleting (p : DeletePc)
  /-- Has deleted the barrier. -/
  | done
  deriving DecidableEq

/-- The private state of a thread. -/
structure Local where
  /-- Where it stands. -/
  pc : Pc
  /-- What its calls of `winpr_EnterSynchronizationBarrier` have returned, the first
  call first. -/
  results : List Bool
  deriving DecidableEq

/-- How the barrier is used: for ever, or for a number of phases after which one
thread deletes it. -/
inductive Client (ι : Type*)
  /-- Every thread enters again and again. -/
  | forever
  /-- Every thread enters `phases` times, and then `deleter` deletes. -/
  | thenDelete (phases : ℕ) (deleter : ι)

variable {ι : Type*}

/-- A thread that has returned from `r` calls may call again. -/
def Client.mayEnter : Client ι → ℕ → Bool
  | .forever, _ => true
  | .thenDelete phases _, r => decide (r < phases)

/-- Thread `i`, having returned from `r` calls, may delete the barrier. -/
def Client.mayDelete [DecidableEq ι] : Client ι → ι → ℕ → Bool
  | .forever, _, _ => false
  | .thenDelete phases deleter, i, r => decide (i = deleter ∧ r = phases)

/-- What a thread does next. -/
inductive Choice
  /-- Call `winpr_EnterSynchronizationBarrier` with these flags. -/
  | enter (dwFlags : ℕ)
  /-- Call `winpr_DeleteSynchronizationBarrier`. -/
  | delete
  /-- Go on with the call under way. -/
  | go
  deriving DecidableEq

/-- **One step of thread `i`.** -/
def next [DecidableEq ι] (client : Client ι) (i : ι) (a : Choice) (s : Shared) (l : Local) :
    Option (Shared × Local) :=
  match l.pc, a with
  | .idle, .enter f =>
    if client.mayEnter l.results.length then
      some (s, { l with pc := .entering (.loadCurrent f) })
    else none
  | .idle, .delete =>
    if client.mayDelete i l.results.length then
      some (s, { l with pc := .deleting .loadRemaining })
    else none
  | .entering p, .go =>
    match enterSynchronizationBarrier s p with
    | none => none
    | some (s', .inl p') => some (s', { l with pc := .entering p' })
    | some (s', .inr b) => some (s', { pc := .idle, results := l.results ++ [b] })
  | .deleting p, .go =>
    match deleteSynchronizationBarrier s p with
    | (s', some p') => some (s', { l with pc := .deleting p' })
    | (s', none) => some (s', { l with pc := .done })
  | _, _ => none

/-- **What a step of thread `i` is**: the beginning of a call, or the next step of the
call under way. -/
theorem next_cases [DecidableEq ι] {client : Client ι} {i : ι} {a : Choice} {s s' : Shared}
    {l l' : Local} (h : next client i a s l = some (s', l')) :
    (l.pc = .idle ∧ ∃ f, a = .enter f ∧ client.mayEnter l.results.length = true ∧ s' = s ∧
      l' = { l with pc := .entering (.loadCurrent f) }) ∨
    (l.pc = .idle ∧ a = .delete ∧ client.mayDelete i l.results.length = true ∧ s' = s ∧
      l' = { l with pc := .deleting .loadRemaining }) ∨
    (∃ p q, l.pc = .entering p ∧ a = .go ∧ enterSynchronizationBarrier s p = some (s', q) ∧
      l' = match q with
        | .inl p' => { l with pc := .entering p' }
        | .inr b => { pc := .idle, results := l.results ++ [b] }) ∨
    (∃ p q, l.pc = .deleting p ∧ a = .go ∧ deleteSynchronizationBarrier s p = (s', q) ∧
      l' = match q with
        | some p' => { l with pc := .deleting p' }
        | none => { l with pc := .done }) := by
  unfold next at h
  split at h
  case h_1 f hpc =>
    split at h
    next hmay =>
      obtain ⟨rfl, rfl⟩ := Prod.mk.inj (Option.some.inj h)
      exact Or.inl ⟨hpc, f, rfl, hmay, rfl, rfl⟩
    next => cases h
  case h_2 hpc =>
    split at h
    next hmay =>
      obtain ⟨rfl, rfl⟩ := Prod.mk.inj (Option.some.inj h)
      exact Or.inr (Or.inl ⟨hpc, rfl, hmay, rfl, rfl⟩)
    next => cases h
  case h_3 p hpc =>
    refine Or.inr (Or.inr (Or.inl ?_))
    rcases he : enterSynchronizationBarrier s p with _ | ⟨s₁, p₁ | b⟩ <;> rw [he] at h
    · cases h
    all_goals
      obtain ⟨rfl, rfl⟩ := Prod.mk.inj (Option.some.inj h)
      exact ⟨p, _, hpc, rfl, he, rfl⟩
  case h_4 p hpc =>
    refine Or.inr (Or.inr (Or.inr ?_))
    rcases hd : deleteSynchronizationBarrier s p with ⟨s₁, _ | p₁⟩ <;> rw [hd] at h <;>
      obtain ⟨rfl, rfl⟩ := Prod.mk.inj (Option.some.inj h) <;>
      exact ⟨p, _, hpc, rfl, hd, rfl⟩
  case h_5 => cases h

/-- The start: a freshly initialised barrier, and every thread outside it. -/
def start (ι : Type*) (s : Shared) : Config ι Shared Local where
  shared := s
  locals := fun _ => { pc := .idle, results := [] }

/-- The number of calls a thread has begun. -/
def Local.begun (l : Local) : ℕ :=
  match l.pc with
  | .entering _ => l.results.length + 1
  | _ => l.results.length

end Barrier

end Libuzi
