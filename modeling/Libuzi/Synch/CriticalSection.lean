import Libuzi.Threads
import Libuzi.Interlocked

/-!
# Critical sections, step by step

The critical section of `libuzi/critical.c`, run by any number of threads. Every
load, store, interlocked operation, `sem_wait` and `sem_post` of
`EnterCriticalSection`, `TryEnterCriticalSection` and `LeaveCriticalSection` is
one step; `RecursionCount++` is a load and a store, as it is in the source. The
semaphore is a counter that starts at zero, and `sem_wait` is enabled while it
is positive.

`LockCount` and `RecursionCount` are `LONG`s, and go round. What they keep of a
result is a parameter `keep` of the steps: `long` for the code, with which they are
numbers of 32 bits in every state (`Critical.counters_long`), and `id` for the same
steps with numbers that are not bounded. `Critical.Fits` says of a step that
`RecursionCount++` does not overflow in it, nor `LockCount` come round to `-1`.

| in the source | here |
|---|---|
| the `CRITICAL_SECTION` | `CriticalSection` |
| a line of `TryEnterCriticalSection` | `Critical.TryPc` |
| a line of `EnterCriticalSection` | `Critical.EnterPc` |
| a line of `LeaveCriticalSection` | `Critical.LeavePc` |

`EnterCriticalSection` calls `TryEnterCriticalSection`, so a place in the former
may be a place in the latter (`Critical.EnterPc.tryEnter`). A thread calls what
it likes, except that it leaves only a section it holds; `Critical.Local.depth`
counts its successful calls of `Enter` and `TryEnter` less its completed calls of
`Leave`, and is read by no step of the code.
-/

namespace Libuzi

open Runs Threads Counters

/-- `RTL_CRITICAL_SECTION`, without `DebugInfo`, which nothing reads. -/
@[ext] structure CriticalSection where
  /-- `LockCount`: the number of calls that have entered or wait to, minus one. -/
  lockCount : ℤ
  /-- `RecursionCount`: how many times the owner has entered. -/
  recursionCount : ℤ
  /-- The id of the owner; `0` is `NULL`. -/
  owningThread : ℕ
  /-- The value of the semaphore. -/
  lockSemaphore : ℕ
  /-- How often to spin before blocking. -/
  spinCount : ℕ
  deriving DecidableEq

/-- `SetCriticalSectionSpinCount`, on a system with this many processors: the
section afterwards, and the previous spin count. -/
def setCriticalSectionSpinCount (dwNumberOfProcessors : ℕ) (cs : CriticalSection)
    (dwSpinCount : ℕ) : CriticalSection × ℕ :=
  -- don't spin on uniprocessor systems
  ({ cs with
      spinCount := if dwSpinCount ≠ 0 ∧ dwNumberOfProcessors < 2 then 0 else dwSpinCount },
    cs.spinCount)

/-- `InitializeCriticalSectionEx`, given whether `malloc` and `sem_init` succeed:
the section if it returns `TRUE`, nothing if it returns `FALSE`. -/
def initializeCriticalSectionEx (mallocOk semInitOk : Bool) (dwNumberOfProcessors dwSpinCount
    flags : ℕ) : Option CriticalSection :=
  if flags ≠ 0 then none
  else if !mallocOk then none
  else if !semInitOk then none
  else some (setCriticalSectionSpinCount dwNumberOfProcessors
    { lockCount := -1, recursionCount := 0, owningThread := 0, lockSemaphore := 0,
      spinCount := 0 } dwSpinCount).1

namespace Critical

/-! ### The three functions -/

/-- Where a thread stands in `TryEnterCriticalSection`. -/
inductive TryPc
  /-- About to compare-exchange `LockCount`. -/
  | cas
  /-- Got the lock; about to store `RecursionCount = 1`. -/
  | setRecursion
  /-- About to store `OwningThread`. -/
  | setOwner
  /-- The section was locked; about to compare `OwningThread`. -/
  | loadOwner
  /-- Recursion: about to load `RecursionCount`. -/
  | loadRecursion
  /-- About to store `RecursionCount`, which read `v`, incremented. -/
  | storeRecursion (v : ℤ)
  /-- About to increment `LockCount`. -/
  | increment
  deriving DecidableEq

/-- **One step of `TryEnterCriticalSection`** by the thread with id `self`: the
section afterwards, and either the next place or the value returned. -/
def tryEnterCriticalSection (keep : ℤ → ℤ) (self : ℕ) (cs : CriticalSection) :
    TryPc → CriticalSection × (TryPc ⊕ Bool)
  | .cas =>
    let r := interlockedCompareExchange cs.lockCount 0 (-1)
    ({ cs with lockCount := r.1 }, .inl (if r.2 = -1 then .setRecursion else .loadOwner))
  | .setRecursion => ({ cs with recursionCount := 1 }, .inl .setOwner)
  | .setOwner => ({ cs with owningThread := self }, .inr true)
  | .loadOwner => (cs, if cs.owningThread = self then .inl .loadRecursion else .inr false)
  | .loadRecursion => (cs, .inl (.storeRecursion cs.recursionCount))
  | .storeRecursion v => ({ cs with recursionCount := keep (v + 1) }, .inl .increment)
  | .increment => ({ cs with lockCount := (interlockedIncrement keep cs.lockCount).1 }, .inr true)

/-- Where a thread stands in `EnterCriticalSection`. -/
inductive EnterPc
  /-- About to load `SpinCount`. -/
  | loadSpin
  /-- In the call of `TryEnterCriticalSection`, the local `SpinCount` being `n`. -/
  | tryEnter (n : ℕ) (p : TryPc)
  /-- At `SpinCount--` in the condition of the loop. -/
  | spin (n : ℕ)
  /-- About to load `LockCount` in the condition of the loop. -/
  | loadLock (n : ℕ)
  /-- About to compare-exchange `LockCount` in the loop. -/
  | spinCas (n : ℕ)
  /-- Got the lock in the loop; about to store `RecursionCount = 1`. -/
  | spinSetRecursion
  /-- About to store `OwningThread` in the loop. -/
  | spinSetOwner
  /-- About to increment `LockCount`. -/
  | increment
  /-- The section was locked; about to compare `OwningThread`. -/
  | loadOwner
  /-- Recursion: about to load `RecursionCount`. -/
  | loadRecursion
  /-- About to store `RecursionCount`, which read `v`, incremented. -/
  | storeRecursion (v : ℤ)
  /-- In `_WaitForCriticalSection`. -/
  | wait
  /-- Got the lock; about to store `RecursionCount = 1`. -/
  | setRecursion
  /-- About to store `OwningThread`. -/
  | setOwner
  deriving DecidableEq

/-- **One step of `EnterCriticalSection`** by the thread with id `self`: nothing
if the thread is blocked, else the section afterwards and the next place, or
`none` for the return. -/
def enterCriticalSection (keep : ℤ → ℤ) (self : ℕ) (cs : CriticalSection) :
    EnterPc → Option (CriticalSection × Option EnterPc)
  | .loadSpin => some (cs, some (if cs.spinCount ≠ 0 then .tryEnter cs.spinCount .cas else .spin 0))
  | .tryEnter n p =>
    match tryEnterCriticalSection keep self cs p with
    | (cs', .inl p') => some (cs', some (.tryEnter n p'))
    | (cs', .inr true) => some (cs', none)
    | (cs', .inr false) => some (cs', some (.spin n))
  -- `SpinCount--` is zero: the loop is over, and `SpinCount` is not read again
  | .spin 0 => some (cs, some .increment)
  | .spin (n + 1) => some (cs, some (.loadLock n))
  | .loadLock n => some (cs, some (if cs.lockCount < 1 then .spinCas n else .increment))
  | .spinCas n =>
    let r := interlockedCompareExchange cs.lockCount 0 (-1)
    -- on failure `sched_yield` and perhaps `usleep`, which change nothing
    some ({ cs with lockCount := r.1 }, some (if r.2 = -1 then .spinSetRecursion else .spin n))
  | .spinSetRecursion => some ({ cs with recursionCount := 1 }, some .spinSetOwner)
  | .spinSetOwner => some ({ cs with owningThread := self }, none)
  | .increment =>
    let r := interlockedIncrement keep cs.lockCount
    some ({ cs with lockCount := r.1 }, some (if r.2 ≠ 0 then .loadOwner else .setRecursion))
  | .loadOwner => some (cs, some (if cs.owningThread = self then .loadRecursion else .wait))
  | .loadRecursion => some (cs, some (.storeRecursion cs.recursionCount))
  | .storeRecursion v => some ({ cs with recursionCount := keep (v + 1) }, none)
  | .wait =>
    if 0 < cs.lockSemaphore then
      some ({ cs with lockSemaphore := cs.lockSemaphore - 1 }, some .setRecursion)
    else none
  | .setRecursion => some ({ cs with recursionCount := 1 }, some .setOwner)
  | .setOwner => some ({ cs with owningThread := self }, none)

/-- Where a thread stands in `LeaveCriticalSection`. -/
inductive LeavePc
  /-- About to load `RecursionCount`. -/
  | loadRecursion
  /-- About to store `RecursionCount`, which read `v`, decremented. -/
  | storeRecursion (v : ℤ)
  /-- The last leave; about to store `OwningThread = NULL`. -/
  | clearOwner
  /-- About to decrement `LockCount` and look at the result. -/
  | unlock
  /-- In `_UnWaitCriticalSection`. -/
  | post
  /-- Not the last leave; about to decrement `LockCount`. -/
  | decrement
  deriving DecidableEq

/-- **One step of `LeaveCriticalSection`**: the section afterwards, and the next
place, or `none` for the return. -/
def leaveCriticalSection (keep : ℤ → ℤ) (cs : CriticalSection) :
    LeavePc → CriticalSection × Option LeavePc
  | .loadRecursion => (cs, some (.storeRecursion cs.recursionCount))
  | .storeRecursion v =>
    ({ cs with recursionCount := keep (v - 1) },
      some (if keep (v - 1) < 1 then .clearOwner else .decrement))
  | .clearOwner => ({ cs with owningThread := 0 }, some .unlock)
  | .unlock =>
    let r := interlockedDecrement keep cs.lockCount
    ({ cs with lockCount := r.1 }, if 0 ≤ r.2 then some .post else none)
  | .post => ({ cs with lockSemaphore := cs.lockSemaphore + 1 }, none)
  | .decrement => ({ cs with lockCount := (interlockedDecrement keep cs.lockCount).1 }, none)

/-! ### The threads -/

/-- Where a thread stands: in one of the three functions, or outside them. -/
inductive Pc
  /-- Between its own calls. -/
  | idle
  /-- In `EnterCriticalSection`. -/
  | entering (p : EnterPc)
  /-- In `TryEnterCriticalSection`. -/
  | trying (p : TryPc)
  /-- In `LeaveCriticalSection`. -/
  | leaving (p : LeavePc)
  deriving DecidableEq

/-- The private state of a thread. -/
structure Local where
  /-- Where it stands. -/
  pc : Pc
  /-- Its current nesting depth: calls of `Enter` and `TryEnter` that returned
  with the section held, less calls of `Leave` that returned. -/
  depth : ℕ
  deriving DecidableEq

/-- What a thread does next. -/
inductive Choice
  /-- Call `EnterCriticalSection`. -/
  | enter
  /-- Call `TryEnterCriticalSection`. -/
  | tryEnter
  /-- Call `LeaveCriticalSection`. -/
  | leave
  /-- Go on with the call under way. -/
  | go
  deriving DecidableEq

variable {ι : Type*}

/-- **One step of thread `i`**, `GetCurrentThreadId` returning `tid i` to it. Only
a thread that holds the section calls `LeaveCriticalSection`. -/
def next (keep : ℤ → ℤ) (tid : ι → ℕ) (i : ι) (a : Choice) (cs : CriticalSection) (l : Local) :
    Option (CriticalSection × Local) :=
  match l.pc, a with
  | .idle, .enter => some (cs, { l with pc := .entering .loadSpin })
  | .idle, .tryEnter => some (cs, { l with pc := .trying .cas })
  | .idle, .leave =>
    if 0 < l.depth then some (cs, { l with pc := .leaving .loadRecursion }) else none
  | .entering p, .go =>
    match enterCriticalSection keep (tid i) cs p with
    | none => none
    | some (cs', some p') => some (cs', { l with pc := .entering p' })
    | some (cs', none) => some (cs', { pc := .idle, depth := l.depth + 1 })
  | .trying p, .go =>
    match tryEnterCriticalSection keep (tid i) cs p with
    | (cs', .inl p') => some (cs', { l with pc := .trying p' })
    | (cs', .inr true) => some (cs', { pc := .idle, depth := l.depth + 1 })
    | (cs', .inr false) => some (cs', { l with pc := .idle })
  | .leaving p, .go =>
    match leaveCriticalSection keep cs p with
    | (cs', some p') => some (cs', { l with pc := .leaving p' })
    | (cs', none) => some (cs', { pc := .idle, depth := l.depth - 1 })
  | _, _ => none

/-! ### Counters that do not come round -/

/-- With the next step in `TryEnterCriticalSection`, `RecursionCount++` does not overflow, nor
does `LockCount` come round to `-1`. -/
def TryPc.Fits (keep : ℤ → ℤ) (cs : CriticalSection) : TryPc → Prop
  | .storeRecursion v => keep (v + 1) = v + 1
  | .increment => keep (cs.lockCount + 1) ≠ -1
  | _ => True

/-- With the next step in `EnterCriticalSection`. -/
def EnterPc.Fits (keep : ℤ → ℤ) (cs : CriticalSection) : EnterPc → Prop
  | .tryEnter _ p => p.Fits keep cs
  | .storeRecursion v => keep (v + 1) = v + 1
  | .increment => keep (cs.lockCount + 1) ≠ -1
  | _ => True

/-- With the next step of a thread. -/
def Pc.Fits (keep : ℤ → ℤ) (cs : CriticalSection) : Pc → Prop
  | .entering p => p.Fits keep cs
  | .trying p => p.Fits keep cs
  | _ => True

/-- **No counter comes round in the step**: the condition on a step, which is about the thread
that moves. -/
def Fits (keep : ℤ → ℤ) (c : Config ι CriticalSection Local) (e : ι × Choice) : Prop :=
  (c.locals e.1).pc.Fits keep c.shared

instance TryPc.decidableFits (keep : ℤ → ℤ) (cs : CriticalSection) :
    (p : TryPc) → Decidable (p.Fits keep cs)
  | .storeRecursion v => inferInstanceAs (Decidable (keep (v + 1) = v + 1))
  | .increment => inferInstanceAs (Decidable (keep (cs.lockCount + 1) ≠ -1))
  | .cas | .setRecursion | .setOwner | .loadOwner | .loadRecursion =>
    inferInstanceAs (Decidable True)

instance EnterPc.decidableFits (keep : ℤ → ℤ) (cs : CriticalSection) :
    (p : EnterPc) → Decidable (p.Fits keep cs)
  | .tryEnter _ p => TryPc.decidableFits keep cs p
  | .storeRecursion v => inferInstanceAs (Decidable (keep (v + 1) = v + 1))
  | .increment => inferInstanceAs (Decidable (keep (cs.lockCount + 1) ≠ -1))
  | .loadSpin | .spin _ | .loadLock _ | .spinCas _ | .spinSetRecursion | .spinSetOwner
  | .loadOwner | .loadRecursion | .wait | .setRecursion | .setOwner =>
    inferInstanceAs (Decidable True)

instance Pc.decidableFits (keep : ℤ → ℤ) (cs : CriticalSection) :
    (p : Pc) → Decidable (p.Fits keep cs)
  | .entering p => EnterPc.decidableFits keep cs p
  | .trying p => TryPc.decidableFits keep cs p
  | .idle | .leaving _ => inferInstanceAs (Decidable True)

instance (keep : ℤ → ℤ) (c : Config ι CriticalSection Local) (e : ι × Choice) :
    Decidable (Fits keep c e) :=
  inferInstanceAs (Decidable ((c.locals e.1).pc.Fits keep c.shared))

/-- The start: a freshly initialised section, and every thread outside it. -/
def start (ι : Type*) (cs : CriticalSection) : Config ι CriticalSection Local where
  shared := cs
  locals := fun _ => { pc := .idle, depth := 0 }

/-! ### The counters are `LONG`s -/

/-- The counters are what is kept of them. -/
structure Kept (keep : ℤ → ℤ) (cs : CriticalSection) : Prop where
  lock : keep cs.lockCount = cs.lockCount
  recursion : keep cs.recursionCount = cs.recursionCount

section Kept

variable {keep : ℤ → ℤ} {cs cs' : CriticalSection} {self : ℕ}

/-- `InterlockedCompareExchange` stores what is kept. -/
theorem Kept.exchange (hk : Counter keep) (h : Kept keep cs) :
    Kept keep { cs with lockCount := (interlockedCompareExchange cs.lockCount 0 (-1)).1 } := by
  refine ⟨?_, h.recursion⟩
  by_cases hfree : cs.lockCount = -1
  · simp only [interlockedCompareExchange, if_pos hfree]
    exact hk.keep_small 0 (by decide) (by decide)
  · simp only [interlockedCompareExchange, if_neg hfree]
    exact h.lock

/-- `RecursionCount = 1` is kept. -/
theorem Kept.first (hk : Counter keep) (h : Kept keep cs) :
    Kept keep { cs with recursionCount := 1 } :=
  ⟨h.lock, hk.keep_small 1 (by decide) (by decide)⟩

theorem Kept.tryEnter (hk : Counter keep) (h : Kept keep cs) (self : ℕ) (p : TryPc) :
    Kept keep (tryEnterCriticalSection keep self cs p).1 := by
  cases p with
  | cas => exact h.exchange hk
  | setRecursion => exact h.first hk
  | storeRecursion v => exact ⟨h.lock, hk.keep_keep _⟩
  | increment => exact ⟨hk.keep_keep _, h.recursion⟩
  | setOwner | loadOwner | loadRecursion => exact ⟨h.lock, h.recursion⟩

theorem Kept.enter (hk : Counter keep) (h : Kept keep cs) {p : EnterPc} {r : Option EnterPc}
    (hs : enterCriticalSection keep self cs p = some (cs', r)) : Kept keep cs' := by
  cases p with
  | tryEnter n p =>
    have htry := h.tryEnter hk self p
    simp only [enterCriticalSection] at hs
    split at hs
    all_goals
      rename_i heq
      rw [heq] at htry
      obtain ⟨rfl, -⟩ := Prod.mk.inj (Option.some.inj hs)
      exact htry
  | wait =>
    simp only [enterCriticalSection, Option.ite_none_right_eq_some] at hs
    obtain ⟨rfl, -⟩ := Prod.mk.inj (Option.some.inj hs.2)
    exact ⟨h.lock, h.recursion⟩
  | spin n =>
    cases n <;>
      · obtain ⟨rfl, -⟩ := Prod.mk.inj (Option.some.inj hs)
        exact h
  | spinCas n =>
    obtain ⟨rfl, -⟩ := Prod.mk.inj (Option.some.inj hs)
    exact h.exchange hk
  | spinSetRecursion | setRecursion =>
    obtain ⟨rfl, -⟩ := Prod.mk.inj (Option.some.inj hs)
    exact h.first hk
  | increment =>
    obtain ⟨rfl, -⟩ := Prod.mk.inj (Option.some.inj hs)
    exact ⟨hk.keep_keep _, h.recursion⟩
  | storeRecursion v =>
    obtain ⟨rfl, -⟩ := Prod.mk.inj (Option.some.inj hs)
    exact ⟨h.lock, hk.keep_keep _⟩
  | loadSpin | loadLock n | loadOwner | loadRecursion | spinSetOwner | setOwner =>
    obtain ⟨rfl, -⟩ := Prod.mk.inj (Option.some.inj hs)
    exact ⟨h.lock, h.recursion⟩

theorem Kept.leave (hk : Counter keep) (h : Kept keep cs) (p : LeavePc) :
    Kept keep (leaveCriticalSection keep cs p).1 := by
  cases p with
  | storeRecursion v => exact ⟨h.lock, hk.keep_keep _⟩
  | unlock | decrement => exact ⟨hk.keep_keep _, h.recursion⟩
  | loadRecursion | clearOwner | post => exact ⟨h.lock, h.recursion⟩

theorem Kept.next {tid : ι → ℕ} {i : ι} {a : Choice} {l l' : Local} (hk : Counter keep)
    (h : Kept keep cs) (hs : next keep tid i a cs l = some (cs', l')) : Kept keep cs' := by
  unfold Critical.next at hs
  split at hs
  case h_1 | h_2 =>
    obtain ⟨rfl, -⟩ := Prod.mk.inj (Option.some.inj hs)
    exact h
  case h_3 =>
    obtain ⟨-, hs⟩ := Option.ite_none_right_eq_some.mp hs
    obtain ⟨rfl, -⟩ := Prod.mk.inj (Option.some.inj hs)
    exact h
  case h_4 p _ =>
    split at hs
    case h_1 => cases hs
    all_goals
      rename_i heq
      obtain ⟨rfl, -⟩ := Prod.mk.inj (Option.some.inj hs)
      exact h.enter hk heq
  case h_5 p _ =>
    have htry := h.tryEnter hk (tid i) p
    split at hs
    all_goals
      rename_i heq
      rw [heq] at htry
      obtain ⟨rfl, -⟩ := Prod.mk.inj (Option.some.inj hs)
      exact htry
  case h_6 p _ =>
    have hleave := h.leave hk p
    split at hs
    all_goals
      rename_i heq
      rw [heq] at hleave
      obtain ⟨rfl, -⟩ := Prod.mk.inj (Option.some.inj hs)
      exact hleave
  case h_7 => cases hs

/-- What `InitializeCriticalSectionEx` leaves behind when it returns `TRUE`. -/
theorem initializeCriticalSectionEx_eq_some {mallocOk semInitOk : Bool} {p n flags : ℕ}
    {cs : CriticalSection}
    (h : initializeCriticalSectionEx mallocOk semInitOk p n flags = some cs) :
    cs.lockCount = -1 ∧ cs.recursionCount = 0 ∧ cs.owningThread = 0 ∧ cs.lockSemaphore = 0 := by
  unfold initializeCriticalSectionEx at h
  split_ifs at h
  obtain rfl := Option.some.inj h
  exact ⟨rfl, rfl, rfl, rfl⟩

/-- **The counters are `LONG`s** in every state of every interleaving, also when they come
round. -/
theorem counters_long [DecidableEq ι] {tid : ι → ℕ} {mallocOk semInitOk : Bool} {p n flags : ℕ}
    (hcs : initializeCriticalSectionEx mallocOk semInitOk p n flags = some cs)
    {c : Config ι CriticalSection Local}
    (h : Reaches (threadStep (next long tid)) (start ι cs) c) :
    (-2 ^ 31 ≤ c.shared.lockCount ∧ c.shared.lockCount < 2 ^ 31) ∧
      -2 ^ 31 ≤ c.shared.recursionCount ∧ c.shared.recursionCount < 2 ^ 31 := by
  obtain ⟨hl, hr, -, -⟩ := initializeCriticalSectionEx_eq_some hcs
  have hstart : Kept long (start ι cs).shared := by
    refine ⟨?_, ?_⟩
    · change long cs.lockCount = cs.lockCount
      rw [hl]
      exact counter_long.keep_small (-1) le_rfl (by decide)
    · change long cs.recursionCount = cs.recursionCount
      rw [hr]
      exact counter_long.keep_small 0 (by decide) (by decide)
  have hkept : Kept long c.shared :=
    invariant (P := fun d => Kept long d.shared) h hstart
      fun _ _ _ _ _ hd _ hn => hd.next counter_long hn
  exact ⟨long_eq_self_iff.mp hkept.lock, long_eq_self_iff.mp hkept.recursion⟩

end Kept

end Critical

end Libuzi
