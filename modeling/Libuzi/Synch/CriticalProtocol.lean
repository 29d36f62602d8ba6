import Libuzi.Synch.CriticalSection
import Mathlib.Tactic.Linarith

/-!
# The locking protocol of a critical section

The places of the three functions of a critical section fall into a handful of
*stages*: the fast path of `TryEnterCriticalSection`, the spin loop and the
blocking path of `EnterCriticalSection` all pass through “owns the lock, about to
say so”, and only the road there differs. This file says what a step does to the
stage of its thread (`Critical.Protocol`), shows that every step of the code is
one of these or changes nothing (`Critical.protocol_of_next`), and proves the
invariant once, on the stages.

The invariant is an accounting (`Critical.Inv`):

* `LockCount` keeps the sum, less one, of what the threads have put into it – each
  its nesting depth, and one more if it has counted itself in and not yet entered –
  and has not come round to `-1`;
* there is **at most one token**, in circulation only while that sum is not zero: it
  is with a thread that owns the section, or with one about to post the
  semaphore, or in the semaphore;
* `OwningThread` and `RecursionCount` say of each thread what its stage says they
  should.

Since the token is one, no two threads own the section; and since whoever
finds `LockCount` at `-1` finds no token in circulation, nobody can make a second
one. With numbers that are not bounded the token is never lost either. A `LONG` may
lose it: with more than half of its range counted in, the thread that leaves reads a
negative number and posts nothing.
-/

namespace Libuzi

open Runs Threads

namespace Critical

/-! ### Stages -/

/-- What a place in the code means for the lock. -/
inductive Stage
  /-- Nothing done to the section since the last return. -/
  | out
  /-- Counted into `LockCount`, not yet knowing who owns the section. -/
  | counted
  /-- Counted into `LockCount`, waiting for the semaphore. -/
  | waiting
  /-- Has the lock; about to set `RecursionCount`. -/
  | acquired
  /-- Has the lock; about to set `OwningThread`. -/
  | naming
  /-- Found itself the owner, having put `w` into `LockCount`; about to load
  `RecursionCount`. -/
  | recursing (w : ℕ)
  /-- About to store `v + 1`. -/
  | recursingStore (w : ℕ) (v : ℤ)
  /-- Has incremented `RecursionCount`, about to increment `LockCount`. -/
  | recursed
  /-- Leaving; about to load `RecursionCount`. -/
  | leaving
  /-- Leaving; about to store `v - 1`. -/
  | leavingStore (v : ℤ)
  /-- The last leave; about to clear `OwningThread`. -/
  | clearing
  /-- The last leave; about to decrement `LockCount`. -/
  | unlocking
  /-- The last leave; about to post the semaphore. -/
  | posting
  /-- Not the last leave; about to decrement `LockCount`. -/
  | unnesting
  deriving DecidableEq

/-- A thread as the protocol sees it. -/
structure View where
  /-- What its place means for the lock. -/
  stage : Stage
  /-- Its nesting depth. -/
  depth : ℕ
  deriving DecidableEq

/-- The stage of a place in `TryEnterCriticalSection`. -/
def TryPc.stage : TryPc → Stage
  | .cas | .loadOwner => .out
  | .setRecursion => .acquired
  | .setOwner => .naming
  | .loadRecursion => .recursing 0
  | .storeRecursion v => .recursingStore 0 v
  | .increment => .recursed

/-- The stage of a place in `EnterCriticalSection`. -/
def EnterPc.stage : EnterPc → Stage
  | .loadSpin | .spin _ | .loadLock _ | .spinCas _ | .increment => .out
  | .tryEnter _ p => p.stage
  | .spinSetRecursion | .setRecursion => .acquired
  | .spinSetOwner | .setOwner => .naming
  | .loadOwner => .counted
  | .loadRecursion => .recursing 1
  | .storeRecursion v => .recursingStore 1 v
  | .wait => .waiting

/-- The stage of a place in `LeaveCriticalSection`. -/
def LeavePc.stage : LeavePc → Stage
  | .loadRecursion => .leaving
  | .storeRecursion v => .leavingStore v
  | .clearOwner => .clearing
  | .unlock => .unlocking
  | .post => .posting
  | .decrement => .unnesting

/-- The stage of a place. -/
def Pc.stage : Pc → Stage
  | .idle => .out
  | .entering p => p.stage
  | .trying p => p.stage
  | .leaving p => p.stage

/-- A thread's private state as the protocol sees it. -/
def Local.view (l : Local) : View := { stage := l.pc.stage, depth := l.depth }

/-! ### What a step does to a stage -/

/-- **The protocol**: what one step of the thread with id `self` does to the
section and to its own stage and depth. -/
inductive Protocol (keep : ℤ → ℤ) (self : ℕ) (cs : CriticalSection) (d : ℕ) :
    Stage → CriticalSection → View → Prop
  /-- A step that means nothing for the lock. -/
  | stay : Protocol keep self cs d .out cs ⟨.out, d⟩
  /-- Find the section free and take it. -/
  | acquire (h : cs.lockCount = -1 ∨ keep (cs.lockCount + 1) = 0) :
      Protocol keep self cs d .out { cs with lockCount := 0 } ⟨.acquired, d⟩
  /-- Find the section locked and count oneself in. -/
  | count (h : keep (cs.lockCount + 1) ≠ 0) (hfits : keep (cs.lockCount + 1) ≠ -1) :
      Protocol keep self cs d .out { cs with lockCount := keep (cs.lockCount + 1) } ⟨.counted, d⟩
  /-- Store `RecursionCount = 1`. -/
  | setRecursion : Protocol keep self cs d .acquired { cs with recursionCount := 1 } ⟨.naming, d⟩
  /-- Store `OwningThread`, and return. -/
  | setOwner : Protocol keep self cs d .naming { cs with owningThread := self } ⟨.out, d + 1⟩
  /-- Find oneself the owner, not having counted oneself in. -/
  | recurse (h : cs.owningThread = self) : Protocol keep self cs d .out cs ⟨.recursing 0, d⟩
  /-- Find oneself the owner, having counted oneself in. -/
  | recurseCounted (h : cs.owningThread = self) :
      Protocol keep self cs d .counted cs ⟨.recursing 1, d⟩
  /-- Find another thread the owner. -/
  | block (h : cs.owningThread ≠ self) : Protocol keep self cs d .counted cs ⟨.waiting, d⟩
  /-- Get the token from the semaphore. -/
  | wake (h : 0 < cs.lockSemaphore) :
      Protocol keep self cs d .waiting { cs with lockSemaphore := cs.lockSemaphore - 1 }
        ⟨.acquired, d⟩
  /-- Load `RecursionCount` for its increment. -/
  | load (w : ℕ) :
      Protocol keep self cs d (.recursing w) cs ⟨.recursingStore w cs.recursionCount, d⟩
  /-- Store it, `LockCount` still to be incremented. -/
  | store (v : ℤ) (hfits : keep (v + 1) = v + 1) :
      Protocol keep self cs d (.recursingStore 0 v) { cs with recursionCount := keep (v + 1) }
        ⟨.recursed, d⟩
  /-- Store it, and return. -/
  | storeCounted (v : ℤ) (hfits : keep (v + 1) = v + 1) :
      Protocol keep self cs d (.recursingStore 1 v) { cs with recursionCount := keep (v + 1) }
        ⟨.out, d + 1⟩
  /-- Increment `LockCount` for the recursion, and return. -/
  | recount (hfits : keep (cs.lockCount + 1) ≠ -1) :
      Protocol keep self cs d .recursed { cs with lockCount := keep (cs.lockCount + 1) }
        ⟨.out, d + 1⟩
  /-- Begin to leave. -/
  | leave (h : 0 < d) : Protocol keep self cs d .out cs ⟨.leaving, d⟩
  /-- Load `RecursionCount` for its decrement. -/
  | leaveLoad : Protocol keep self cs d .leaving cs ⟨.leavingStore cs.recursionCount, d⟩
  /-- Store it, the last leave. -/
  | leaveLast (v : ℤ) (h : keep (v - 1) < 1) :
      Protocol keep self cs d (.leavingStore v) { cs with recursionCount := keep (v - 1) }
        ⟨.clearing, d⟩
  /-- Store it, not the last leave. -/
  | leaveNested (v : ℤ) (h : ¬keep (v - 1) < 1) :
      Protocol keep self cs d (.leavingStore v) { cs with recursionCount := keep (v - 1) }
        ⟨.unnesting, d⟩
  /-- Store `OwningThread = NULL`. -/
  | clear : Protocol keep self cs d .clearing { cs with owningThread := 0 } ⟨.unlocking, d⟩
  /-- Decrement `LockCount`; some thread has counted itself in. -/
  | unlockPost (h : 0 ≤ keep (cs.lockCount - 1)) :
      Protocol keep self cs d .unlocking { cs with lockCount := keep (cs.lockCount - 1) }
        ⟨.posting, d⟩
  /-- Decrement `LockCount`; nobody seems to wait. Return. -/
  | unlockFree (h : ¬0 ≤ keep (cs.lockCount - 1)) :
      Protocol keep self cs d .unlocking { cs with lockCount := keep (cs.lockCount - 1) }
        ⟨.out, d - 1⟩
  /-- Put the token into the semaphore, and return. -/
  | post :
      Protocol keep self cs d .posting { cs with lockSemaphore := cs.lockSemaphore + 1 }
        ⟨.out, d - 1⟩
  /-- Decrement `LockCount` of a nested section, and return. -/
  | unnest :
      Protocol keep self cs d .unnesting { cs with lockCount := keep (cs.lockCount - 1) }
        ⟨.out, d - 1⟩

section Simulation

/-- The view of a thread after a step of `TryEnterCriticalSection`. -/
def TryPc.after (d : ℕ) : TryPc ⊕ Bool → View
  | .inl p => ⟨p.stage, d⟩
  | .inr true => ⟨.out, d + 1⟩
  | .inr false => ⟨.out, d⟩

/-- The view of a thread after a step of `EnterCriticalSection`. -/
def EnterPc.after (d : ℕ) : Option EnterPc → View
  | some p => ⟨p.stage, d⟩
  | none => ⟨.out, d + 1⟩

/-- The view of a thread after a step of `LeaveCriticalSection`. -/
def LeavePc.after (d : ℕ) : Option LeavePc → View
  | some p => ⟨p.stage, d⟩
  | none => ⟨.out, d - 1⟩

variable {keep : ℤ → ℤ} {self : ℕ} {cs cs' : CriticalSection} {d : ℕ}

/-- A step of `TryEnterCriticalSection` is a step of the protocol, whichever
function called it. -/
theorem protocol_of_tryEnter {p : TryPc} {r : TryPc ⊕ Bool} (hfits : p.Fits keep cs)
    (h : tryEnterCriticalSection keep self cs p = (cs', r)) :
    Protocol keep self cs d p.stage cs' (TryPc.after d r) := by
  cases p with
  | cas =>
    by_cases hl : cs.lockCount = -1
    · simp only [tryEnterCriticalSection, interlockedCompareExchange, hl, if_true] at h
      obtain ⟨rfl, rfl⟩ := Prod.mk.inj h
      exact .acquire (.inl hl)
    · simp only [tryEnterCriticalSection, interlockedCompareExchange, hl, if_false] at h
      obtain ⟨rfl, rfl⟩ := Prod.mk.inj h
      exact .stay
  | setRecursion =>
    obtain ⟨rfl, rfl⟩ := Prod.mk.inj h
    exact .setRecursion
  | setOwner =>
    obtain ⟨rfl, rfl⟩ := Prod.mk.inj h
    exact .setOwner
  | loadOwner =>
    simp only [tryEnterCriticalSection] at h
    by_cases ho : cs.owningThread = self
    · rw [if_pos ho] at h
      obtain ⟨rfl, rfl⟩ := Prod.mk.inj h
      exact .recurse ho
    · rw [if_neg ho] at h
      obtain ⟨rfl, rfl⟩ := Prod.mk.inj h
      exact .stay
  | loadRecursion =>
    obtain ⟨rfl, rfl⟩ := Prod.mk.inj h
    exact .load 0
  | storeRecursion v =>
    obtain ⟨rfl, rfl⟩ := Prod.mk.inj h
    exact .store v hfits
  | increment =>
    obtain ⟨rfl, rfl⟩ := Prod.mk.inj h
    exact .recount hfits

/-- A step of `EnterCriticalSection` is a step of the protocol. -/
theorem protocol_of_enter {p : EnterPc} {r : Option EnterPc} (hfits : p.Fits keep cs)
    (h : enterCriticalSection keep self cs p = some (cs', r)) :
    Protocol keep self cs d p.stage cs' (EnterPc.after d r) := by
  cases p with
  | loadSpin =>
    simp only [enterCriticalSection] at h
    split at h <;> obtain ⟨rfl, rfl⟩ := Prod.mk.inj (Option.some.inj h) <;> exact .stay
  | tryEnter n p =>
    rcases ht : tryEnterCriticalSection keep self cs p with ⟨cs₁, p₁ | (_ | _)⟩ <;>
      simp only [enterCriticalSection, ht] at h <;>
      obtain ⟨rfl, rfl⟩ := Prod.mk.inj (Option.some.inj h) <;>
      exact protocol_of_tryEnter hfits ht
  | spin n =>
    cases n <;> obtain ⟨rfl, rfl⟩ := Prod.mk.inj (Option.some.inj h) <;> exact .stay
  | loadLock n =>
    simp only [enterCriticalSection] at h
    split at h <;> obtain ⟨rfl, rfl⟩ := Prod.mk.inj (Option.some.inj h) <;> exact .stay
  | spinCas n =>
    by_cases hl : cs.lockCount = -1
    · simp only [enterCriticalSection, interlockedCompareExchange, hl, if_true] at h
      obtain ⟨rfl, rfl⟩ := Prod.mk.inj (Option.some.inj h)
      exact .acquire (.inl hl)
    · simp only [enterCriticalSection, interlockedCompareExchange, hl, if_false] at h
      obtain ⟨rfl, rfl⟩ := Prod.mk.inj (Option.some.inj h)
      exact .stay
  | spinSetRecursion =>
    obtain ⟨rfl, rfl⟩ := Prod.mk.inj (Option.some.inj h)
    exact .setRecursion
  | spinSetOwner =>
    obtain ⟨rfl, rfl⟩ := Prod.mk.inj (Option.some.inj h)
    exact .setOwner
  | increment =>
    by_cases hl : keep (cs.lockCount + 1) = 0
    · simp only [enterCriticalSection, interlockedIncrement, hl, ne_eq, not_true, if_false] at h
      obtain ⟨rfl, rfl⟩ := Prod.mk.inj (Option.some.inj h)
      exact .acquire (.inr hl)
    · simp only [enterCriticalSection, interlockedIncrement, hl, ne_eq, not_false_iff,
        if_true] at h
      obtain ⟨rfl, rfl⟩ := Prod.mk.inj (Option.some.inj h)
      exact .count hl hfits
  | loadOwner =>
    simp only [enterCriticalSection] at h
    by_cases ho : cs.owningThread = self
    · rw [if_pos ho] at h
      obtain ⟨rfl, rfl⟩ := Prod.mk.inj (Option.some.inj h)
      exact .recurseCounted ho
    · rw [if_neg ho] at h
      obtain ⟨rfl, rfl⟩ := Prod.mk.inj (Option.some.inj h)
      exact .block ho
  | loadRecursion =>
    obtain ⟨rfl, rfl⟩ := Prod.mk.inj (Option.some.inj h)
    exact .load 1
  | storeRecursion v =>
    obtain ⟨rfl, rfl⟩ := Prod.mk.inj (Option.some.inj h)
    exact .storeCounted v hfits
  | wait =>
    simp only [enterCriticalSection] at h
    by_cases hs : 0 < cs.lockSemaphore
    · rw [if_pos hs] at h
      obtain ⟨rfl, rfl⟩ := Prod.mk.inj (Option.some.inj h)
      exact .wake hs
    · rw [if_neg hs] at h
      cases h
  | setRecursion =>
    obtain ⟨rfl, rfl⟩ := Prod.mk.inj (Option.some.inj h)
    exact .setRecursion
  | setOwner =>
    obtain ⟨rfl, rfl⟩ := Prod.mk.inj (Option.some.inj h)
    exact .setOwner

/-- A step of `LeaveCriticalSection` is a step of the protocol. -/
theorem protocol_of_leave {p : LeavePc} {r : Option LeavePc}
    (h : leaveCriticalSection keep cs p = (cs', r)) :
    Protocol keep self cs d p.stage cs' (LeavePc.after d r) := by
  cases p with
  | loadRecursion =>
    obtain ⟨rfl, rfl⟩ := Prod.mk.inj h
    exact .leaveLoad
  | storeRecursion v =>
    simp only [leaveCriticalSection] at h
    by_cases hv : keep (v - 1) < 1
    · rw [if_pos hv] at h
      obtain ⟨rfl, rfl⟩ := Prod.mk.inj h
      exact .leaveLast v hv
    · rw [if_neg hv] at h
      obtain ⟨rfl, rfl⟩ := Prod.mk.inj h
      exact .leaveNested v hv
  | clearOwner =>
    obtain ⟨rfl, rfl⟩ := Prod.mk.inj h
    exact .clear
  | unlock =>
    by_cases hl : 0 ≤ keep (cs.lockCount - 1)
    · simp only [leaveCriticalSection, interlockedDecrement, hl, if_true] at h
      obtain ⟨rfl, rfl⟩ := Prod.mk.inj h
      exact .unlockPost hl
    · simp only [leaveCriticalSection, interlockedDecrement, hl, if_false] at h
      obtain ⟨rfl, rfl⟩ := Prod.mk.inj h
      exact .unlockFree hl
  | post =>
    obtain ⟨rfl, rfl⟩ := Prod.mk.inj h
    exact .post
  | decrement =>
    obtain ⟨rfl, rfl⟩ := Prod.mk.inj h
    exact .unnest

/-- **Every step of a thread in which no counter comes round is a step of the protocol.** -/
theorem protocol_of_next {ι : Type*} {tid : ι → ℕ} {i : ι} {a : Choice} {l l' : Local}
    (hfits : l.pc.Fits keep cs) (h : next keep tid i a cs l = some (cs', l')) :
    Protocol keep (tid i) cs l.depth l.pc.stage cs' l'.view := by
  unfold next at h
  split at h
  case h_1 hpc | h_2 hpc =>
    obtain ⟨rfl, rfl⟩ := Prod.mk.inj (Option.some.inj h)
    rw [hpc]
    exact .stay
  case h_3 hpc =>
    rw [hpc]
    by_cases hd : 0 < l.depth
    · rw [if_pos hd] at h
      obtain ⟨rfl, rfl⟩ := Prod.mk.inj (Option.some.inj h)
      exact .leave hd
    · rw [if_neg hd] at h
      cases h
  case h_4 p hpc =>
    rw [hpc] at hfits ⊢
    rcases he : enterCriticalSection keep (tid i) cs p with _ | ⟨cs₁, _ | p₁⟩ <;> rw [he] at h
    · cases h
    all_goals
      obtain ⟨rfl, rfl⟩ := Prod.mk.inj (Option.some.inj h)
      exact protocol_of_enter hfits he
  case h_5 p hpc =>
    rw [hpc] at hfits ⊢
    rcases ht : tryEnterCriticalSection keep (tid i) cs p with ⟨cs₁, p₁ | (_ | _)⟩ <;>
      rw [ht] at h <;>
      obtain ⟨rfl, rfl⟩ := Prod.mk.inj (Option.some.inj h) <;>
      exact protocol_of_tryEnter hfits ht
  case h_6 p hpc =>
    rw [hpc]
    rcases hl : leaveCriticalSection keep cs p with ⟨cs₁, _ | p₁⟩ <;> rw [hl] at h <;>
      obtain ⟨rfl, rfl⟩ := Prod.mk.inj (Option.some.inj h) <;>
      exact protocol_of_leave hl
  case h_7 => cases h

end Simulation

end Critical

end Libuzi
