import Libuzi.Synch.CriticalProtocol

/-!
# Mutual exclusion and accounting in a critical section

The invariant of the locking protocol, and what it says about every reachable
state of `libuzi/critical.c`:

* `Critical.mutual_exclusion`: as long as the counters, which are `LONG`s, do not come
  round, at most one thread holds the section, and between its own calls
  `OwningThread` and `RecursionCount` are its id and its depth;
* `Critical.not_mutual_exclusion`: a thread that nests deeper than a `LONG` can count
  lets another one in;
* `Critical.accounting`: with numbers that are not bounded, when every call under way
  has reached its `sem_wait`, `LockCount` is what its documentation says, and the
  semaphore holds a token exactly when somebody waits for a free section – no
  wake-up is lost.
-/

namespace Libuzi

open Runs Threads Counters

namespace Critical

/-! ### The accounts of a thread -/

/-- What a thread has put into `LockCount`. -/
def View.lockWeight (v : View) : ℤ :=
  match v.stage with
  | .counted | .waiting | .acquired | .naming => ((v.depth + 1 : ℕ) : ℤ)
  | .recursing w | .recursingStore w _ => ((v.depth + w : ℕ) : ℤ)
  | .posting => ((v.depth - 1 : ℕ) : ℤ)
  | _ => (v.depth : ℤ)

/-- The thread has the token: it owns the section, or is about to post. -/
def View.Holds (v : View) : Prop := 0 < v.depth ∨ v.stage = .acquired ∨ v.stage = .naming

instance (v : View) : Decidable v.Holds :=
  inferInstanceAs (Decidable (0 < v.depth ∨ v.stage = .acquired ∨ v.stage = .naming))

/-- The tokens with a thread. -/
def View.holdWeight (v : View) : ℤ := if v.Holds then 1 else 0

/-- `OwningThread` should be this thread's id. -/
def View.Named (v : View) : Prop := 0 < v.depth ∧ v.stage ≠ .unlocking ∧ v.stage ≠ .posting

/-- What the stage of a thread says about `RecursionCount` and its own depth. -/
def View.RecursionOk (r : ℤ) (v : View) : Prop :=
  match v.stage with
  | .out | .counted => 0 < v.depth → r = v.depth
  | .waiting | .acquired => v.depth = 0
  | .naming => v.depth = 0 ∧ r = 1
  | .recursing _ | .leaving => 0 < v.depth ∧ r = v.depth
  | .recursingStore _ x | .leavingStore x => 0 < v.depth ∧ x = v.depth
  | .recursed => 0 < v.depth ∧ r = v.depth + 1
  | .clearing | .unlocking | .posting => v.depth = 1
  | .unnesting => 2 ≤ v.depth ∧ r + 1 = v.depth

/-- How often the thread has entered, and will have at the return of a recursion that
`RecursionCount` knows of. -/
def View.nesting (v : View) : ℤ :=
  match v.stage with
  | .recursed => ((v.depth + 1 : ℕ) : ℤ)
  | _ => (v.depth : ℤ)

/-- What the section says about the thread with id `me`, and should. -/
structure Place (keep : ℤ → ℤ) (me : ℕ) (cs : CriticalSection) (v : View) : Prop where
  /-- `OwningThread` is the id of the thread if it should be. -/
  owner : cs.owningThread = me ↔ v.Named
  /-- `RecursionCount` is what the stage of the thread has it be. -/
  recursion : v.RecursionOk cs.recursionCount
  /-- It can hold this number. -/
  fits : keep v.nesting = v.nesting

theorem View.lockWeight_nonneg (v : View) : 0 ≤ v.lockWeight := by
  unfold View.lockWeight
  split <;> exact Int.natCast_nonneg _

theorem View.holdWeight_nonneg (v : View) : 0 ≤ v.holdWeight := by
  unfold View.holdWeight
  split <;> decide

theorem View.holdWeight_of_holds {v : View} (h : v.Holds) : v.holdWeight = 1 := if_pos h

theorem View.holdWeight_of_not_holds {v : View} (h : ¬v.Holds) : v.holdWeight = 0 := if_neg h

theorem View.Named.holds {v : View} (h : v.Named) : v.Holds := Or.inl h.1

/-- What a thread without the token is owed does not depend on
`RecursionCount`. -/
theorem View.recursionOk_of_not_holds {v : View} (hv : ¬v.Holds) {r : ℤ} (h : v.RecursionOk r)
    (r' : ℤ) : v.RecursionOk r' := by
  obtain ⟨st, d⟩ := v
  simp only [View.Holds, not_or] at hv
  cases st <;> simp_all [View.RecursionOk]

/-! ### What one step balances -/

/-- The tokens there should be, when `n` has been put into `LockCount`: one as long as the
section is locked. -/
def tokens (n : ℤ) : ℤ := if 0 < n then 1 else 0

theorem tokens_of_pos {n : ℤ} (h : 0 < n) : tokens n = 1 := if_pos h

theorem tokens_le_one (n : ℤ) : tokens n ≤ 1 := by
  unfold tokens
  split <;> decide

/-- There are as many tokens as there should be, or, if the counter is one that loses them,
fewer. -/
def TokensOk (keep : ℤ → ℤ) (actual due : ℤ) : Prop := actual = due ∨ Lossy keep ∧ actual ≤ due

theorem TokensOk.le {keep : ℤ → ℤ} {actual due : ℤ} (h : TokensOk keep actual due) :
    actual ≤ due := h.elim le_of_eq And.right

/-- What the invariant says to one thread, when `n` has been put into `LockCount`. -/
structure Fair (keep : ℤ → ℤ) (me : ℕ) (cs : CriticalSection) (n : ℤ) (v : View) : Prop where
  /-- The section says of the thread what it should. -/
  place : Place keep me cs v
  /-- `LockCount` keeps what has been put into it, less one. -/
  lock : cs.lockCount = keep (n - 1)
  /-- It has not come round. -/
  clear : Clear keep n
  /-- The thread has put its part into it. -/
  weight : v.lockWeight ≤ n
  /-- With the token, the section is locked and the semaphore empty. -/
  held : v.Holds → 0 < n ∧ cs.lockSemaphore = 0
  /-- With the section free, the token is nowhere. -/
  free : n = 0 → ¬v.Holds ∧ cs.lockSemaphore = 0

/-- **What a step balances**: the thread's contribution `k` to `LockCount`, the
tokens, what the section says of the thread; and it writes `OwningThread` and
`RecursionCount` only with the token in hand. -/
structure Balanced (keep : ℤ → ℤ) (me : ℕ) (cs : CriticalSection) (n : ℤ) (v : View)
    (cs' : CriticalSection) (k : ℤ) (v' : View) : Prop where
  /-- The thread puts `k` more into `LockCount`. -/
  weight : v'.lockWeight = v.lockWeight + k
  /-- `LockCount` keeps it. -/
  lock : cs'.lockCount = keep (n + k - 1)
  /-- It has not come round. -/
  clear : Clear keep (n + k)
  /-- Tokens are not made, and lost only if the counter is one that loses them. -/
  token : TokensOk keep (v'.holdWeight + cs'.lockSemaphore - tokens (n + k))
    (v.holdWeight + cs.lockSemaphore - tokens n)
  /-- The section says of the thread what it should. -/
  place : Place keep me cs' v'
  /-- The owner fields are written by the thread with the token. -/
  frame : (cs'.owningThread = cs.owningThread ∧ cs'.recursionCount = cs.recursionCount) ∨
    (v.Holds ∧ (cs'.owningThread = cs.owningThread ∨ cs'.owningThread = me ∨
      cs'.owningThread = 0))

variable {keep : ℤ → ℤ}

/-- **A step that does not concern `LockCount`** balances if it leaves the token where it is
and writes the owner fields only with the token in hand. -/
theorem Balanced.of_lock_eq {self owner : ℕ} {r : ℤ} {cs : CriticalSection} {n : ℤ} {v v' : View}
    (h : Fair keep self cs n v) (hlock : v'.lockWeight = v.lockWeight) (hholds : v'.Holds ↔ v.Holds)
    (howner : (owner = cs.owningThread ∧ r = cs.recursionCount) ∨
      (v.Holds ∧ (owner = cs.owningThread ∨ owner = self ∨ owner = 0)))
    (hplace : Place keep self { cs with recursionCount := r, owningThread := owner } v') :
    Balanced keep self cs n v { cs with recursionCount := r, owningThread := owner } 0 v' := by
  have hhold : v'.holdWeight = v.holdWeight := if_congr hholds rfl rfl
  refine ⟨by rw [hlock, add_zero], ?_, ?_, .inl ?_, hplace, howner⟩
  · rw [add_zero]
    exact h.lock
  · rw [add_zero]
    exact h.clear
  · rw [hhold, add_zero]

/-- A step that only looks at the section balances. -/
theorem Balanced.look {self : ℕ} {cs : CriticalSection} {n : ℤ} {v v' : View}
    (h : Fair keep self cs n v) (hlock : v'.lockWeight = v.lockWeight) (hholds : v'.Holds ↔ v.Holds)
    (hplace : Place keep self cs v') : Balanced keep self cs n v cs 0 v' :=
  .of_lock_eq h hlock hholds (.inl ⟨rfl, rfl⟩) hplace

/-- A step that writes the owner fields with the token in hand balances. -/
theorem Balanced.write {self owner : ℕ} {r : ℤ} {cs : CriticalSection} {n : ℤ} {v v' : View}
    (h : Fair keep self cs n v) (hv : v.Holds) (hv' : v'.Holds)
    (hlock : v'.lockWeight = v.lockWeight)
    (howner : owner = cs.owningThread ∨ owner = self ∨ owner = 0)
    (hplace : Place keep self { cs with recursionCount := r, owningThread := owner } v') :
    Balanced keep self cs n v { cs with recursionCount := r, owningThread := owner } 0 v' :=
  .of_lock_eq h hlock (iff_of_true hv' hv) (.inr ⟨hv, howner⟩) hplace

/-- **Every step of the protocol balances.** -/
theorem Protocol.balanced (hk : Counter keep) {self : ℕ} (hnull : self ≠ 0)
    {cs cs' : CriticalSection} {st : Stage} {d : ℕ} {n : ℤ} {v' : View}
    (hp : Protocol keep self cs d st cs' v') (h : Fair keep self cs n ⟨st, d⟩) :
    ∃ k, Balanced keep self cs n ⟨st, d⟩ cs' k v' := by
  have hnn : 0 ≤ n := (View.lockWeight_nonneg _).trans h.weight
  have hnext : keep (cs.lockCount + 1) = keep n := by rw [h.lock, hk.keep_add, sub_add_cancel]
  have hprev : keep (cs.lockCount - 1) = keep (n - 2) := by
    rw [h.lock, hk.keep_sub, sub_sub]
    rfl
  have hzero : keep ((0 : ℕ) : ℤ) = ((0 : ℕ) : ℤ) := hk.keep_small 0 (by decide) (by decide)
  obtain ⟨⟨hown, hrec, hfit⟩, hlock, hclear, hw, hheld, hfree⟩ := id h
  cases hp with
  | stay => exact ⟨0, .look h rfl Iff.rfl ⟨hown, hrec, hfit⟩⟩
  | acquire hl =>
    -- the section was free: the thread makes the token, and had none before
    have hread : keep (n - 1) = -1 := by
      rcases hl with hl | hl
      · exact hlock.symm.trans hl
      · rw [← hk.keep_sub, hnext.symm.trans hl]
        exact hk.keep_small (-1) le_rfl (by decide)
    obtain rfl := hclear.eq_zero hnn hread
    obtain ⟨hno, hsem⟩ := hfree rfl
    obtain rfl : d = 0 := by simpa [View.Holds] using hno
    refine ⟨1, rfl, hzero.symm, hclear.succ ?_, .inl ?_, ⟨?_, rfl, hzero⟩, .inl ⟨rfl, rfl⟩⟩
    · rw [show keep 0 = 0 from hzero]
      decide
    · simp [View.holdWeight, View.Holds, tokens, hsem]
    · simpa [View.Named] using hown
  | count hl hfits =>
    have hpos : 0 < n := by
      refine lt_of_le_of_ne hnn fun h0 => hl ?_
      rw [hnext, ← h0]
      exact hzero
    refine ⟨1, by simp [View.lockWeight], ?_, hclear.succ (hnext ▸ hfits), .inl ?_,
      ⟨?_, hrec, hfit⟩, .inl ⟨rfl, rfl⟩⟩
    · rw [add_sub_cancel_right]
      exact hnext
    · rw [tokens_of_pos hpos, tokens_of_pos (by omega)]
      simp [View.holdWeight, View.Holds]
    · simpa [View.Named] using hown
  | setRecursion =>
    obtain rfl : d = 0 := hrec
    refine ⟨0, .write h (Or.inr (Or.inl rfl)) (Or.inr (Or.inr rfl)) rfl (Or.inl rfl)
      ⟨?_, ⟨rfl, rfl⟩, hfit⟩⟩
    simpa [View.Named] using hown
  | setOwner =>
    obtain ⟨rfl, hr⟩ : d = 0 ∧ cs.recursionCount = 1 := hrec
    refine ⟨0, .write h (Or.inr (Or.inr rfl)) (Or.inl Nat.one_pos) rfl (Or.inr (Or.inl rfl))
      ⟨?_, fun _ => hr, hk.keep_small _ (by decide) (by decide)⟩⟩
    simp [View.Named]
  | recurse ho | recurseCounted ho =>
    have hd : 0 < d := (hown.mp ho).1
    refine ⟨0, .look h rfl (iff_of_true (Or.inl hd) (Or.inl hd))
      ⟨iff_of_true ho ?_, ⟨hd, hrec hd⟩, hfit⟩⟩
    exact ⟨hd, by simp, by simp⟩
  | block ho =>
    -- a thread that holds the section would have found itself the owner
    have hd : d = 0 := by
      by_contra hd
      exact ho (hown.mpr ⟨Nat.pos_of_ne_zero hd, by simp, by simp⟩)
    subst hd
    refine ⟨0, .look h rfl (by simp [View.Holds]) ⟨iff_of_false ho fun hn => ?_, rfl, hfit⟩⟩
    exact absurd hn.1 (by simp)
  | wake hs =>
    obtain rfl : d = 0 := hrec
    refine ⟨0, rfl, ?_, ?_, .inl ?_, ⟨?_, rfl, hfit⟩, .inl ⟨rfl, rfl⟩⟩
    · rw [add_zero]
      exact hlock
    · rwa [add_zero]
    · simp only [View.holdWeight, View.Holds, add_zero]
      simp only [reduceCtorEq, or_false, lt_irrefl, if_false, or_true, if_true]
      omega
    · simpa [View.Named] using hown
  | load w =>
    refine ⟨0, .look h rfl (by simp [View.Holds]) ⟨?_, hrec, hfit⟩⟩
    simpa [View.Named] using hown
  | store x hfits =>
    obtain ⟨hd, rfl⟩ : 0 < d ∧ x = d := hrec
    refine ⟨0, .write h (Or.inl hd) (Or.inl hd) rfl (Or.inl rfl) ⟨?_, ⟨hd, hfits⟩, hfits⟩⟩
    simpa [View.Named] using hown
  | storeCounted x hfits =>
    obtain ⟨hd, rfl⟩ : 0 < d ∧ x = d := hrec
    refine ⟨0, .write h (Or.inl hd) (Or.inl (Nat.succ_pos d)) rfl (Or.inl rfl)
      ⟨?_, fun _ => hfits, hfits⟩⟩
    simpa [View.Named, hd] using hown
  | recount hfits =>
    obtain ⟨hd, hr⟩ : 0 < d ∧ cs.recursionCount = d + 1 := hrec
    have hpos := (hheld (Or.inl hd)).1
    refine ⟨1, rfl, ?_, hclear.succ (hnext ▸ hfits), .inl ?_, ⟨?_, fun _ => hr, hfit⟩,
      .inl ⟨rfl, rfl⟩⟩
    · rw [add_sub_cancel_right]
      exact hnext
    · rw [tokens_of_pos hpos, tokens_of_pos (by omega)]
      simp [View.holdWeight, View.Holds, hd]
    · simpa [View.Named, hd] using hown
  | leave hd =>
    refine ⟨0, .look h rfl (by simp [View.Holds]) ⟨?_, ⟨hd, hrec hd⟩, hfit⟩⟩
    simpa [View.Named] using hown
  | leaveLoad =>
    refine ⟨0, .look h rfl (by simp [View.Holds]) ⟨?_, hrec, hfit⟩⟩
    simpa [View.Named] using hown
  | leaveLast x hx =>
    obtain ⟨hd, rfl⟩ : 0 < d ∧ x = d := hrec
    rw [hk.keep_le d (d - 1) (by omega) (by omega) hfit] at hx
    refine ⟨0, .write h (Or.inl hd) (Or.inl hd) rfl (Or.inl rfl) ⟨?_, ?_, hfit⟩⟩
    · simpa [View.Named] using hown
    · change d = 1
      omega
  | leaveNested x hx =>
    obtain ⟨hd, rfl⟩ : 0 < d ∧ x = d := hrec
    have hkept := hk.keep_le d (d - 1) (by omega) (by omega) hfit
    rw [hkept] at hx
    refine ⟨0, .write h (Or.inl hd) (Or.inl hd) rfl (Or.inl rfl) ⟨?_, ?_, hfit⟩⟩
    · simpa [View.Named] using hown
    · change 2 ≤ d ∧ keep (d - 1) + 1 = d
      omega
  | clear =>
    obtain rfl : d = 1 := hrec
    refine ⟨0, .write h (Or.inl Nat.one_pos) (Or.inl Nat.one_pos) rfl (Or.inr (Or.inr rfl))
      ⟨?_, rfl, hfit⟩⟩
    exact iff_of_false hnull.symm fun hn => hn.2.1 rfl
  | unlockPost hl =>
    -- the token stays in hand until it is posted
    obtain rfl : d = 1 := hrec
    have hpos := (hheld (Or.inl Nat.one_pos)).1
    have htwo : 2 ≤ n := by
      by_contra hlt
      obtain rfl : n = 1 := by omega
      rw [hprev, show keep (1 - 2) = -1 from hk.keep_small _ le_rfl (by decide)] at hl
      omega
    refine ⟨-1, rfl, ?_, hclear.mono (by omega), .inl ?_, ⟨?_, rfl, hfit⟩, .inl ⟨rfl, rfl⟩⟩
    · rw [show n + -1 - 1 = n - 2 by omega]
      exact hprev
    · rw [tokens_of_pos hpos, tokens_of_pos (by omega)]
      simp [View.holdWeight, View.Holds]
    · simpa [View.Named] using hown
  | unlockFree hl =>
    -- nobody else seems to be counted in: the token goes
    obtain rfl : d = 1 := hrec
    obtain ⟨hpos, hsem⟩ := hheld (Or.inl Nat.one_pos)
    refine ⟨-1, rfl, ?_, hclear.mono (by omega), ?_,
      ⟨?_, fun h => absurd h (lt_irrefl 0), hzero⟩, .inl ⟨rfl, rfl⟩⟩
    · rw [show n + -1 - 1 = n - 2 by omega]
      exact hprev
    · rw [tokens_of_pos hpos]
      rcases eq_or_lt_of_le (show 1 ≤ n from hpos) with rfl | hmany
      · exact .inl (by simp [View.holdWeight, View.Holds, tokens, hsem])
      · refine .inr ⟨⟨n - 2, by omega, ?_⟩, ?_⟩
        · rw [hprev] at hl
          omega
        · rw [tokens_of_pos (by omega)]
          simp [View.holdWeight, View.Holds, hsem]
    · simpa [View.Named] using hown
  | post =>
    obtain rfl : d = 1 := hrec
    refine ⟨0, rfl, ?_, ?_, .inl ?_, ⟨?_, fun h => absurd h (lt_irrefl 0), hzero⟩,
      .inl ⟨rfl, rfl⟩⟩
    · rw [add_zero]
      exact hlock
    · rwa [add_zero]
    · simp only [View.holdWeight, View.Holds, add_zero]
      simp only [reduceCtorEq, or_false, Nat.sub_self, lt_irrefl, if_false, Nat.one_pos, if_true]
      omega
    · simpa [View.Named] using hown
  | unnest =>
    obtain ⟨hd, hr⟩ : 2 ≤ d ∧ cs.recursionCount + 1 = d := hrec
    have hd' : 0 < d - 1 := by omega
    -- the nested calls alone keep the section locked
    have hmany : 2 ≤ n := by
      simp only [View.lockWeight] at hw
      omega
    refine ⟨-1, ?_, ?_, hclear.mono (by omega), .inl ?_, ⟨?_, fun _ => ?_, ?_⟩,
      .inl ⟨rfl, rfl⟩⟩
    · simp only [View.lockWeight]
      omega
    · rw [show n + -1 - 1 = n - 2 by omega]
      exact hprev
    · rw [tokens_of_pos (show 0 < n by omega), tokens_of_pos (by omega)]
      simp [View.holdWeight, View.Holds, hd', show 0 < d by omega]
    · simpa [View.Named, hd', show 0 < d by omega] using hown
    · change cs.recursionCount = ((d - 1 : ℕ) : ℤ)
      omega
    · exact hk.keep_le d _ (Int.natCast_nonneg _) (Int.ofNat_le.mpr (Nat.sub_le d 1)) hfit

/-! ### The invariant -/

variable {ι : Type*} [Fintype ι]

/-- **The invariant of the protocol.** -/
structure Inv (keep : ℤ → ℤ) (tid : ι → ℕ) (c : Config ι CriticalSection View) : Prop where
  /-- `LockCount` keeps the sum of what the threads have put into it, less one. -/
  lock : c.shared.lockCount = keep (total View.lockWeight c.locals - 1)
  /-- It has not come round. -/
  clear : Clear keep (total View.lockWeight c.locals)
  /-- The tokens are with the threads or in the semaphore. -/
  token : TokensOk keep (total View.holdWeight c.locals + c.shared.lockSemaphore)
    (tokens (total View.lockWeight c.locals))
  /-- The section says of each thread what it should. -/
  place : ∀ i, Place keep (tid i) c.shared (c.locals i)

variable {tid : ι → ℕ} {c : Config ι CriticalSection View}

/-- **The token is with at most one thread.** -/
theorem Inv.holds_unique (h : Inv keep tid c) {i j : ι} (hi : (c.locals i).Holds)
    (hj : (c.locals j).Holds) : i = j := by
  by_contra hij
  have htwo := add_le_total (f := c.locals) View.holdWeight_nonneg hij
  rw [View.holdWeight_of_holds hi, View.holdWeight_of_holds hj] at htwo
  have htok := h.token.le
  have hone := tokens_le_one (total View.lockWeight c.locals)
  omega

/-- A thread with the token has it out of the semaphore, and the section is
locked. -/
theorem Inv.of_holds (h : Inv keep tid c) {i : ι} (hi : (c.locals i).Holds) :
    0 < total View.lockWeight c.locals ∧ c.shared.lockSemaphore = 0 := by
  have hle := le_total (f := c.locals) View.holdWeight_nonneg i
  rw [View.holdWeight_of_holds hi] at hle
  have htok := h.token.le
  unfold tokens at htok
  split at htok
  case isTrue hpos =>
    refine ⟨hpos, ?_⟩
    omega
  case isFalse => omega

/-- A section that nobody is counted in has its token nowhere. -/
theorem Inv.of_free (h : Inv keep tid c) (hn : total View.lockWeight c.locals = 0) :
    (∀ j, ¬(c.locals j).Holds) ∧ c.shared.lockSemaphore = 0 := by
  have hno : ∀ j, ¬(c.locals j).Holds := by
    intro j hj
    have := (h.of_holds hj).1
    omega
  refine ⟨hno, ?_⟩
  have htok := h.token.le
  rw [total_eq_zero fun j => View.holdWeight_of_not_holds (hno j), tokens, hn,
    if_neg (by decide)] at htok
  omega

/-- A `LONG` has room for one more call where fewer are counted in than it has numbers. -/
theorem Inv.lockCount_add_one_ne (h : Inv long tid c)
    (hlt : total View.lockWeight c.locals + 1 < 2 ^ 32) : long (c.shared.lockCount + 1) ≠ -1 := by
  have hnn := total_nonneg (f := c.locals) View.lockWeight_nonneg
  have hread : long (c.shared.lockCount + 1) = long (total View.lockWeight c.locals + 1 - 1) := by
    rw [h.lock, counter_long.keep_add, sub_add_cancel, add_sub_cancel_right]
  rw [hread]
  exact clear_signed hlt _ (by omega) le_rfl

/-- **A step of the thread with the token does not concern the others**, whatever
it does to `RecursionCount`, as long as it does not name one of them. -/
theorem Inv.others_of_holds (h : Inv keep tid c) {i : ι} (hi : (c.locals i).Holds)
    {cs : CriticalSection} (hcs : ∀ j, j ≠ i → cs.owningThread ≠ tid j) :
    ∀ j, j ≠ i → Place keep (tid j) cs (c.locals j) := by
  intro j hj
  have hnot : ¬(c.locals j).Holds := fun hcon => hj (h.holds_unique hcon hi)
  refine ⟨iff_of_false (hcs j hj) fun hn => hnot hn.holds, ?_, (h.place j).fits⟩
  exact View.recursionOk_of_not_holds hnot (h.place j).recursion _

/-- A step that leaves `OwningThread` and `RecursionCount` alone does not concern
the others. -/
theorem Inv.others_of_eq (h : Inv keep tid c) {cs : CriticalSection}
    (ho : cs.owningThread = c.shared.owningThread)
    (hr : cs.recursionCount = c.shared.recursionCount) :
    ∀ j, Place keep (tid j) cs (c.locals j) := by
  intro j
  obtain ⟨howner, hrecursion, hfits⟩ := h.place j
  rw [← ho] at howner
  rw [← hr] at hrecursion
  exact ⟨howner, hrecursion, hfits⟩

variable [DecidableEq ι]

/-- **A balanced step keeps the invariant**, if the section says of the other threads what it
should. -/
theorem Inv.move (h : Inv keep tid c) {i : ι} {cs : CriticalSection} {v : View} {k : ℤ}
    (hb : Balanced keep (tid i) c.shared (total View.lockWeight c.locals) (c.locals i) cs k v)
    (hothers : ∀ j, j ≠ i → Place keep (tid j) cs (c.locals j)) :
    Inv keep tid (c.move i cs v) := by
  have hsum : total View.lockWeight (c.move i cs v).locals =
      total View.lockWeight c.locals + k := by
    rw [total_move, hb.weight]
    omega
  refine ⟨?_, ?_, ?_, Config.forall_move (P := fun j v => Place keep (tid j) cs v) hb.place hothers⟩
  · rw [hsum]
    exact hb.lock
  · rw [hsum]
    exact hb.clear
  · rw [hsum, total_move, Config.move_shared]
    have hbefore := h.token
    rcases hb.token with hexact | ⟨hlossy, hle⟩
    · exact hbefore.imp (by omega) (And.imp_right (by omega))
    · have htok := hbefore.le
      exact .inr ⟨hlossy, by omega⟩

omit [DecidableEq ι] in
/-- What the invariant says to thread `i`. -/
theorem Inv.fair (h : Inv keep tid c) (i : ι) :
    Fair keep (tid i) c.shared (total View.lockWeight c.locals) (c.locals i) where
  place := h.place i
  lock := h.lock
  clear := h.clear
  weight := le_total View.lockWeight_nonneg i
  held := h.of_holds
  free := fun hn => ⟨(h.of_free hn).1 i, (h.of_free hn).2⟩

/-- **One step of the protocol keeps the invariant**, the ids being distinct and
none of them `NULL`. -/
theorem Inv.step (hk : Counter keep) (htid : Function.Injective tid) (hnull : ∀ i, tid i ≠ 0)
    (h : Inv keep tid c) {i : ι} {cs : CriticalSection} {v : View}
    (hp : Protocol keep (tid i) c.shared (c.locals i).depth (c.locals i).stage cs v) :
    Inv keep tid (c.move i cs v) := by
  obtain ⟨k, hb⟩ := hp.balanced hk (hnull i) (h.fair i)
  refine h.move hb ?_
  rcases hb.frame with ⟨ho, hr⟩ | ⟨hi, ho⟩
  · exact fun j _ => h.others_of_eq ho hr j
  · refine h.others_of_holds hi fun j hj => ?_
    rcases ho with ho | ho | ho
    · -- `OwningThread` names the thread with the token or nobody
      rw [ho]
      intro hcon
      exact hj (h.holds_unique ((h.place j).owner.mp hcon).holds hi)
    · rw [ho]
      exact fun hcon => hj (htid hcon).symm
    · rw [ho]
      exact (hnull j).symm

/-! ### From the protocol to the code -/

/-- A configuration of the code as the protocol sees it. -/
def views (c : Config ι CriticalSection Local) : Config ι CriticalSection View where
  shared := c.shared
  locals := fun i => (c.locals i).view

omit [Fintype ι] in
theorem views_move (c : Config ι CriticalSection Local) (i : ι) (cs : CriticalSection)
    (l : Local) : views (c.move i cs l) = (views c).move i cs l.view := by
  refine Config.ext rfl (funext fun j => ?_)
  rcases eq_or_ne j i with rfl | hj
  · simp [views]
  · simp [views, hj]

omit [DecidableEq ι] in
theorem inv_start (hk : Counter keep) (hnull : ∀ i, tid i ≠ 0) {cs : CriticalSection}
    (hl : cs.lockCount = -1) (ho : cs.owningThread = 0) (hs : cs.lockSemaphore = 0) :
    Inv keep tid (views (start ι cs)) := by
  have hsum : total View.lockWeight (views (start ι cs)).locals = 0 :=
    total_eq_zero fun _ => rfl
  have hhold : total View.holdWeight (views (start ι cs)).locals = 0 :=
    total_eq_zero fun _ => rfl
  refine ⟨?_, ?_, .inl ?_, fun i => ⟨?_, fun h => absurd h (lt_irrefl 0), ?_⟩⟩
  · rw [hsum]
    exact hl.trans (hk.keep_small (-1) le_rfl (by decide)).symm
  · rw [hsum]
    exact clear_zero
  · rw [hsum, hhold]
    change 0 + ((cs.lockSemaphore : ℕ) : ℤ) = tokens 0
    rw [hs]
    rfl
  · change cs.owningThread = tid i ↔ _
    rw [ho]
    exact iff_of_false (hnull i).symm fun hn => absurd hn.1 (lt_irrefl 0)
  · exact hk.keep_small 0 (by decide) (by decide)

/-- **The invariant holds in every state of every interleaving** in which no counter comes
round. -/
theorem inv_of_reaches (hk : Counter keep) (htid : Function.Injective tid) (hnull : ∀ i, tid i ≠ 0)
    {mallocOk semInitOk : Bool} {p n flags : ℕ} {cs : CriticalSection}
    (hcs : initializeCriticalSectionEx mallocOk semInitOk p n flags = some cs)
    {c : Config ι CriticalSection Local}
    (h : ReachesIf (threadStep (next keep tid)) (Fits keep) (start ι cs) c) :
    Inv keep tid (views c) := by
  obtain ⟨hl, -, ho, hs⟩ := initializeCriticalSectionEx_eq_some hcs
  refine invariant (P := fun d => Inv keep tid (views d)) h (inv_start hk hnull hl ho hs) ?_
  intro d i a cs' l hd hfits hn
  rw [views_move]
  exact hd.step hk htid hnull (protocol_of_next hfits hn)

/-! ### Mutual exclusion -/

/-- **Mutual exclusion**: for any number of threads with distinct non-zero ids, any
spin count and any interleaving in which `RecursionCount` does not overflow and `LockCount`
does not come round to `-1`, at most one thread is inside the section; and a
thread inside it and between its own calls finds its id in `OwningThread` and its
nesting depth in `RecursionCount`. -/
theorem mutual_exclusion (htid : Function.Injective tid) (hnull : ∀ i, tid i ≠ 0)
    {mallocOk semInitOk : Bool} {p n flags : ℕ} {cs : CriticalSection}
    (hcs : initializeCriticalSectionEx mallocOk semInitOk p n flags = some cs)
    {c : Config ι CriticalSection Local}
    (h : ReachesIf (threadStep (next long tid)) (Fits long) (start ι cs) c) :
    (∀ i j, 0 < (c.locals i).depth → 0 < (c.locals j).depth → i = j) ∧
      ∀ i, 0 < (c.locals i).depth → (c.locals i).pc = .idle →
        c.shared.owningThread = tid i ∧ c.shared.recursionCount = (c.locals i).depth := by
  have hinv := inv_of_reaches counter_long htid hnull hcs h
  refine ⟨fun i j hi hj => hinv.holds_unique (Or.inl hi) (Or.inl hj), fun i hi hpc => ?_⟩
  have hst : ((views c).locals i).stage = .out := by simp [views, Local.view, hpc, Pc.stage]
  obtain ⟨hown, hrec, -⟩ := hinv.place i
  refine ⟨hown.mpr ⟨hi, by simp [hst], by simp [hst]⟩, ?_⟩
  simp only [View.RecursionOk, hst] at hrec
  exact hrec hi

/-- Thread `0` enters by the fast path and again by recursion; thread `1` spins,
counts itself in and blocks. -/
def recurseAndBlock : List (Fin 2 × Choice) :=
  (0, .enter) :: List.replicate 4 (0, .go) ++ (0, .enter) :: List.replicate 6 (0, .go) ++
    (1, .enter) :: List.replicate 7 (1, .go)

/-- The section two threads meet at: two processors, spin count `1`. -/
def twoProcessors : CriticalSection :=
  { lockCount := -1, recursionCount := 0, owningThread := 0, lockSemaphore := 0, spinCount := 1 }

/-- The ids of two threads. -/
def twoIds (i : Fin 2) : ℕ := i.val + 1

theorem mutual_exclusion_recurseAndBlock :
    ∃ c, run (threadStep (next long twoIds)) (start (Fin 2) twoProcessors) recurseAndBlock =
        some c ∧
      (c.locals 0).depth = 2 ∧ (c.locals 1).pc = .entering .wait ∧
      c.shared.owningThread = 1 ∧ c.shared.recursionCount = 2 := by
  refine ⟨_, run_eq_final (by decide +kernel), by decide +kernel, by decide +kernel, ?_⟩
  exact (mutual_exclusion (fun i j h => Fin.ext (Nat.succ.inj h)) (fun i => Nat.succ_ne_zero _)
    (show initializeCriticalSectionEx true true 2 1 0 = _ from rfl)
    (reachesIf_of_run recurseAndBlock (by decide +kernel) (run_eq_final (by decide +kernel)))).2 0
    (by decide +kernel) (by decide +kernel)

/-! ### More than a `LONG` can count -/

/-- Thread `0` has entered `n` times, and thread `1` not at all. -/
def nested (n : ℕ) : Config (Fin 2) CriticalSection Local where
  shared :=
    { lockCount := long (n - 1), recursionCount := long n, owningThread := 1, lockSemaphore := 0,
      spinCount := 1 }
  locals i := { pc := .idle, depth := if i = 0 then n else 0 }

/-- The owner enters once more, by `TryEnterCriticalSection`. -/
theorem reaches_nested_succ {n : ℕ} (hpos : 0 < n) (hlt : n < 2 ^ 32) :
    Reaches (threadStep (next long twoIds)) (nested n) (nested (n + 1)) := by
  have hlocked : long (n - 1) ≠ -1 :=
    clear_signed (Int.ofNat_lt.mpr hlt) n (Int.natCast_pos.mpr hpos) le_rfl
  have hrecursion : long (long n + 1) = long ((n + 1 : ℕ) : ℤ) := counter_long.keep_add n 1
  have hlock : long (long (n - 1) + 1) = long (((n + 1 : ℕ) : ℤ) - 1) := by
    have hsum : (n : ℤ) - 1 + 1 = ((n + 1 : ℕ) : ℤ) - 1 := by omega
    rw [counter_long.keep_add, hsum]
  -- what the owner does alone
  let at' (cs : CriticalSection) (p : TryPc) : CriticalSection × Local := (cs, ⟨.trying p, n⟩)
  let cs := (nested n).shared
  have hcall : alone (next long twoIds) (0 : Fin 2) (cs, ⟨.idle, n⟩) .tryEnter =
      some (at' cs .cas) := rfl
  have hcas : alone (next long twoIds) (0 : Fin 2) (at' cs .cas) .go =
      some (at' cs .loadOwner) := by
    simp [at', alone, next, tryEnterCriticalSection, interlockedCompareExchange, cs, nested,
      hlocked]
  have howner : alone (next long twoIds) (0 : Fin 2) (at' cs .loadOwner) .go =
      some (at' cs .loadRecursion) := rfl
  have hload : alone (next long twoIds) (0 : Fin 2) (at' cs .loadRecursion) .go =
      some (at' cs (.storeRecursion cs.recursionCount)) := rfl
  have hstore : alone (next long twoIds) (0 : Fin 2) (at' cs (.storeRecursion cs.recursionCount))
      .go = some (at' { cs with recursionCount := long (cs.recursionCount + 1) } .increment) := rfl
  have hcount : alone (next long twoIds) (0 : Fin 2)
      (at' { cs with recursionCount := long (cs.recursionCount + 1) } .increment) .go =
        some ((nested (n + 1)).shared, ⟨.idle, n + 1⟩) := by
    have hshared : (nested (n + 1)).shared =
        { cs with
          recursionCount := long (cs.recursionCount + 1)
          lockCount := long (cs.lockCount + 1) } := by
      simp only [nested, cs, hrecursion, hlock]
    simp only [at', alone, next, tryEnterCriticalSection, interlockedIncrement, hshared]
  have halone : ReachesIf (alone (next long twoIds) (0 : Fin 2)) (fun _ _ => True)
      ((nested n).shared, (nested n).locals 0) ((nested (n + 1)).shared, ⟨.idle, n + 1⟩) :=
    (((((ReachesIf.refl.tail trivial hcall).tail trivial hcas).tail trivial howner).tail trivial
      hload).tail trivial hstore).tail trivial hcount
  have hend : (nested n).move 0 (nested (n + 1)).shared ⟨.idle, n + 1⟩ = nested (n + 1) := by
    refine Config.ext rfl (funext fun i => ?_)
    rcases eq_or_ne i 0 with rfl | hi
    · rw [Config.move_self]
      rfl
    · rw [Config.move_of_ne _ _ _ hi]
      simp [nested, hi]
  rw [← hend]
  exact reachesIf_alone halone fun _ _ _ => trivial

/-- A thread enters as often as it likes. -/
theorem reaches_nested {n : ℕ} (hle : n < 2 ^ 32) :
    Reaches (threadStep (next long twoIds)) (nested 1) (nested (n + 1)) := by
  induction n with
  | zero => exact .refl
  | succ n ih => exact (ih (by omega)).trans (reaches_nested_succ (Nat.succ_pos n) hle)

/-- Thread `0` enters for the first time. -/
def enterOnce : List (Fin 2 × Choice) := (0, .tryEnter) :: List.replicate 3 (0, .go)

/-- Thread `0` leaves once, and thread `1` enters. -/
def leaveAndEnter : List (Fin 2 × Choice) :=
  (0, .leave) :: List.replicate 5 (0, .go) ++ (1, .enter) :: List.replicate 10 (1, .go)

/-- **A `LONG` cannot count the calls of a thread that enters 2³¹ + 1 times**: when it leaves once,
it clears the owner and posts the semaphore, and lets another thread in. -/
theorem not_mutual_exclusion :
    Function.Injective twoIds ∧ (∀ i, twoIds i ≠ 0) ∧
      initializeCriticalSectionEx true true 2 1 0 = some twoProcessors ∧
      ¬∀ c, Reaches (threadStep (next long twoIds)) (start (Fin 2) twoProcessors) c →
        (∀ i j, 0 < (c.locals i).depth → 0 < (c.locals j).depth → i = j) ∧
          ∀ i, 0 < (c.locals i).depth → (c.locals i).pc = .idle →
            c.shared.owningThread = twoIds i ∧ c.shared.recursionCount = (c.locals i).depth := by
  refine ⟨fun i j h => Fin.ext (Nat.succ.inj h), fun i => Nat.succ_ne_zero _, rfl, fun h => ?_⟩
  have hfirst : Reaches (threadStep (next long twoIds)) (start (Fin 2) twoProcessors)
      (nested 1) := by
    have hrun : run (threadStep (next long twoIds)) (start (Fin 2) twoProcessors) enterOnce =
        some (final _ _ _) := run_eq_final (by decide +kernel)
    have hend : final (threadStep (next long twoIds)) (start (Fin 2) twoProcessors) enterOnce =
        nested 1 := by
      refine Config.ext (by decide +kernel) (funext fun i => ?_)
      revert i
      decide +kernel
    rw [hend] at hrun
    exact reaches_of_run _ hrun
  have hrun : run (threadStep (next long twoIds)) (nested (2 ^ 31 + 1)) leaveAndEnter =
      some (final _ _ _) := run_eq_final (by decide +kernel)
  have hreach := (hfirst.trans (reaches_nested (n := 2 ^ 31) (by decide))).trans
    (reaches_of_run _ hrun)
  have hboth : 0 < ((final (threadStep (next long twoIds)) (nested (2 ^ 31 + 1))
      leaveAndEnter).locals 0).depth ∧
      0 < ((final (threadStep (next long twoIds)) (nested (2 ^ 31 + 1)) leaveAndEnter).locals
        1).depth := by
    decide +kernel
  exact absurd ((h _ hreach).1 0 1 hboth.1 hboth.2) (by decide)

/-! ### Accounting -/

/-- The threads blocked in `sem_wait`. -/
def waiters (c : Config ι CriticalSection Local) : ℕ :=
  (Finset.univ.filter fun i => (c.locals i).pc = .entering .wait).card

/-- No call is under way, except calls that have reached their `sem_wait`. -/
def Quiescent (c : Config ι CriticalSection Local) : Prop :=
  ∀ i, (c.locals i).pc = .idle ∨ (c.locals i).pc = .entering .wait

/-- With numbers that are not bounded no counter comes round. -/
theorem reachesIf_fits_id (htid : Function.Injective tid) (hnull : ∀ i, tid i ≠ 0)
    {mallocOk semInitOk : Bool} {p n flags : ℕ} {cs : CriticalSection}
    (hcs : initializeCriticalSectionEx mallocOk semInitOk p n flags = some cs)
    {c : Config ι CriticalSection Local}
    (h : Reaches (threadStep (next id tid)) (start ι cs) c) :
    ReachesIf (threadStep (next id tid)) (Fits id) (start ι cs) c := by
  induction h with
  | refl => exact .refl
  | @tail c c' e _ _ hstep ih =>
    refine ih.tail ?_ hstep
    have hinv := inv_of_reaches counter_id htid hnull hcs ih
    have hnn := total_nonneg (f := (views c).locals) View.lockWeight_nonneg
    have hlock : id (c.shared.lockCount + 1) ≠ -1 := by
      have hread : c.shared.lockCount = _ := hinv.lock
      rw [hread, id, id]
      omega
    have htry : ∀ q : TryPc, q.Fits id c.shared := by
      rintro (_ | _ | _ | _ | _ | v | _)
      case increment => exact hlock
      all_goals trivial
    change (c.locals e.1).pc.Fits id c.shared
    cases (c.locals e.1).pc with
    | idle | leaving q => trivial
    | trying q => exact htry q
    | entering q =>
      cases q with
      | tryEnter n q => exact htry q
      | storeRecursion v => exact rfl
      | increment => exact hlock
      | _ => trivial

omit [DecidableEq ι] in
/-- In a quiescent state the threads have put their depths and one for each
waiter into `LockCount`. -/
theorem Quiescent.total_lockWeight {c : Config ι CriticalSection Local} (hq : Quiescent c) :
    total View.lockWeight (views c).locals =
      total (fun l : Local => (l.depth : ℤ)) c.locals + waiters c := by
  have hterm : ∀ i, ((views c).locals i).lockWeight =
      ((c.locals i).depth : ℤ) + if (c.locals i).pc = .entering .wait then 1 else 0 := by
    intro i
    rcases hq i with hpc | hpc <;>
      simp [views, Local.view, hpc, Pc.stage, EnterPc.stage, View.lockWeight]
  rw [total, total, waiters, Finset.sum_congr rfl fun i _ => hterm i, Finset.sum_add_distrib,
    Finset.sum_boole]

omit [DecidableEq ι] in
/-- In a quiescent state the tokens with the threads are those of the holders. -/
theorem Quiescent.total_holdWeight {c : Config ι CriticalSection Local} (hq : Quiescent c)
    (hno : ∀ i, (c.locals i).depth = 0) : total View.holdWeight (views c).locals = 0 := by
  refine total_eq_zero fun i => View.holdWeight_of_not_holds ?_
  rcases hq i with hpc | hpc <;>
    simp [views, Local.view, hpc, Pc.stage, EnterPc.stage, View.Holds, hno i]

/-- **Accounting, and no lost wake-up**: with numbers that are not bounded, in every
reachable state in which each call under way waits for the semaphore, `LockCount` is
minus one plus the depth of the holder plus the number of waiters; the semaphore is zero
if there is a holder or no waiter, and one if the section is free and somebody waits. -/
theorem accounting (htid : Function.Injective tid) (hnull : ∀ i, tid i ≠ 0)
    {mallocOk semInitOk : Bool} {p n flags : ℕ} {cs : CriticalSection}
    (hcs : initializeCriticalSectionEx mallocOk semInitOk p n flags = some cs)
    {c : Config ι CriticalSection Local} (h : Reaches (threadStep (next id tid)) (start ι cs) c)
    (hq : Quiescent c) :
    (∀ i, 0 < (c.locals i).depth →
        c.shared.lockCount = -1 + (c.locals i).depth + waiters c ∧ c.shared.lockSemaphore = 0) ∧
      ((∀ i, (c.locals i).depth = 0) →
        c.shared.lockCount = -1 + waiters c ∧
          c.shared.lockSemaphore = if waiters c = 0 then 0 else 1) := by
  have hinv := inv_of_reaches counter_id htid hnull hcs (reachesIf_fits_id htid hnull hcs h)
  have hlock : c.shared.lockCount = _ := hinv.lock
  rw [hq.total_lockWeight, id] at hlock
  constructor
  · intro i hi
    have hsingle : total (fun l : Local => (l.depth : ℤ)) c.locals = (c.locals i).depth := by
      refine total_eq_single fun j hj => ?_
      by_contra hne
      exact hj (hinv.holds_unique (Or.inl (by simp [views, Local.view]; omega)) (Or.inl hi))
    refine ⟨?_, (hinv.of_holds (i := i) (Or.inl hi)).2⟩
    omega
  · intro hno
    have hzero : total (fun l : Local => (l.depth : ℤ)) c.locals = 0 :=
      total_eq_zero fun i => by simp [hno i]
    have htok : _ + (c.shared.lockSemaphore : ℤ) = tokens _ :=
      hinv.token.resolve_right fun hlossy => not_lossy_id hlossy.1
    rw [hq.total_holdWeight hno, hq.total_lockWeight, hzero] at htok
    have hl : c.shared.lockCount = -1 + waiters c := by omega
    refine ⟨hl, ?_⟩
    by_cases hw : waiters c = 0
    · rw [tokens, hw, if_neg (by decide)] at htok
      rw [if_pos hw]
      omega
    · rw [tokens, if_pos (by omega)] at htok
      rw [if_neg hw]
      omega

/-- Thread `0` leaves twice, and posts the token for thread `1`. -/
def leaveAndPost : List (Fin 2 × Choice) :=
  recurseAndBlock ++ (0, .leave) :: List.replicate 3 (0, .go) ++
    (0, .leave) :: List.replicate 5 (0, .go)

theorem accounting_leaveAndPost :
    ∃ c, run (threadStep (next id twoIds)) (start (Fin 2) twoProcessors) leaveAndPost = some c ∧
      waiters c = 1 ∧ (∀ i, (c.locals i).depth = 0) ∧ c.shared.lockCount = -1 + waiters c ∧
      c.shared.lockSemaphore = if waiters c = 0 then 0 else 1 := by
  refine ⟨_, run_eq_final (by decide +kernel), by decide +kernel, by decide +kernel, ?_⟩
  exact (accounting (fun i j h => Fin.ext (Nat.succ.inj h)) (fun i => Nat.succ_ne_zero _)
    (show initializeCriticalSectionEx true true 2 1 0 = _ from rfl)
    (reaches_of_run leaveAndPost (run_eq_final (by decide +kernel)))
    (by unfold Quiescent; decide +kernel)).2 (by decide +kernel)

end Critical

end Libuzi
