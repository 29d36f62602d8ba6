import Mathlib.Algebra.Order.Ring.Int

/-!
# Numbers that go round

A counter in a word of fixed width goes round when it is full, and then reads as another
number than has been counted. What is kept of a number is a function `keep : ℤ → ℤ`: for a
signed word of `w` bits it is `Counters.signed w`, for a number that is not bounded `id`.
`Counters.Counter` is what the two have in common.

A program that asks a counter whether it is where it began is right to trust the answer as
long as the counter has not come round: `Counters.Clear` says up to which number that is so.
A program that asks whether the counter is negative can be misled earlier, if the counter is
`Counters.Lossy`.
-/

namespace Counters

/-- What a signed word of `w` bits keeps of a number: the low bits, the highest of them the
sign. -/
def signed (w : ℕ) (x : ℤ) : ℤ := x.bmod (2 ^ w)

/-- **What is used of a counter**: it adds, and it keeps the numbers from `-1` up to some
bound as they are. -/
structure Counter (keep : ℤ → ℤ) : Prop where
  /-- What is kept of a sum depends on what is kept of its parts. -/
  keep_add : ∀ x y, keep (keep x + y) = keep (x + y)
  /-- The smallest numbers are kept. -/
  keep_small : ∀ x, -1 ≤ x → x ≤ 1 → keep x = x
  /-- With a number those below it are kept. -/
  keep_le : ∀ x y, 0 ≤ y → y ≤ x → keep x = x → keep y = y

theorem counter_id : Counter id := ⟨fun _ _ => rfl, fun _ _ _ => rfl, fun _ _ _ _ _ => rfl⟩

/-- **The numbers that a word keeps.** -/
theorem signed_eq_self_iff {w : ℕ} {x : ℤ} :
    signed (w + 1) x = x ↔ -2 ^ w ≤ x ∧ x < 2 ^ w := by
  have hpow : (2 : ℕ) ^ (w + 1) = 2 * 2 ^ w := pow_succ' 2 w
  have hcast : (2 : ℤ) ^ w = ((2 ^ w : ℕ) : ℤ) := by push_cast; rfl
  have hpos : 0 < 2 ^ w := Nat.two_pow_pos w
  rw [signed, hcast, hpow, Int.bmod_eq_iff (by omega), sub_self, and_iff_left (Int.dvd_zero _)]
  omega

theorem counter_signed (w : ℕ) : Counter (signed (w + 2)) where
  keep_add _ _ := Int.bmod_add_bmod
  keep_small x hle hge := by
    have hpow : (1 : ℤ) < 2 ^ (w + 1) := one_lt_pow₀ (by decide) (Nat.succ_ne_zero w)
    exact signed_eq_self_iff.mpr ⟨by omega, by omega⟩
  keep_le x y hle hge hx := by
    obtain ⟨-, hlt⟩ := signed_eq_self_iff.mp hx
    exact signed_eq_self_iff.mpr ⟨by omega, by omega⟩

variable {keep : ℤ → ℤ} {n m : ℤ}

theorem Counter.keep_sub (h : Counter keep) (x y : ℤ) : keep (keep x - y) = keep (x - y) := by
  rw [sub_eq_add_neg, h.keep_add, sub_eq_add_neg]

theorem Counter.keep_keep (h : Counter keep) (x : ℤ) : keep (keep x) = keep x := by
  have hadd := h.keep_add x 0
  rwa [add_zero, add_zero] at hadd

/-- **The counter has not come round**: counting from `-1` up to `n` more, it is at `-1` only
at the start. -/
def Clear (keep : ℤ → ℤ) (n : ℤ) : Prop := ∀ m, 0 < m → m ≤ n → keep (m - 1) ≠ -1

theorem clear_zero : Clear keep 0 :=
  fun _ hm hle => absurd hm (not_lt_of_ge hle)

theorem Clear.mono (h : Clear keep n) (hle : m ≤ n) : Clear keep m :=
  fun k hk hkm => h k hk (hkm.trans hle)

theorem Clear.succ (h : Clear keep n) (hn : keep n ≠ -1) : Clear keep (n + 1) := by
  intro m hm hle
  rcases eq_or_lt_of_le hle with rfl | hlt
  · rwa [add_sub_cancel_right]
  · exact h m hm (Int.lt_add_one_iff.mp hlt)

/-- **A counter that reads `-1` is at the start.** -/
theorem Clear.eq_zero (h : Clear keep n) (hn : 0 ≤ n) (hread : keep (n - 1) = -1) : n = 0 := by
  by_contra hne
  exact h n (lt_of_le_of_ne hn (Ne.symm hne)) le_rfl hread

/-- **A word comes round when all its numbers have been counted.** -/
theorem clear_signed {w : ℕ} (hn : n < 2 ^ w) : Clear (signed w) n := by
  intro m hm hle hread
  have hcast : (2 : ℤ) ^ w = ((2 ^ w : ℕ) : ℤ) := by push_cast; rfl
  obtain ⟨-, -, k, hk⟩ := (Int.bmod_eq_iff (Nat.two_pow_pos w)).mp hread
  have hdvd : ((2 ^ w : ℕ) : ℤ) ∣ m := ⟨-k, by rw [mul_neg, ← hk]; omega⟩
  have hge := Int.le_of_dvd hm hdvd
  omega

/-- Some number that is counted up to reads as a negative one. -/
def Lossy (keep : ℤ → ℤ) : Prop := ∃ n, 0 ≤ n ∧ keep n < 0

theorem not_lossy_id : ¬Lossy id := fun ⟨_, hn, hneg⟩ => absurd hneg (not_lt_of_ge hn)

end Counters
