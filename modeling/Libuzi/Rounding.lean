import Mathlib.Algebra.Group.Nat.Defs
import Mathlib.Data.Nat.Prime.Basic
import Mathlib.Tactic.Common

/-!
# Rounding an address down by a mask

A program that wants a multiple of `a` at or below `x` often clears the bits of `a - 1`
in `x`. `Rounding.clear x m` is what is left of `x` without the bits of `m`.

For a power of two this is the largest multiple at or below `x` (`Rounding.dvd_clear`,
`Rounding.le_clear_add`). For any other `a` it is not, and not only for some unfortunate
`x`: of any two numbers that are as far apart as a power of two above the mask, one is not
rounded to a multiple of `a` (`Rounding.not_dvd_clear`), and of the numbers from `a` to `2 * a`
none is (`Rounding.not_dvd_clear_of_lt`).
-/

namespace Rounding

/-- The number `x` without the bits of `m`. -/
def clear (x m : ℕ) : ℕ := x - (x &&& m)

variable {a x m k t : ℕ}

theorem clear_le (x m : ℕ) : clear x m ≤ x := Nat.sub_le _ _

theorem le_clear_add (x m : ℕ) : x ≤ clear x m + m := by
  have hle : x &&& m ≤ m := Nat.and_le_right
  rw [clear]
  omega

/-- Clearing the bits of `2 ^ k - 1` takes the remainder off. -/
theorem clear_two_pow (x k : ℕ) : clear x (2 ^ k - 1) = x - x % 2 ^ k := by
  rw [clear, Nat.and_two_pow_sub_one_eq_mod]

/-- **Masking by the predecessor of a power of two rounds to a multiple of it.** -/
theorem dvd_clear (ha : a.isPowerOfTwo) (x : ℕ) : a ∣ clear x (a - 1) := by
  obtain ⟨k, rfl⟩ := ha
  rw [clear_two_pow]
  exact Nat.dvd_sub_mod x

/-- Below the mask nothing else decides which of its bits a number has. -/
theorem and_add_two_pow (hm : m < 2 ^ t) (x : ℕ) : (x + 2 ^ t) &&& m = x &&& m := by
  have hmod : ∀ y : ℕ, y &&& m = y % 2 ^ t &&& m := by
    intro y
    have hlt : y &&& m < 2 ^ t := Nat.and_lt_two_pow y hm
    rw [← Nat.mod_eq_of_lt hlt, Nat.and_mod_two_pow, Nat.mod_eq_of_lt hm]
  rw [hmod, Nat.add_mod_right, ← hmod]

/-- A power of two above the mask goes through the masking. -/
theorem clear_add_two_pow (hm : m < 2 ^ t) (x : ℕ) : clear (x + 2 ^ t) m = clear x m + 2 ^ t := by
  have hle : x &&& m ≤ x := Nat.and_le_left
  rw [clear, clear, and_add_two_pow hm]
  omega

/-- **Masking by any other predecessor fails** at `x`, or as far above it as a power of two
above the mask. -/
theorem not_dvd_clear (ha : ¬ a.isPowerOfTwo) (hm : m < 2 ^ t) (x : ℕ) :
    ¬ a ∣ clear x m ∨ ¬ a ∣ clear (x + 2 ^ t) m := by
  by_contra hboth
  obtain ⟨hx, hnext⟩ := not_or.mp hboth
  rw [not_not] at hx hnext
  rw [clear_add_two_pow hm] at hnext
  have hpow : a ∣ 2 ^ t := (Nat.dvd_add_right hx).mp hnext
  obtain ⟨k, -, hk⟩ := (Nat.dvd_prime_pow Nat.prime_two).mp hpow
  exact ha ⟨k, hk⟩

/-! ### Words -/

section Words

variable {w : ℕ}

/-- A mask and its complement have no bit of a word in common. -/
theorem and_and_and_not (x m : BitVec w) : (x &&& m) &&& (x &&& ~~~m) = 0#w := by
  calc (x &&& m) &&& (x &&& ~~~m)
      = (x &&& x) &&& (m &&& ~~~m) := by ac_rfl
    _ = 0#w := by
      rw [BitVec.and_not_self]
      exact BitVec.and_zero

/-- Together they have all of them. -/
theorem and_or_and_not (x m : BitVec w) : (x &&& m) ||| (x &&& ~~~m) = x := by
  rw [← BitVec.and_or_distrib_left, BitVec.or_not_self, BitVec.and_allOnes]

/-- **Masking a word** clears the bits of the mask in the number. -/
theorem toNat_and_not (x m : BitVec w) : (x &&& ~~~m).toNat = clear x.toNat m.toNat := by
  have hsum : (x &&& m).toNat + (x &&& ~~~m).toNat = x.toNat := by
    rw [← BitVec.toNat_add_of_and_eq_zero (and_and_and_not x m),
      BitVec.add_eq_or_of_and_eq_zero _ _ (and_and_and_not x m), and_or_and_not]
  rw [BitVec.toNat_and] at hsum
  rw [clear]
  omega

end Words

/-! ### Just above the mask -/

/-- No bit of the mask is left. -/
theorem clear_and (x m : ℕ) : clear x m &&& m = 0 := by
  have hx : x < 2 ^ (x + m) :=
    Nat.lt_of_lt_of_le Nat.lt_two_pow_self (Nat.pow_le_pow_right Nat.two_pos (Nat.le_add_right x m))
  have hm : m < 2 ^ (x + m) :=
    Nat.lt_of_lt_of_le Nat.lt_two_pow_self (Nat.pow_le_pow_right Nat.two_pos (Nat.le_add_left m x))
  have hword := toNat_and_not (BitVec.ofNat (x + m) x) (BitVec.ofNat (x + m) m)
  rw [BitVec.toNat_ofNat, BitVec.toNat_ofNat, Nat.mod_eq_of_lt hx, Nat.mod_eq_of_lt hm] at hword
  calc clear x m &&& m
      = ((BitVec.ofNat (x + m) x &&& ~~~BitVec.ofNat (x + m) m) &&&
          BitVec.ofNat (x + m) m).toNat := by
        rw [BitVec.toNat_and, hword, BitVec.toNat_ofNat, Nat.mod_eq_of_lt hm]
    _ = 0 := by
        rw [BitVec.and_assoc, BitVec.and_comm (~~~_), BitVec.and_not_self]
        simp

/-- **Between the number and its double, masking by the predecessor fails everywhere**, unless
the number is a power of two. -/
theorem not_dvd_clear_of_lt (ha : ¬ a.isPowerOfTwo) (hle : a ≤ x) (hlt : x < 2 * a) :
    ¬ a ∣ clear x (a - 1) := by
  intro hdvd
  have hge := le_clear_add x (a - 1)
  have hcle := clear_le x (a - 1)
  obtain ⟨q, hq⟩ := hdvd
  obtain rfl : q = 1 := by
    have hpos : 0 < a * q := by omega
    have hq0 : 0 < q := Nat.pos_of_mul_pos_left hpos
    have hq2 : a * q < a * 2 := by omega
    have := Nat.lt_of_mul_lt_mul_left hq2
    omega
  have hand := clear_and x (a - 1)
  rw [hq, Nat.mul_one] at hand
  exact ha ((Nat.and_sub_one_eq_zero_iff_isPowerOfTwo (by omega)).mp hand)

end Rounding
