import Mathlib.Algebra.Group.Nat.Defs
import Mathlib.Data.Set.Basic
import Mathlib.Tactic.Common

/-!
# Three-way comparisons

A three-way comparison of an `α` with another one returns an integer, and only its sign is
looked at: it is negative where the first comes before the second, positive where it comes
after, and zero where neither does. It *agrees* with a key where that is the order of the keys
(`ThreeWay.Agrees`). Where it agrees throughout a set it is antisymmetric and transitive there
(`ThreeWay.lawful_of_agrees`), so that sorting and searching can rely on it.

## Comparing by a difference

The difference of two numbers has the right sign. Returned in a type of `k` bits it is reduced
to its balanced residue modulo `2 * m`, where `m` is `2 ^ (k - 1)`, and the sign may be lost. It
is kept by small differences (`ThreeWay.keepsSign_of_small`), and by some large ones;
`ThreeWay.sign_bmod_eq_iff` says which these are.
-/

namespace ThreeWay

section Order

variable {α : Type*} {cmp : α → α → ℤ} {key : α → ℤ} {S : Set α} {a b : α}

/-- **The comparison finds `a` and `b` in the order of their keys.** -/
def Agrees (cmp : α → α → ℤ) (key : α → ℤ) (a b : α) : Prop :=
  (cmp a b).sign = (key a - key b).sign

theorem Agrees.neg_iff (h : Agrees cmp key a b) : cmp a b < 0 ↔ key a < key b := by
  rw [← Int.sign_eq_neg_one_iff_neg, h, Int.sign_eq_neg_one_iff_neg]
  omega

theorem Agrees.pos_iff (h : Agrees cmp key a b) : 0 < cmp a b ↔ key b < key a := by
  rw [← Int.sign_eq_one_iff_pos, h, Int.sign_eq_one_iff_pos]
  omega

theorem Agrees.nonneg_iff (h : Agrees cmp key a b) : 0 ≤ cmp a b ↔ key b ≤ key a := by
  rw [← not_lt, h.neg_iff, not_lt]

theorem Agrees.nonpos_iff (h : Agrees cmp key a b) : cmp a b ≤ 0 ↔ key a ≤ key b := by
  rw [← not_lt, h.pos_iff, not_lt]

/-- **What a comparison has to satisfy on a set** for its users to rely on it. -/
structure Lawful (cmp : α → α → ℤ) (S : Set α) : Prop where
  /-- The other way round it is the other way round. -/
  antisymm : ∀ a ∈ S, ∀ b ∈ S, (cmp b a).sign = -(cmp a b).sign
  /-- What does not come after `b` does not come after what `b` does not come after. -/
  trans : ∀ a ∈ S, ∀ b ∈ S, ∀ c ∈ S, cmp a b ≤ 0 → cmp b c ≤ 0 → cmp a c ≤ 0

/-- **A comparison that agrees with a key is lawful.** -/
theorem lawful_of_agrees (h : ∀ a ∈ S, ∀ b ∈ S, Agrees cmp key a b) : Lawful cmp S where
  antisymm a ha b hb := by
    have hba : (cmp b a).sign = (key b - key a).sign := h b hb a ha
    have hab : (cmp a b).sign = (key a - key b).sign := h a ha b hb
    rw [hba, hab, ← Int.sign_neg, Int.neg_sub]
  trans a ha b hb c hc hab hbc := by
    have hab' : key a ≤ key b := (h a ha b hb).nonpos_iff.mp hab
    have hbc' : key b ≤ key c := (h b hb c hc).nonpos_iff.mp hbc
    exact (h a ha c hc).nonpos_iff.mpr (hab'.trans hbc')

end Order

/-! ### Differences -/

section Differences

variable {m : ℕ} {d : ℤ}

/-- The difference `d` is zero, or its residue modulo `2 * m` lies in the half of its sign. -/
def KeepsSign (m : ℕ) (d : ℤ) : Prop :=
  d = 0 ∨ (0 < d ∧ 0 < d % (2 * m) ∧ d % (2 * m) < m) ∨ (d < 0 ∧ m ≤ d % (2 * m))

instance (m : ℕ) (d : ℤ) : Decidable (KeepsSign m d) :=
  inferInstanceAs (Decidable (_ ∨ _))

/-- The balanced residue, by the half that the residue lies in. -/
theorem bmod_two_mul (m : ℕ) (d : ℤ) :
    d.bmod (2 * m) = if d % (2 * m) < m then d % (2 * m) else d % (2 * m) - 2 * m := by
  have hhalf : (2 * m + 1 : ℤ) / 2 = m := by omega
  rw [Int.bmod_def, Int.natCast_mul, Int.cast_ofNat_Int, hhalf]

/-- **A reduced difference has the sign of the difference exactly when it keeps it.** -/
theorem sign_bmod_eq_iff (hm : 0 < m) : (d.bmod (2 * m)).sign = d.sign ↔ KeepsSign m d := by
  have hnonneg : 0 ≤ d % (2 * m) := Int.emod_nonneg d (by omega)
  have hlt : d % (2 * m) < 2 * m := Int.emod_lt_of_pos d (by omega)
  rw [bmod_two_mul, KeepsSign]
  rcases lt_trichotomy d 0 with hd | rfl | hd
  · rw [Int.sign_eq_neg_one_of_neg hd, Int.sign_eq_neg_one_iff_neg]
    split <;> omega
  · simp [hm]
  · rw [Int.sign_eq_one_of_pos hd, Int.sign_eq_one_iff_pos]
    split <;> omega

/-- The same for a number of bits. -/
theorem sign_bmod_two_pow_iff (k : ℕ) (d : ℤ) :
    (d.bmod (2 ^ (k + 1))).sign = d.sign ↔ KeepsSign (2 ^ k) d := by
  rw [Nat.pow_succ', sign_bmod_eq_iff (Nat.two_pow_pos k)]

/-- Small differences keep their sign. -/
theorem keepsSign_of_small (h : -m ≤ d) (h' : d < m) : KeepsSign m d := by
  rcases lt_trichotomy d 0 with hd | hd | hd
  · have hres : d % (2 * m) = d + 2 * m := by
      rw [← Int.add_emod_right]
      exact Int.emod_eq_of_lt (by omega) (by omega)
    exact .inr (.inr ⟨hd, by omega⟩)
  · exact .inl hd
  · have hres : d % (2 * m) = d := Int.emod_eq_of_lt hd.le (by omega)
    exact .inr (.inl ⟨hd, by omega⟩)

end Differences

end ThreeWay
