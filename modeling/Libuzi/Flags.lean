import Mathlib.Data.BitVec
import Mathlib.Logic.Function.Basic

/-!
# Words of flags

A word stands for a set of flags, each of which has a bit of its own (`Flags.Has`). Setting some of
them adds them to the set (`Flags.has_set`), and testing one asks whether it is in it. So what a
sequence of tests and settings does can be read off as a statement about sets
(`Flags.has_setIf`).
-/

namespace Flags

variable {φ : Type*} {w : ℕ} {bit : φ → ℕ} {x : BitVec w} {f : φ} {fs : List φ}

/-- The flag is set in the word. -/
def Has (bit : φ → ℕ) (x : BitVec w) (f : φ) : Prop := x.getLsbD (bit f) = true

instance (bit : φ → ℕ) (x : BitVec w) (f : φ) : Decidable (Has bit x f) :=
  inferInstanceAs (Decidable (_ = true))

/-- The word with these flags and no others. -/
def word (w : ℕ) (bit : φ → ℕ) : List φ → BitVec w
  | [] => 0#w
  | f :: fs => 1#w <<< bit f ||| word w bit fs

/-- **The word with these flags set as well.** -/
def set (bit : φ → ℕ) (fs : List φ) (x : BitVec w) : BitVec w := x ||| word w bit fs

/-- The same under a condition. -/
def setIf (bit : φ → ℕ) (p : Prop) [Decidable p] (fs : List φ) (x : BitVec w) : BitVec w :=
  if p then set bit fs x else x

theorem not_has_zero : ¬Has bit 0#w f := by
  rw [Has, BitVec.getLsbD_zero]
  exact Bool.false_ne_true

theorem has_word (hbit : Function.Injective bit) (hlt : ∀ f, bit f < w) :
    Has bit (word w bit fs) f ↔ f ∈ fs := by
  induction fs with
  | nil => exact iff_of_false not_has_zero List.not_mem_nil
  | cons g fs ih =>
    have hone : (1#w <<< bit g).getLsbD (bit f) = true ↔ f = g := by
      have hf := hlt f
      have hg := hlt g
      simp only [BitVec.getLsbD_shiftLeft, hf, decide_true, Bool.true_and, Bool.and_eq_true,
        Bool.not_eq_true', decide_eq_false_iff_not, BitVec.getLsbD_one, decide_eq_true_iff]
      constructor
      · intro h
        exact hbit (by omega)
      · rintro rfl
        omega
    rw [Has, word, BitVec.getLsbD_or, Bool.or_eq_true, hone, List.mem_cons]
    exact or_congr_right ih

/-- **Setting flags** adds them to the set. -/
theorem has_set (hbit : Function.Injective bit) (hlt : ∀ f, bit f < w) :
    Has bit (set bit fs x) f ↔ Has bit x f ∨ f ∈ fs := by
  rw [Has, set, BitVec.getLsbD_or, Bool.or_eq_true, ← has_word hbit hlt]
  rfl

theorem has_setIf (hbit : Function.Injective bit) (hlt : ∀ f, bit f < w) {p : Prop} [Decidable p] :
    Has bit (setIf bit p fs x) f ↔ Has bit x f ∨ p ∧ f ∈ fs := by
  rw [setIf]
  split
  case isTrue hp => rw [has_set hbit hlt, and_iff_right hp]
  case isFalse hp => rw [or_iff_left fun h => hp h.1]

end Flags
