import Mathlib.Data.Nat.Digits.Defs

/-!
# Numerals

A number is written as its digits in a base, the most significant one first, and a digit as a
character. Reading takes the longest run of characters that are digits (`Numerals.scan`) and adds
the digits up from the left (`Numerals.value`), as a loop over the characters does.

What has been written is read back, and the reading stops where the digits do
(`Numerals.scan_map_append`, `Numerals.value_numeral`).
-/

namespace Numerals

variable {γ : Type*} {digit : γ → Option ℕ} {b d n v : ℕ} {ds : List ℕ} {s rest : List γ}

/-- **The longest run of digits** at the beginning, and what comes after it. -/
def scan (digit : γ → Option ℕ) : List γ → List ℕ × List γ
  | [] => ([], [])
  | c :: cs =>
    match digit c with
    | none => ([], c :: cs)
    | some d => (d :: (scan digit cs).1, (scan digit cs).2)

/-- **The number that digits stand for** in the base `b`, when `v` is what stands before them. -/
def value (b : ℕ) : ℕ → List ℕ → ℕ
  | v, [] => v
  | v, d :: ds => value b (v * b + d) ds

/-- The digits of a number in the base `b`, the most significant one first. -/
def numeral (b n : ℕ) : List ℕ := if n = 0 then [0] else (Nat.digits b n).reverse

/-- A run of digits ends where the next character is none. -/
theorem scan_map_append {write : ℕ → γ} (hds : ∀ d ∈ ds, digit (write d) = some d)
    (hrest : ∀ c ∈ rest.head?, digit c = none) :
    scan digit (ds.map write ++ rest) = (ds, rest) := by
  induction ds with
  | nil =>
    cases rest with
    | nil => rfl
    | cons c cs => rw [List.map_nil, List.nil_append, scan, hrest c rfl]
  | cons d ds ih =>
    rw [List.map_cons, List.cons_append, scan, hds d List.mem_cons_self,
      ih fun d' hd' => hds d' (List.mem_cons_of_mem d hd')]

theorem value_append (b v : ℕ) (ds es : List ℕ) :
    value b v (ds ++ es) = value b (value b v ds) es := by
  induction ds generalizing v with
  | nil => rfl
  | cons d ds ih => exact ih _

/-- The digits the other way round are those of `Nat.ofDigits`. -/
theorem value_reverse (b : ℕ) (ds : List ℕ) : value b 0 ds.reverse = Nat.ofDigits b ds := by
  induction ds with
  | nil => rfl
  | cons d ds ih =>
    rw [List.reverse_cons, value_append, ih, Nat.ofDigits_cons]
    change Nat.ofDigits b ds * b + d = _
    rw [Nat.add_comm, Nat.mul_comm]

/-- **A number is read back from its numeral.** -/
theorem value_numeral (b n : ℕ) : value b 0 (numeral b n) = n := by
  rw [numeral]
  split
  case isTrue hn => rw [hn, value, value, Nat.zero_mul]
  case isFalse => rw [value_reverse, Nat.ofDigits_digits]

/-- Zeros in front make no difference. -/
theorem value_leftpad (b : ℕ) (ds : List ℕ) (width : ℕ) :
    value b 0 (ds.leftpad width 0) = value b 0 ds := by
  have hzeros : ∀ k, value b 0 (List.replicate k 0) = 0 := by
    intro k
    induction k with
    | zero => rfl
    | succ k ih =>
      rw [List.replicate_succ, value, Nat.zero_mul]
      exact ih
  rw [List.leftpad, value_append, hzeros]

theorem lt_of_mem_numeral (hb : 1 < b) (hd : d ∈ numeral b n) : d < b := by
  rw [numeral] at hd
  split at hd
  case isTrue =>
    rw [List.mem_singleton.mp hd]
    exact Nat.zero_lt_of_lt hb
  case isFalse => exact Nat.digits_lt_base hb (List.mem_reverse.mp hd)

theorem numeral_ne_nil : numeral b n ≠ [] := by
  rw [numeral]
  split
  case isTrue => exact List.cons_ne_nil 0 []
  case isFalse hn =>
    exact fun h => hn (Nat.digits_eq_nil_iff_eq_zero.mp (List.reverse_eq_nil_iff.mp h))

end Numerals
