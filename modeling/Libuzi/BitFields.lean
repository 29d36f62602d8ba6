import Mathlib.Tactic.Common

/-!
# Fields that share their memory

A union is one word of memory, and each of its fields is a run of bits of that word: to
read a field is to cut these bits out, and to write one is to replace them. Fields may
overlap, and what a write does to another field is told by where the two stand: nothing to
a field apart from it (`BitFields.read_write_apart`), and to a field inside it what the
written value has there (`BitFields.read_write_inside`).
-/

namespace BitFields

variable {n len len' off off' : ℕ}

/-- The field of `len` bits from the bit `off` on. -/
def read (off len : ℕ) (m : BitVec n) : BitVec len := m.extractLsb' off len

/-- The word with the bits from `off` on replaced by `v`. -/
def write (off : ℕ) (m : BitVec n) (v : BitVec len) : BitVec n :=
  m &&& ~~~((BitVec.allOnes len).setWidth n <<< off) ||| v.setWidth n <<< off

variable {m : BitVec n} {v : BitVec len}

/-- **The bits of a word after a write.** -/
theorem getLsbD_write (h : off + len ≤ n) (i : ℕ) :
    (write off m v).getLsbD i =
      if off ≤ i ∧ i < off + len then v.getLsbD (i - off) else m.getLsbD i := by
  rw [write]
  simp only [BitVec.getLsbD_or, BitVec.getLsbD_and, BitVec.getLsbD_not, BitVec.getLsbD_shiftLeft,
    BitVec.getLsbD_setWidth, BitVec.getLsbD_allOnes]
  by_cases hlow : i < off
  · -- below the field
    rw [if_neg (by omega)]
    by_cases hi : i < n
    · simp [hlow, hi]
    · omega
  · by_cases hhigh : i < off + len
    · have hi : i < n := by omega
      have hin : i - off < n := by omega
      have hlen : i - off < len := by omega
      rw [if_pos (by omega)]
      simp [hlow, hi, hin, hlen]
    · -- above the field
      have hlen : ¬i - off < len := by omega
      rw [if_neg (by omega)]
      have hv : v.getLsbD (i - off) = false := BitVec.getLsbD_of_ge v _ (by omega)
      by_cases hi : i < n
      · simp [hi, hlen, hv]
      · have hm : m.getLsbD i = false := BitVec.getLsbD_of_ge m i (by omega)
        simp [hi, hm, hv]

/-- **A field inside the one written** holds what the value has there. -/
theorem read_write_inside (h : off + len ≤ n) (hin : off ≤ off') (hle : off' + len' ≤ off + len) :
    read off' len' (write off m v) = v.extractLsb' (off' - off) len' := by
  refine BitVec.eq_of_getLsbD_eq fun i hi => ?_
  rw [read, BitVec.getLsbD_extractLsb', BitVec.getLsbD_extractLsb', getLsbD_write h,
    if_pos (by omega)]
  congr 2
  omega

/-- A field that has just been written holds the value. -/
theorem read_write_self (h : off + len ≤ n) : read off len (write off m v) = v := by
  rw [read_write_inside h (Nat.le_refl _) (Nat.le_refl _), Nat.sub_self, BitVec.extractLsb'_eq_self]

/-- **A field apart from the one written** is as it was. -/
theorem read_write_apart (h : off + len ≤ n) (hap : off' + len' ≤ off ∨ off + len ≤ off') :
    read off' len' (write off m v) = read off' len' m := by
  refine BitVec.eq_of_getLsbD_eq fun i hi => ?_
  rw [read, read, BitVec.getLsbD_extractLsb', BitVec.getLsbD_extractLsb', getLsbD_write h,
    if_neg (by omega)]

/-- A field of a field is a field. -/
theorem extractLsb'_read (hle : off' + len' ≤ len) :
    (read off len m).extractLsb' off' len' = read (off + off') len' m := by
  refine BitVec.eq_of_getLsbD_eq fun i hi => ?_
  rw [read, read, BitVec.getLsbD_extractLsb', BitVec.getLsbD_extractLsb',
    BitVec.getLsbD_extractLsb']
  have hlt : off' + i < len := by omega
  simp [hi, hlt, Nat.add_assoc]

/-- **A write that copies a field of another word** makes each field inside it what it is
there. -/
theorem read_write_read {k : ℕ} {m' : BitVec k} (h : off + len ≤ n) (hin : off ≤ off')
    (hle : off' + len' ≤ off + len) :
    read off' len' (write off m (read off len m')) = read off' len' m' := by
  rw [read_write_inside h hin hle, extractLsb'_read (by omega)]
  congr 1
  omega

end BitFields
