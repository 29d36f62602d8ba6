import Mathlib.Algebra.Group.Nat.Defs
import Mathlib.Tactic.Common

/-!
# Memory, byte by byte

A memory is a byte at every address, and a word in it is a run of bytes, the least
significant one first. Of a range of addresses, all that is ever said is what stands
inside it and that the rest is as it was.
-/

namespace Bytes

/-- A byte. -/
abbrev Byte := BitVec 8

/-- A memory. -/
abbrev Memory := ℕ → Byte

/-- The byte of weight `256 ^ k` of a number. -/
def byte (w k : ℕ) : Byte := BitVec.ofNat 8 (w / 256 ^ k)

/-- The `n` bytes from the address `a` on are replaced. -/
def overwrite (m : Memory) (a n : ℕ) (contents : ℕ → Byte) : Memory :=
  fun x => if a ≤ x ∧ x < a + n then contents (x - a) else m x

/-- Store the low `n` bytes of a number at the address `a`. -/
def store (m : Memory) (a n w : ℕ) : Memory := overwrite m a n (byte w)

/-- The number in the `n` bytes from the address `a` on. -/
def load (m : Memory) (a : ℕ) : ℕ → ℕ
  | 0 => 0
  | n + 1 => (m a).toNat + 256 * load m (a + 1) n

variable {m : Memory} {a n x : ℕ} {contents : ℕ → Byte}

theorem overwrite_outside (h : x < a ∨ a + n ≤ x) : overwrite m a n contents x = m x :=
  if_neg (by omega)

theorem overwrite_inside {k : ℕ} (h : k < n) : overwrite m a n contents (a + k) = contents k := by
  rw [overwrite, if_pos ⟨by omega, by omega⟩, Nat.add_sub_cancel_left]

/-! ### Loading -/

/-- A load depends on the bytes it loads only. -/
theorem load_congr {m' : Memory} (h : ∀ k < n, m (a + k) = m' (a + k)) :
    load m a n = load m' a n := by
  induction n generalizing a with
  | zero => rfl
  | succ n ih =>
    have hrest : load m (a + 1) n = load m' (a + 1) n := by
      refine ih fun k hk => ?_
      rw [Nat.add_right_comm, Nat.add_assoc]
      exact h (k + 1) (by omega)
    rw [load, load, hrest, ← Nat.add_zero a, h 0 (Nat.succ_pos n)]

/-- The bytes of a number, loaded from the one of weight `256 ^ k` on. -/
theorem load_bytes {w k : ℕ} (h : ∀ i < n, m (a + i) = byte w (k + i)) :
    load m a n = w / 256 ^ k % 256 ^ n := by
  induction n generalizing a k with
  | zero => exact (Nat.mod_one _).symm
  | succ n ih =>
    have hrest : load m (a + 1) n = w / 256 ^ (k + 1) % 256 ^ n := by
      refine ih fun i hi => ?_
      rw [Nat.add_assoc, Nat.add_assoc, Nat.add_comm 1 i]
      exact h (i + 1) (by omega)
    have hfirst : (m a).toNat = w / 256 ^ k % 256 := by
      have hbyte := h 0 (Nat.succ_pos n)
      rw [Nat.add_zero, Nat.add_zero] at hbyte
      rw [hbyte, byte, BitVec.toNat_ofNat]
    rw [load, hrest, hfirst, Nat.pow_succ 256 k, ← Nat.div_div_eq_div_mul, Nat.pow_succ',
      Nat.mod_mul]

/-- **What has been stored is loaded**, as much of it as has room. -/
theorem load_store (w : ℕ) : load (store m a n w) a n = w % 256 ^ n := by
  rw [load_bytes (w := w) (k := 0), Nat.pow_zero, Nat.div_one]
  intro i hi
  rw [Nat.zero_add, store, overwrite_inside hi]

/-- A load elsewhere is not changed by a store. -/
theorem load_store_of_disjoint {b k : ℕ} (h : b + k ≤ a ∨ a + n ≤ b) (w : ℕ) :
    load (store m a n w) b k = load m b k :=
  load_congr fun i hi => overwrite_outside (by omega)

end Bytes
