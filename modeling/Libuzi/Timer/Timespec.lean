import Libuzi.ThreeWay
import Mathlib.Data.Int.Basic
import Mathlib.Tactic.Ring

/-!
# The time arithmetic of the timer queue

`struct timespec` and the functions of `libuzi/timer.c` on it, with the integer
widths of an LP64 build. A `Timespec` carries the bound on its nanoseconds, which
every function here keeps.

Two of the functions are exact only on part of their domain, and the lemmas say on
which. `timespec_add_ms` multiplies its 32-bit milliseconds by a million in 32 bits,
so it adds what it should up to `4294` ms (`Timer.toNs_timespecAddMs`).
`timespec_compare` returns a 64-bit difference of seconds as an `int`, so it finds two
times in their order when that difference keeps its sign
(`Timer.agrees_timespecCompare_iff`), and in particular when it is less than `2 ^ 31` s
(`Timer.timespecCompare_neg_iff`).
-/

namespace Libuzi

open ThreeWay

namespace Timer

/-- What `gettimeofday` returns. -/
structure Timeval where
  /-- Seconds. -/
  tvSec : ℤ
  /-- Microseconds. -/
  tvUsec : ℕ
  /-- There are less than a million of them. -/
  tvUsec_lt : tvUsec < 1000000
  deriving DecidableEq

/-- `struct timespec`, normalised. -/
@[ext] structure Timespec where
  /-- Seconds. -/
  tvSec : ℤ
  /-- Nanoseconds. -/
  tvNsec : ℕ
  /-- There are less than a billion of them. -/
  tvNsec_lt : tvNsec < 1000000000
  deriving DecidableEq

/-- A whole number of seconds is normalised. -/
theorem zero_lt_nsecPerSec : 0 < 1000000000 := by decide

/-- The time in nanoseconds. -/
def Timespec.toNs (t : Timespec) : ℤ := t.tvSec * 1000000000 + t.tvNsec

/-- `timespec_gettimeofday`, the clock having returned `tval`. -/
def timespecGettimeofday (tval : Timeval) : Timespec where
  tvSec := tval.tvSec
  tvNsec := tval.tvUsec * 1000
  tvNsec_lt := by
    have := tval.tvUsec_lt
    omega

/-- `timespec_add_ms`. The product `ms * 1000000` is a 32-bit one. -/
def timespecAddMs (tspec : Timespec) (ms : UInt32) : Timespec :=
  let ns := tspec.tvNsec + (ms * 1000000).toNat
  { tvSec := tspec.tvSec + (ns / 1000000000 : ℕ)
    tvNsec := ns % 1000000000
    tvNsec_lt := Nat.mod_lt _ (by decide) }

/-- `timespec_compare`. The difference is returned as a 32-bit `int`. -/
def timespecCompare (tspec1 tspec2 : Timespec) : ℤ :=
  if tspec1.tvSec = tspec2.tvSec then Int.bmod (tspec1.tvNsec - tspec2.tvNsec) (2 ^ 32)
  else Int.bmod (tspec1.tvSec - tspec2.tvSec) (2 ^ 32)

/-! ### Adding milliseconds -/

/-- What `timespec_add_ms` adds, on every input. -/
theorem toNs_timespecAddMs_eq (t : Timespec) (ms : UInt32) :
    (timespecAddMs t ms).toNs = t.toNs + (ms * 1000000).toNat := by
  simp only [timespecAddMs, Timespec.toNs]
  omega

/-- **`timespec_add_ms` is exact up to `4294` ms.** -/
theorem toNs_timespecAddMs (t : Timespec) {ms : UInt32} (h : ms.toNat ≤ 4294) :
    (timespecAddMs t ms).toNs = t.toNs + ms.toNat * 1000000 := by
  have hmul : (ms * 1000000).toNat = ms.toNat * 1000000 := by
    rw [UInt32.toNat_mul]
    exact Nat.mod_eq_of_lt (by change ms.toNat * 1000000 < 2 ^ 32; omega)
  rw [toNs_timespecAddMs_eq, hmul, Nat.cast_mul]
  rfl

/-! ### Comparing -/

/-- The two times are close enough for `timespec_compare`. -/
def Near (a b : Timespec) : Prop :=
  -2 ^ 31 ≤ a.tvSec - b.tvSec ∧ a.tvSec - b.tvSec < 2 ^ 31

instance (a b : Timespec) : Decidable (Near a b) :=
  inferInstanceAs (Decidable (_ ∧ _))

theorem bmod_eq_self {d : ℤ} (h : -2 ^ 31 ≤ d) (h' : d < 2 ^ 31) : Int.bmod d (2 ^ 32) = d := by
  refine Int.bmod_eq_of_le ?_ ?_
  · norm_num
    omega
  · norm_num
    omega

/-- Times in different seconds are as far apart as these. -/
theorem sign_toNs_sub {a b : Timespec} (h : a.tvSec ≠ b.tvSec) :
    (a.toNs - b.toNs).sign = (a.tvSec - b.tvSec).sign := by
  have ha := a.tvNsec_lt
  have hb := b.tvNsec_lt
  rw [Timespec.toNs, Timespec.toNs]
  rcases lt_or_gt_of_ne h with hlt | hgt
  · rw [Int.sign_eq_neg_one_of_neg (by omega), Int.sign_eq_neg_one_of_neg (by omega)]
  · rw [Int.sign_eq_one_of_pos (by omega), Int.sign_eq_one_of_pos (by omega)]

/-- **`timespec_compare` finds two times in their order exactly when the difference of their
seconds keeps its sign in 32 bits.** -/
theorem agrees_timespecCompare_iff (a b : Timespec) :
    Agrees timespecCompare Timespec.toNs a b ↔ KeepsSign (2 ^ 31) (a.tvSec - b.tvSec) := by
  rw [Agrees, timespecCompare]
  split
  next hsec =>
    -- The difference of nanoseconds fits.
    have ha := a.tvNsec_lt
    have hb := b.tvNsec_lt
    have hns : a.toNs - b.toNs = a.tvNsec - b.tvNsec := by
      rw [Timespec.toNs, Timespec.toNs, hsec]
      omega
    rw [hns, bmod_eq_self (by omega) (by omega)]
    exact iff_of_true rfl (.inl (by omega))
  next hsec =>
    rw [sign_toNs_sub hsec]
    exact sign_bmod_two_pow_iff 31 _

/-- It does so for near times. -/
theorem Near.agrees {a b : Timespec} (h : Near a b) : Agrees timespecCompare Timespec.toNs a b := by
  obtain ⟨hlow, hhigh⟩ := h
  exact (agrees_timespecCompare_iff a b).mpr (keepsSign_of_small (by omega) (by omega))

/-- **`timespec_compare` is negative for an earlier time, when the times are near.** -/
theorem timespecCompare_neg_iff {a b : Timespec} (h : Near a b) :
    timespecCompare a b < 0 ↔ a.toNs < b.toNs :=
  h.agrees.neg_iff

/-- It is not, for a time that is not earlier. -/
theorem timespecCompare_nonneg_iff {a b : Timespec} (h : Near a b) :
    0 ≤ timespecCompare a b ↔ b.toNs ≤ a.toNs :=
  h.agrees.nonneg_iff

end Timer

end Libuzi
