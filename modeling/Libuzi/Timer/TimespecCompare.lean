import Libuzi.Timer.Timespec
import Libuzi.Timer.WaitableTimer

/-!
# The order that `timespec_compare` computes

`timespec_compare` of `libuzi/timer.c` on the two words of a `struct timespec` of an LP64 build:
the fields are 64 bits wide, and the difference of two of them is returned as an `int` of 32.
The times that it is called with are normalised and not before the epoch
(`TimespecCompare.Time`); on them it computes what `Timer.timespecCompare` does on integers
without a bound (`TimespecCompare.returned_eq`), because no difference of two such
fields leaves 64 bits.

| difference of seconds | what is returned |
|---|---|
| zero | the difference of nanoseconds, which fits |
| less than `2 ^ 31` | the difference of seconds |
| any other | what its lower half is as a signed number, whose sign may be another one |

The ordered insertion into a timer queue and the test for expired timers rely on the sign
(`TimespecCompare.between_iff`, `TimespecCompare.expired_iff`), and on the comparison being
antisymmetric and transitive. All of this holds of the times of a set exactly when their
differences of seconds keep their sign (`TimespecCompare.timeOrder_iff`), and so whenever they
are less than `2 ^ 31` seconds apart (`TimespecCompare.isTimeOrder_of_within`).
-/

namespace Libuzi

open ThreeWay

namespace TimespecCompare

/-- `timespec_compare`. -/
def timespecCompare (tspec1 tspec2 : WaitableTimer.Timespec) : Int32 :=
  if tspec1.tvSec = tspec2.tvSec then (tspec1.tvNsec - tspec2.tvNsec).toInt32
  else (tspec1.tvSec - tspec2.tvSec).toInt32

/-- **A time**: a `struct timespec` that is normalised and not before the epoch. -/
@[ext] structure Time extends WaitableTimer.Timespec where
  /-- The seconds are not negative. -/
  tvSec_nonneg : 0 ≤ tvSec.toInt
  /-- The nanoseconds are not negative. -/
  tvNsec_nonneg : 0 ≤ tvNsec.toInt
  /-- There are less than a billion of them. -/
  tvNsec_lt : tvNsec.toInt < 1000000000

/-- What `timespec_compare` returns for two times. -/
def returned (a b : Time) : ℤ := (timespecCompare a.toTimespec b.toTimespec).toInt

/-- A time in nanoseconds. -/
def Time.toNs (t : Time) : ℤ := t.toTimespec.toNs

/-! ### The words as numbers -/

section Words

/-- The time with its fields as numbers. -/
def Time.timespec (t : Time) : Timer.Timespec where
  tvSec := t.tvSec.toInt
  tvNsec := t.tvNsec.toInt.toNat
  tvNsec_lt := by
    have := t.tvNsec_lt
    omega

theorem Time.natCast_tvNsec (t : Time) : (t.timespec.tvNsec : ℤ) = t.tvNsec.toInt :=
  Int.toNat_of_nonneg t.tvNsec_nonneg

theorem Time.toNs_timespec (t : Time) : t.timespec.toNs = t.toNs := by
  rw [Timer.Timespec.toNs, t.natCast_tvNsec]
  rfl

/-- The difference of two words that are not negative, in 32 bits. -/
theorem toInt_toInt32_sub {x y : Int64} (hx : 0 ≤ x.toInt) (hy : 0 ≤ y.toInt) :
    (x - y).toInt32.toInt = (x.toInt - y.toInt).bmod (2 ^ 32) := by
  have hx' : x.toInt < 2 ^ 63 := x.toInt_lt
  have hy' : y.toInt < 2 ^ 63 := y.toInt_lt
  have hsub : (x - y).toInt = x.toInt - y.toInt := by
    rw [Int64.toInt_sub]
    exact Int.bmod_eq_of_le (by omega) (by omega)
  rw [Int64.toInt_toInt32, hsub]

/-- **On words the function computes what it does on numbers.** -/
theorem returned_eq (a b : Time) :
    returned a b = Timer.timespecCompare a.timespec b.timespec := by
  rw [returned, timespecCompare, Timer.timespecCompare, a.natCast_tvNsec, b.natCast_tvNsec]
  by_cases hsec : a.tvSec = b.tvSec
  · have hsec' : a.timespec.tvSec = b.timespec.tvSec := congrArg Int64.toInt hsec
    rw [if_pos hsec, if_pos hsec']
    exact toInt_toInt32_sub a.tvNsec_nonneg b.tvNsec_nonneg
  · have hsec' : a.timespec.tvSec ≠ b.timespec.tvSec := fun heq => hsec (Int64.toInt_inj.mp heq)
    rw [if_neg hsec, if_neg hsec']
    exact toInt_toInt32_sub a.tvSec_nonneg b.tvSec_nonneg

end Words

/-! ### Where it is the order of time -/

/-- **The difference of the seconds of two times keeps its sign in 32 bits**: it is zero; or it
is positive, and its lower half is positive as a signed number; or it is negative, and so is its
lower half. -/
def SecondsKeepSign (a b : Time) : Prop :=
  let d := a.tvSec.toInt - b.tvSec.toInt
  d = 0 ∨ (0 < d ∧ 0 < d % 2 ^ 32 ∧ d % 2 ^ 32 < 2 ^ 31) ∨ (d < 0 ∧ 2 ^ 31 ≤ d % 2 ^ 32)

instance (a b : Time) : Decidable (SecondsKeepSign a b) :=
  inferInstanceAs (Decidable (_ ∨ _))

/-- **`timespec_compare` is the time order on a set**: its sign is that of the difference of the
times, it is antisymmetric, and it is transitive. -/
structure IsTimeOrder (S : Set Time) : Prop where
  /-- The sign is that of the difference. -/
  sign : ∀ a ∈ S, ∀ b ∈ S, (returned a b).sign = (a.toNs - b.toNs).sign
  /-- Antisymmetry and transitivity. -/
  lawful : Lawful returned S

theorem keepsSign_iff (a b : Time) :
    KeepsSign (2 ^ 31) (a.timespec.tvSec - b.timespec.tvSec) ↔ SecondsKeepSign a b := by
  rw [KeepsSign, SecondsKeepSign]
  norm_num [Time.timespec]

/-- **The sign is right exactly when the difference of seconds keeps its sign.** -/
theorem sign_returned_iff (a b : Time) :
    (returned a b).sign = (a.toNs - b.toNs).sign ↔ SecondsKeepSign a b := by
  rw [returned_eq, ← a.toNs_timespec, ← b.toNs_timespec, ← keepsSign_iff]
  exact Timer.agrees_timespecCompare_iff a.timespec b.timespec

/-- The test for expired timers, where the sign is right. -/
theorem expired_iff {currentTime expirationTime : Time}
    (h : SecondsKeepSign currentTime expirationTime) :
    0 ≤ returned currentTime expirationTime ↔ expirationTime.toNs ≤ currentTime.toNs :=
  Agrees.nonneg_iff ((sign_returned_iff currentTime expirationTime).mpr h)

/-- The test of the ordered insertion, where the sign is right. -/
theorem between_iff {t a b : Time} (ha : SecondsKeepSign t a) (hb : SecondsKeepSign t b) :
    (0 < returned t a ∧ returned t b < 0) ↔ a.toNs < t.toNs ∧ t.toNs < b.toNs :=
  and_congr (Agrees.pos_iff ((sign_returned_iff t a).mpr ha))
    (Agrees.neg_iff ((sign_returned_iff t b).mpr hb))

/-- Where every difference of seconds keeps its sign. -/
theorem isTimeOrder_of_keepSign {S : Set Time} (h : ∀ a ∈ S, ∀ b ∈ S, SecondsKeepSign a b) :
    IsTimeOrder S := by
  have hsign : ∀ a ∈ S, ∀ b ∈ S, Agrees returned Time.toNs a b := fun a ha b hb =>
    (sign_returned_iff a b).mpr (h a ha b hb)
  exact ⟨hsign, lawful_of_agrees hsign⟩

/-- **Within `2 ^ 31` seconds `timespec_compare` is the time order.** -/
theorem isTimeOrder_of_within {S : Set Time}
    (h : ∀ a ∈ S, ∀ b ∈ S, a.tvSec.toInt - b.tvSec.toInt < 2 ^ 31) : IsTimeOrder S := by
  refine isTimeOrder_of_keepSign fun a ha b hb => (keepsSign_iff a b).mp ?_
  have hab : a.timespec.tvSec - b.timespec.tvSec < 2 ^ 31 := h a ha b hb
  have hba : b.timespec.tvSec - a.timespec.tvSec < 2 ^ 31 := h b hb a ha
  exact keepsSign_of_small (by omega) (by omega)

/-- **`timespec_compare` is right about two times, and the time order on a set of times, exactly
when the differences of their seconds keep their sign.** -/
theorem timeOrder_iff (a b : Time) (S : Set Time) :
    ((returned a b).sign = (a.toNs - b.toNs).sign ↔ SecondsKeepSign a b) ∧
      (IsTimeOrder S ↔ ∀ x ∈ S, ∀ y ∈ S, SecondsKeepSign x y) := by
  refine ⟨sign_returned_iff a b, fun h x hx y hy => ?_, isTimeOrder_of_keepSign⟩
  exact (sign_returned_iff x y).mp (h.sign x hx y hy)

/-! ### Times that are far apart -/

/-- A number of seconds after the epoch. -/
def atSecond (tvSec : Int64) (h : 0 ≤ tvSec.toInt) : Time where
  tvSec
  tvNsec := 0
  tvSec_nonneg := h
  tvNsec_nonneg := by decide
  tvNsec_lt := by decide

/-- The epoch. -/
def epoch : Time := atSecond 0 (by decide)

/-- The year 2004. -/
def inBetween : Time := atSecond (2 ^ 30) (by decide)

/-- The year 2038. -/
def later : Time := atSecond (2 ^ 31) (by decide)

/-- The next second. -/
def latest : Time := atSecond (2 ^ 31 + 1) (by decide)

/-- **Two times that are `2 ^ 31` s apart are each found before the other one**, and of three
times the first is found before the second, the second before the third, and the third before
the first. -/
theorem not_timeOrder_later :
    (returned later epoch).sign ≠ (later.toNs - epoch.toNs).sign ∧
      (returned epoch later).sign ≠ -(returned later epoch).sign ∧
      ¬(returned epoch inBetween ≤ 0 → returned inBetween latest ≤ 0 →
        returned epoch latest ≤ 0) ∧
      ¬IsTimeOrder Set.univ := by
  have hsign : (returned later epoch).sign ≠ (later.toNs - epoch.toNs).sign := by decide
  refine ⟨hsign, by decide, by decide, fun h => hsign ?_⟩
  exact h.sign later (Set.mem_univ _) epoch (Set.mem_univ _)

end TimespecCompare

end Libuzi
