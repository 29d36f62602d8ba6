import Mathlib.Data.List.Nodup
import Mathlib.Data.List.Perm.Basic

/-!
# Ledgers of resources

What a program has acquired and what it has released, entry by entry. The ledger holds
(`Ledger.Book.Holds`) a list when the releases, together with that list, are the
acquisitions, each as often as it was made; it is settled when it holds nothing. A release of
what was never acquired, or a second release of what was acquired once, can never be made up
for: no list is held then.

A program that says at each point what it holds has settled its ledger exactly when that is
nothing (`Ledger.Book.Holds.settled_iff`).
-/

namespace Ledger

/-- The acquisitions and the releases so far, the latest first. -/
structure Book (ρ : Type*) where
  acquired : List ρ
  released : List ρ
  deriving DecidableEq

namespace Book

variable {ρ : Type*} {b : Book ρ} {l l' : List ρ} {r : ρ}

/-- The ledger before anything has happened. -/
def empty : Book ρ := ⟨[], []⟩

/-- One more acquisition. -/
def acquire (b : Book ρ) (r : ρ) : Book ρ := { b with acquired := r :: b.acquired }

/-- One more release. -/
def release (b : Book ρ) (r : ρ) : Book ρ := { b with released := r :: b.released }

/-- **What is held**: together with the releases, each acquisition as often as it was made. -/
def Holds (b : Book ρ) (l : List ρ) : Prop := (l ++ b.released).Perm b.acquired

/-- **Everything acquired has been released exactly once**, and nothing else has. -/
def Settled (b : Book ρ) : Prop := b.released.Perm b.acquired

instance [DecidableEq ρ] (b : Book ρ) : Decidable b.Settled :=
  inferInstanceAs (Decidable (b.released.Perm b.acquired))

theorem holds_empty : (empty : Book ρ).Holds [] := List.Perm.refl _

theorem holds_nil : b.Holds [] ↔ b.Settled := Iff.rfl

theorem Holds.perm (h : b.Holds l) (hl : l'.Perm l) : b.Holds l' := (hl.append_right _).trans h

theorem Holds.acquire (h : b.Holds l) (r : ρ) : (b.acquire r).Holds (r :: l) := List.Perm.cons r h

theorem Holds.release (h : b.Holds (r :: l)) : (b.release r).Holds l :=
  List.perm_middle.trans h

/-- What is held is determined, up to the order. -/
theorem Holds.holds_iff (h : b.Holds l) : b.Holds l' ↔ l'.Perm l := by
  constructor
  · intro h'
    exact (List.perm_append_right_iff b.released).mp (h'.trans h.symm)
  · exact h.perm

/-- **A ledger that holds a list is settled exactly when the list is empty.** -/
theorem Holds.settled_iff (h : b.Holds l) : b.Settled ↔ l = [] := by
  rw [← holds_nil, h.holds_iff, List.nil_perm]

/-- Where nothing has been acquired twice, a ledger is settled exactly when each acquisition has
been released once. -/
theorem Holds.settled_iff_count [DecidableEq ρ] (h : b.Holds l) (hnodup : b.acquired.Nodup) :
    b.Settled ↔ ∀ r ∈ b.acquired, b.released.count r = 1 := by
  rw [Settled, List.perm_iff_count]
  constructor
  · intro hcount r hr
    rw [hcount, List.count_eq_one_of_mem hnodup hr]
  · intro hone r
    by_cases hr : r ∈ b.acquired
    · rw [hone r hr, List.count_eq_one_of_mem hnodup hr]
    · have hheld : (l ++ b.released).count r = b.acquired.count r := h.count_eq r
      rw [List.count_eq_zero_of_not_mem hr, List.count_append] at hheld
      rw [List.count_eq_zero_of_not_mem hr]
      omega

end Book

end Ledger
