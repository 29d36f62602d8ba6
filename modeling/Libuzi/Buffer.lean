import Mathlib.Data.List.Basic
import Mathlib.Logic.Function.Basic

/-!
# Sequences in a memory

A memory is a function from addresses to cells, and an array in it is a run of
consecutive cells. `Buffer.Holds mem p xs` says that the cells from `p` on hold the
sequence `xs`; nothing is said of the cells outside. `Buffer.blit mem p xs` is the
memory after `xs` has been stored from `p` on, cell after cell.

The two fit together: what has been stored is held (`Buffer.holds_blit`), the cells
before and after keep what they had (`Buffer.blit_of_lt`, `Buffer.blit_of_ge`), a store
further on can be made first (`Buffer.blit_update`), and storing a concatenation is
storing its two halves one after the other (`Buffer.blit_append`), which is what a loop
that stores one piece at a time comes to.
-/

namespace Buffer

variable {β : Type*}

/-- **The cells of `mem` from `p` on hold the sequence `xs`.** -/
def Holds (mem : ℕ → β) (p : ℕ) (xs : List β) : Prop :=
  ∀ (i : ℕ) (h : i < xs.length), mem (p + i) = xs[i]

/-- The memory after the sequence `xs` has been stored from `p` on. -/
def blit (mem : ℕ → β) : ℕ → List β → ℕ → β
  | _, [] => mem
  | p, x :: xs => blit (Function.update mem p x) (p + 1) xs

variable {mem : ℕ → β} {p i : ℕ} {x : β} {xs ys : List β}

/-! ### What a memory holds -/

@[simp] theorem holds_nil : Holds mem p [] := by
  intro i h
  exact absurd h (Nat.not_lt_zero i)

@[simp] theorem holds_cons : Holds mem p (x :: xs) ↔ mem p = x ∧ Holds mem (p + 1) xs := by
  constructor
  · intro h
    refine ⟨h 0 (Nat.succ_pos _), fun i hi => ?_⟩
    have := h (i + 1) (Nat.succ_lt_succ hi)
    rwa [← Nat.add_assoc, Nat.add_right_comm] at this
  · rintro ⟨hx, h⟩ i hi
    cases i with
    | zero => exact hx
    | succ i =>
      have := h i (Nat.lt_of_succ_lt_succ hi)
      rwa [Nat.add_right_comm] at this

/-- A memory holds a concatenation when it holds the two halves side by side. -/
theorem holds_append :
    Holds mem p (xs ++ ys) ↔ Holds mem p xs ∧ Holds mem (p + xs.length) ys := by
  induction xs generalizing p with
  | nil => simp
  | cons x xs ih =>
    rw [List.cons_append, holds_cons, holds_cons, ih, and_assoc, List.length_cons,
      Nat.add_assoc, Nat.add_comm 1]

/-! ### Storing a sequence -/

@[simp] theorem blit_nil : blit mem p [] = mem := rfl

@[simp] theorem blit_cons : blit mem p (x :: xs) = blit (Function.update mem p x) (p + 1) xs := rfl

/-- **A sequence can be stored piece after piece.** -/
theorem blit_append : blit mem p (xs ++ ys) = blit (blit mem p xs) (p + xs.length) ys := by
  induction xs generalizing mem p with
  | nil => rfl
  | cons x xs ih =>
    rw [List.cons_append, blit_cons, blit_cons, ih, List.length_cons, Nat.add_assoc,
      Nat.add_comm 1]

/-- A store past a sequence can be made before the sequence is stored. -/
theorem blit_update {q : ℕ} (h : p + xs.length ≤ q) :
    blit (Function.update mem q x) p xs = Function.update (blit mem p xs) q x := by
  induction xs generalizing mem p with
  | nil => rfl
  | cons y xs ih =>
    rw [List.length_cons] at h
    rw [blit_cons, blit_cons, Function.update_comm (by omega), ih (by omega)]

/-- The cells before the stored ones are unchanged. -/
theorem blit_of_lt (h : i < p) : blit mem p xs i = mem i := by
  induction xs generalizing mem p with
  | nil => rfl
  | cons x xs ih => rw [blit_cons, ih (Nat.lt_succ_of_lt h), Function.update_of_ne (Nat.ne_of_lt h)]

/-- The cells past the stored ones are unchanged. -/
theorem blit_of_ge (h : p + xs.length ≤ i) : blit mem p xs i = mem i := by
  induction xs generalizing mem p with
  | nil => rfl
  | cons x xs ih =>
    rw [List.length_cons] at h
    rw [blit_cons, ih (by omega), Function.update_of_ne (by omega)]

/-- **What has been stored is held.** -/
theorem holds_blit : Holds (blit mem p xs) p xs := by
  induction xs generalizing mem p with
  | nil => exact holds_nil
  | cons x xs ih =>
    rw [blit_cons, holds_cons]
    exact ⟨by rw [blit_of_lt (Nat.lt_succ_self p), Function.update_self], ih⟩

end Buffer
