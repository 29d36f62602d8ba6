import Mathlib.Data.List.Basic
import Mathlib.Tactic.Common

/-!
# Sequences cut at a separator

A sequence is cut at every occurrence of a separator into components, of which all but the last
one are followed by a separator. Components may be empty. `Components.split` cuts and
`Components.assemble` puts together; each undoes the other (`Components.assemble_split`,
`Components.split_assemble`).

A beginning of the sequence that ends before a separator is made of the components up to some
place (`Components.endsBefore_assemble_iff`).
-/

namespace Components

variable {α : Type*}

/-- The components that are followed by a separator, and then the last one. -/
def assemble (sep : α) (front : List (List α)) (last : List α) : List α :=
  front.flatMap (· ++ [sep]) ++ last

/-- No component has a separator in it. -/
def Clean (sep : α) (front : List (List α)) (last : List α) : Prop :=
  (∀ c ∈ front, sep ∉ c) ∧ sep ∉ last

/-- One more element in front of the first component. -/
def grow (x : α) : List (List α) × List α → List (List α) × List α
  | ([], last) => ([], x :: last)
  | (c :: front, last) => ((x :: c) :: front, last)

/-- **The components of a sequence.** -/
def split [DecidableEq α] (sep : α) : List α → List (List α) × List α
  | [] => ([], [])
  | x :: l => if x = sep then ([] :: (split sep l).1, (split sep l).2) else grow x (split sep l)

variable {sep x : α} {c last l s : List α} {front : List (List α)}

@[simp] theorem assemble_nil (sep : α) (last : List α) : assemble sep [] last = last := rfl

@[simp] theorem assemble_cons (sep : α) (c : List α) (front : List (List α)) (last : List α) :
    assemble sep (c :: front) last = c ++ sep :: assemble sep front last := by
  simp [assemble]

/-- A component in the middle. -/
theorem assemble_middle (sep : α) (front front' : List (List α)) (c last : List α) :
    assemble sep (front ++ c :: front') last =
      assemble sep front c ++ sep :: assemble sep front' last := by
  simp [assemble]

/-- The last component comes last. -/
theorem assemble_eq (sep : α) (front : List (List α)) (last : List α) :
    assemble sep front last = assemble sep front [] ++ last := by
  simp [assemble]

theorem Clean.tail (h : Clean sep (c :: front) last) : Clean sep front last :=
  ⟨fun c' hc' => h.1 c' (List.mem_cons_of_mem c hc'), h.2⟩

/-- The components up to some place. -/
theorem Clean.beginning {pre post : List (List α)} (h : Clean sep (pre ++ c :: post) last) :
    Clean sep pre c :=
  ⟨fun c' hc' => h.1 c' (List.mem_append_left _ hc'),
    h.1 c (List.mem_append_right _ List.mem_cons_self)⟩

theorem Clean.head (h : Clean sep (c :: front) last) : sep ∉ c := h.1 c List.mem_cons_self

theorem assemble_grow (x : α) (p : List (List α) × List α) :
    assemble sep (grow x p).1 (grow x p).2 = x :: assemble sep p.1 p.2 := by
  obtain ⟨front, last⟩ := p
  cases front with
  | nil => rfl
  | cons c front => rw [grow, assemble_cons, assemble_cons, List.cons_append]

theorem clean_grow (hx : x ≠ sep) {p : List (List α) × List α} (h : Clean sep p.1 p.2) :
    Clean sep (grow x p).1 (grow x p).2 := by
  obtain ⟨front, last⟩ := p
  cases front with
  | nil => exact ⟨h.1, List.not_mem_cons_of_ne_of_not_mem hx.symm h.2⟩
  | cons c front =>
    refine ⟨List.forall_mem_cons.mpr ⟨?_, h.tail.1⟩, h.2⟩
    exact List.not_mem_cons_of_ne_of_not_mem hx.symm h.head

theorem foldr_grow_nil (c last : List α) : c.foldr grow (([] : List (List α)), last) =
    ([], c ++ last) := by
  induction c with
  | nil => rfl
  | cons x c ih => rw [List.foldr_cons, ih, grow, List.cons_append]

theorem foldr_grow_cons (c d last : List α) (front : List (List α)) :
    c.foldr grow (d :: front, last) = ((c ++ d) :: front, last) := by
  induction c with
  | nil => rfl
  | cons x c ih => rw [List.foldr_cons, ih, grow, List.cons_append]

section Split

variable [DecidableEq α]

/-- **The components make up the sequence.** -/
theorem assemble_split (sep : α) (l : List α) :
    assemble sep (split sep l).1 (split sep l).2 = l := by
  induction l with
  | nil => rfl
  | cons x l ih =>
    rw [split]
    split
    · rename_i hx
      rw [assemble_cons, ih, hx, List.nil_append]
    · rw [assemble_grow, ih]

theorem clean_split (sep : α) (l : List α) : Clean sep (split sep l).1 (split sep l).2 := by
  induction l with
  | nil => exact ⟨fun c hc => absurd hc List.not_mem_nil, List.not_mem_nil⟩
  | cons x l ih =>
    rw [split]
    split
    · exact ⟨List.forall_mem_cons.mpr ⟨List.not_mem_nil, ih.1⟩, ih.2⟩
    · rename_i hx
      exact clean_grow hx ih

/-- A component without a separator is not cut. -/
theorem split_append (hc : sep ∉ c) (l : List α) :
    split sep (c ++ l) = c.foldr grow (split sep l) := by
  induction c with
  | nil => rfl
  | cons x c ih =>
    rw [List.mem_cons, not_or] at hc
    rw [List.cons_append, split, if_neg (Ne.symm hc.1), ih hc.2, List.foldr_cons]

/-- **What is put together is cut into the same components.** -/
theorem split_assemble (h : Clean sep front last) :
    split sep (assemble sep front last) = (front, last) := by
  induction front with
  | nil =>
    have hlast := split_append h.2 ([] : List α)
    rw [List.append_nil] at hlast
    rw [assemble_nil, hlast, split, foldr_grow_nil, List.append_nil]
  | cons c front ih =>
    rw [assemble_cons, split_append h.head, split, if_pos rfl, ih h.tail, foldr_grow_cons,
      List.append_nil]

end Split

/-- **A beginning that ends before a separator.** -/
def EndsBefore (sep : α) (l s : List α) : Prop := ∃ rest, l = s ++ sep :: rest

/-- **It is made of the components up to some place.** -/
theorem endsBefore_assemble_iff (h : Clean sep front last) :
    EndsBefore sep (assemble sep front last) s ↔
      ∃ pre c post, front = pre ++ c :: post ∧ s = assemble sep pre c := by
  constructor
  · rintro ⟨rest, hrest⟩
    induction front generalizing s with
    | nil =>
      rw [assemble_nil] at hrest
      exact absurd (by rw [hrest]; simp) h.2
    | cons c front ih =>
      rw [assemble_cons] at hrest
      rcases List.append_eq_append_iff.mp hrest with ⟨a, hs, ha⟩ | ⟨b, hc, hb⟩
      · -- The beginning goes past the first component, or ends with it.
        cases a with
        | nil => exact ⟨[], c, front, rfl, by rw [hs, List.append_nil, assemble_nil]⟩
        | cons x a =>
          obtain ⟨rfl, htail⟩ := List.cons.inj ha
          obtain ⟨pre, d, post, hfront, rfl⟩ := ih h.tail htail
          exact ⟨c :: pre, d, post, by rw [hfront, List.cons_append], by rw [hs, assemble_cons]⟩
      · cases b with
        | nil =>
          rw [List.append_nil] at hc
          exact ⟨[], c, front, rfl, hc.symm⟩
        | cons x b =>
          obtain ⟨rfl, -⟩ := List.cons.inj hb
          exact absurd (by rw [hc]; simp) h.head
  · rintro ⟨pre, c, post, rfl, rfl⟩
    exact ⟨assemble sep post last, assemble_middle sep pre post c last⟩

end Components
