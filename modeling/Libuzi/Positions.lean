import Mathlib.Data.List.Basic

/-!
# The last position of a kind

`Positions.last? p l` is the last position of the list `l` whose element is of the kind `p`. Two
things are known of it: what it is (`Positions.last?_eq_some_iff`), and what it becomes when
a part of the list is dropped (`Positions.last?_drop_of_le`, `Positions.last?_drop_of_lt`) or when
two kinds are taken together (`Positions.last?_or`).
-/

namespace Positions

variable {α : Type*}

/-- The last position whose element is of the kind `p`. -/
def last? (p : α → Bool) : List α → Option ℕ
  | [] => none
  | x :: l =>
    match last? p l with
    | some i => some (i + 1)
    | none => if p x then some 0 else none

/-- The later one of two positions, where there are any. -/
def later : Option ℕ → Option ℕ → Option ℕ
  | none, b => b
  | a, none => a
  | some i, some j => some (max i j)

variable {p q : α → Bool} {l : List α} {x : α} {i j k : ℕ}

theorem last?_cons_some (h : last? p l = some i) : last? p (x :: l) = some (i + 1) := by
  rw [last?, h]

theorem last?_cons_none (h : last? p l = none) :
    last? p (x :: l) = if p x then some 0 else none := by
  rw [last?, h]

/-- There is none exactly when no element is of the kind. -/
theorem last?_eq_none_iff : last? p l = none ↔ ∀ x ∈ l, p x = false := by
  induction l with
  | nil => exact ⟨fun _ x hx => absurd hx List.not_mem_nil, fun _ => rfl⟩
  | cons x l ih =>
    rw [List.forall_mem_cons]
    cases h : last? p l with
    | some i =>
      rw [last?_cons_some h]
      refine ⟨fun hnone => (by cases hnone), fun hall => ?_⟩
      rw [ih.mpr hall.2] at h
      cases h
    | none =>
      rw [last?_cons_none h]
      cases hx : p x with
      | true => exact ⟨fun hnone => (by cases hnone), fun hall => (by cases hall.1)⟩
      | false => exact ⟨fun _ => ⟨rfl, ih.mp h⟩, fun _ => rfl⟩

/-- **The last position of a kind**: the element there is of the kind, and none after it is. -/
theorem last?_eq_some_iff : last? p l = some i ↔
    ∃ h : i < l.length, p l[i] = true ∧ ∀ j (hj : j < l.length), i < j → p l[j] = false := by
  induction l generalizing i with
  | nil => exact ⟨fun h => (by cases h), fun ⟨h, _⟩ => absurd h (Nat.not_lt_zero i)⟩
  | cons x l ih =>
    cases h : last? p l with
    | some k =>
      obtain ⟨hk, hpk, hafter⟩ := ih.mp h
      rw [last?_cons_some h]
      constructor
      · intro hi
        obtain rfl : k + 1 = i := Option.some.inj hi
        refine ⟨Nat.succ_lt_succ hk, hpk, fun j hj hij => ?_⟩
        obtain ⟨j, rfl⟩ := Nat.exists_eq_succ_of_ne_zero (Nat.ne_zero_of_lt hij)
        exact hafter j (Nat.lt_of_succ_lt_succ hj) (Nat.lt_of_succ_lt_succ hij)
      · rintro ⟨hi, hpi, hlast⟩
        have hle : k + 1 ≤ i := by
          by_contra hlt
          have hnot := hlast (k + 1) (Nat.succ_lt_succ hk) (Nat.lt_of_not_le hlt)
          rw [List.getElem_cons_succ, hpk] at hnot
          cases hnot
        obtain ⟨i, rfl⟩ := Nat.exists_eq_succ_of_ne_zero (Nat.ne_zero_of_lt hle)
        rw [List.getElem_cons_succ] at hpi
        have hge : ¬ k < i := fun hki => by
          rw [hafter i (Nat.lt_of_succ_lt_succ hi) hki] at hpi
          cases hpi
        have hik : k = i := by omega
        rw [hik]
    | none =>
      have hnone := last?_eq_none_iff.mp h
      rw [last?_cons_none h]
      constructor
      · intro hi
        split at hi
        · rename_i hx
          obtain rfl : 0 = i := Option.some.inj hi
          refine ⟨Nat.succ_pos _, hx, fun j hj hij => ?_⟩
          obtain ⟨j, rfl⟩ := Nat.exists_eq_succ_of_ne_zero (Nat.ne_zero_of_lt hij)
          exact hnone _ (List.getElem_mem _)
        · cases hi
      · rintro ⟨hi, hpi, -⟩
        cases i with
        | zero => exact if_pos hpi
        | succ i =>
          rw [List.getElem_cons_succ, hnone _ (List.getElem_mem _)] at hpi
          cases hpi

/-- What an element of the kind says of the last position. -/
theorem exists_le_last? (hj : j < l.length) (hp : p l[j] = true) :
    ∃ i, last? p l = some i ∧ j ≤ i := by
  cases h : last? p l with
  | none =>
    have hnone := last?_eq_none_iff.mp h l[j] (List.getElem_mem hj)
    rw [hp] at hnone
    cases hnone
  | some i =>
    obtain ⟨-, -, hafter⟩ := last?_eq_some_iff.mp h
    refine ⟨i, rfl, Nat.le_of_not_lt fun hlt => ?_⟩
    rw [hafter j hj hlt] at hp
    cases hp

theorem lt_length_of_last? (h : last? p l = some i) : i < l.length :=
  (last?_eq_some_iff.mp h).1

/-- **Of a rest of the list**, the last position is the same, if the rest goes that far back. -/
theorem last?_drop_of_le (h : last? p l = some i) (hk : k ≤ i) :
    last? p (l.drop k) = some (i - k) := by
  obtain ⟨hi, hpi, hafter⟩ := last?_eq_some_iff.mp h
  refine last?_eq_some_iff.mpr ⟨by rw [List.length_drop]; omega, ?_, fun j hj hij => ?_⟩
  · rw [List.getElem_drop]
    have hik : k + (i - k) = i := by omega
    simp only [hik, hpi]
  · rw [List.length_drop] at hj
    rw [List.getElem_drop]
    exact hafter (k + j) (by omega) (by omega)

/-- Of a rest that begins after it there is none. -/
theorem last?_drop_of_lt (h : ∀ i, last? p l = some i → i < k) : last? p (l.drop k) = none := by
  rw [last?_eq_none_iff]
  intro x hx
  obtain ⟨j, hj, rfl⟩ := List.mem_iff_getElem.mp hx
  rw [List.length_drop] at hj
  rw [List.getElem_drop]
  by_contra hp
  obtain ⟨i, hi, hle⟩ := exists_le_last? (l := l) (j := k + j) (by omega) (Bool.not_eq_false _ ▸ hp)
  have := h i hi
  omega

/-- **The last position of two kinds** is the later one. -/
theorem last?_or (p q : α → Bool) (l : List α) :
    last? (fun x => p x || q x) l = later (last? p l) (last? q l) := by
  induction l with
  | nil => rfl
  | cons x l ih =>
    simp only [last?, ih]
    cases last? p l <;> cases last? q l <;> by_cases hp : p x <;> by_cases hq : q x <;>
      simp [later, hp, hq, Nat.succ_max_succ]

end Positions
