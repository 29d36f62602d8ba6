import Mathlib.Data.List.Basic
import Mathlib.Data.List.Pairwise

/-!
# List dictionaries

`libuzi/dictionary.c`, seen through the sequence of its items. A dictionary compares keys by
a function that its owner installs; here the comparison of the stored key with the key that
is looked for is one predicate `keyEquals` on stored keys. Every search goes through the
items from the first to the last and stops at the first match.

Nothing keeps two items from having equal keys. Where no two have, a key leads to one item,
and a removal by key removes this item and no other (`getItemValue_of_mem`,
`mem_remove_iff`).
-/

namespace Libuzi

namespace ListDictionary

variable {κ υ : Type*}

/-- `ListDictionary_Add`, at the end. -/
def add (d : List (κ × υ)) (key : κ) (value : υ) : List (κ × υ) := d ++ [(key, value)]

/-- `ListDictionary_Contains`. -/
def contains (keyEquals : κ → Bool) (d : List (κ × υ)) : Bool := d.any fun item => keyEquals item.1

/-- `ListDictionary_GetItemValue`. -/
def getItemValue (keyEquals : κ → Bool) (d : List (κ × υ)) : Option υ :=
  (d.find? fun item => keyEquals item.1).map Prod.snd

/-- `ListDictionary_Remove`: the items afterwards. -/
def remove (keyEquals : κ → Bool) (d : List (κ × υ)) : List (κ × υ) :=
  d.eraseP fun item => keyEquals item.1

/-- `ListDictionary_SetItemValue`: the items afterwards. -/
def setItemValue (keyEquals : κ → Bool) (value : υ) : List (κ × υ) → List (κ × υ)
  | [] => []
  | item :: d =>
    if keyEquals item.1 then (item.1, value) :: d else item :: setItemValue keyEquals value d

/-- `ListDictionary_Count`. -/
def count (d : List (κ × υ)) : ℕ := d.length

theorem remove_cons_of_pos {keyEquals : κ → Bool} {d : List (κ × υ)} {item : κ × υ}
    (h : keyEquals item.1 = true) : remove keyEquals (item :: d) = d :=
  List.eraseP_cons_of_pos h

theorem remove_cons_of_neg {keyEquals : κ → Bool} {d : List (κ × υ)} {item : κ × υ}
    (h : ¬ keyEquals item.1 = true) :
    remove keyEquals (item :: d) = item :: remove keyEquals d :=
  List.eraseP_cons_of_neg h

theorem getItemValue_cons_of_pos {keyEquals : κ → Bool} {d : List (κ × υ)} {item : κ × υ}
    (h : keyEquals item.1 = true) : getItemValue keyEquals (item :: d) = some item.2 :=
  congrArg (Option.map Prod.snd) (List.find?_cons_of_pos h)

theorem getItemValue_cons_of_neg {keyEquals : κ → Bool} {d : List (κ × υ)} {item : κ × υ}
    (h : ¬ keyEquals item.1 = true) :
    getItemValue keyEquals (item :: d) = getItemValue keyEquals d :=
  congrArg (Option.map Prod.snd) (List.find?_cons_of_neg h)

/-! ### The first match -/

section First

variable {keyEquals : κ → Bool} {d ys zs : List (κ × υ)} {item : κ × υ}

theorem contains_of_none (h : ∀ y ∈ d, keyEquals y.1 = false) : contains keyEquals d = false := by
  rw [contains, List.any_eq_false]
  intro y hy
  rw [h y hy]
  exact Bool.false_ne_true

theorem getItemValue_of_none (h : ∀ y ∈ d, keyEquals y.1 = false) :
    getItemValue keyEquals d = none := by
  rw [getItemValue, List.find?_eq_none.mpr, Option.map_none]
  intro y hy
  rw [h y hy]
  exact Bool.false_ne_true

theorem remove_of_none (h : ∀ y ∈ d, keyEquals y.1 = false) : remove keyEquals d = d :=
  List.eraseP_of_forall_not fun y hy => by simp [h y hy]

theorem setItemValue_of_none (value : υ) (h : ∀ y ∈ d, keyEquals y.1 = false) :
    setItemValue keyEquals value d = d := by
  induction d with
  | nil => rfl
  | cons y d ih =>
    rw [List.forall_mem_cons] at h
    rw [setItemValue, if_neg (by rw [h.1]; exact Bool.false_ne_true), ih h.2]

/-- What a removal does not come upon stays. -/
theorem mem_remove_of_ne (h : item ∈ d) (hne : getItemValue keyEquals d ≠ some item.2) :
    item ∈ remove keyEquals d := by
  induction d with
  | nil => exact absurd h List.not_mem_nil
  | cons first d ih =>
    by_cases hfirst : keyEquals first.1 = true
    · rw [remove_cons_of_pos hfirst]
      refine (List.mem_cons.mp h).resolve_left fun heq => hne ?_
      rw [heq, getItemValue_cons_of_pos hfirst]
    · rw [getItemValue_cons_of_neg hfirst] at hne
      rw [remove_cons_of_neg hfirst]
      exact (List.mem_cons.mp h).elim (fun heq => heq ▸ List.mem_cons_self)
        fun h => List.mem_cons_of_mem first (ih h hne)

theorem contains_of_first (hitem : keyEquals item.1 = true) :
    contains keyEquals (ys ++ item :: zs) = true :=
  List.any_eq_true.mpr ⟨item, by simp, hitem⟩

theorem getItemValue_of_first (h : ∀ y ∈ ys, keyEquals y.1 = false)
    (hitem : keyEquals item.1 = true) :
    getItemValue keyEquals (ys ++ item :: zs) = some item.2 := by
  have hfind : (ys ++ item :: zs).find? (fun y => keyEquals y.1) = some item :=
    List.find?_eq_some_iff_append.mpr ⟨hitem, ys, zs, rfl, fun y hy => by simp [h y hy]⟩
  rw [getItemValue, hfind, Option.map_some]

theorem remove_of_first (h : ∀ y ∈ ys, keyEquals y.1 = false) (hitem : keyEquals item.1 = true) :
    remove keyEquals (ys ++ item :: zs) = ys ++ zs := by
  have happend : remove keyEquals (ys ++ item :: zs) = ys ++ remove keyEquals (item :: zs) :=
    List.eraseP_append_right _ fun y hy => by simp [h y hy]
  rw [happend, remove_cons_of_pos hitem]

theorem setItemValue_of_first (value : υ) (h : ∀ y ∈ ys, keyEquals y.1 = false)
    (hitem : keyEquals item.1 = true) :
    setItemValue keyEquals value (ys ++ item :: zs) = ys ++ (item.1, value) :: zs := by
  induction ys with
  | nil => rw [List.nil_append, setItemValue, if_pos hitem, List.nil_append]
  | cons y ys ih =>
    rw [List.forall_mem_cons] at h
    rw [List.cons_append, setItemValue, if_neg (by rw [h.1]; exact Bool.false_ne_true), ih h.2,
      List.cons_append]

end First

/-! ### What a change does to a search -/

section Search

variable {isKey isOther : κ → Bool} {d : List (κ × υ)}

theorem contains_eq_isSome : contains isKey d = (getItemValue isKey d).isSome := by
  rw [contains, getItemValue, Option.isSome_map, Bool.eq_iff_iff, List.any_eq_true,
    List.find?_isSome]

theorem getItemValue_cons (item : κ × υ) :
    getItemValue isKey (item :: d) =
      if isKey item.1 then some item.2 else getItemValue isKey d := by
  by_cases h : isKey item.1 = true
  · rw [getItemValue_cons_of_pos h, if_pos h]
  · rw [getItemValue_cons_of_neg h, if_neg h]

/-- What is added is found behind what was there. -/
theorem getItemValue_add (key : κ) (value : υ) :
    getItemValue isKey (add d key value) =
      (getItemValue isKey d).or (if isKey key then some value else none) := by
  have hlast : getItemValue isKey [(key, value)] = if isKey key then some value else none :=
    getItemValue_cons (key, value)
  rw [← hlast, getItemValue, add, List.find?_append, Option.map_or, getItemValue, getItemValue]

/-- The value that has been set is found. -/
theorem getItemValue_setItemValue (value : υ) :
    getItemValue isKey (setItemValue isKey value d) =
      (getItemValue isKey d).map fun _ => value := by
  induction d with
  | nil => rfl
  | cons item d ih =>
    by_cases h : isKey item.1 = true
    · rw [setItemValue, if_pos h, getItemValue_cons, getItemValue_cons, if_pos h, if_pos h,
        Option.map_some]
    · rw [setItemValue, if_neg h, getItemValue_cons, getItemValue_cons, if_neg h, if_neg h, ih]

/-- Setting the value of a key leaves the values of other keys. -/
theorem getItemValue_setItemValue_of_apart (value : υ)
    (hapart : ∀ key, isKey key = true → isOther key = false) :
    getItemValue isOther (setItemValue isKey value d) = getItemValue isOther d := by
  induction d with
  | nil => rfl
  | cons item d ih =>
    by_cases h : isKey item.1 = true
    · have hother : ¬isOther item.1 = true := by
        rw [hapart item.1 h]
        exact Bool.false_ne_true
      rw [setItemValue, if_pos h, getItemValue_cons, getItemValue_cons, if_neg hother,
        if_neg hother]
    · rw [setItemValue, if_neg h, getItemValue_cons, getItemValue_cons, ih]

/-- Setting a value leaves the keys. -/
theorem map_fst_setItemValue (value : υ) :
    (setItemValue isKey value d).map Prod.fst = d.map Prod.fst := by
  induction d with
  | nil => rfl
  | cons item d ih =>
    by_cases h : isKey item.1 = true
    · rw [setItemValue, if_pos h, List.map_cons, List.map_cons]
    · rw [setItemValue, if_neg h, List.map_cons, List.map_cons, ih]

/-- Removing a key leaves the values of other keys. -/
theorem getItemValue_remove_of_apart (hapart : ∀ key, isKey key = true → isOther key = false) :
    getItemValue isOther (remove isKey d) = getItemValue isOther d := by
  induction d with
  | nil => rfl
  | cons item d ih =>
    by_cases h : isKey item.1 = true
    · have hother : ¬isOther item.1 = true := by
        rw [hapart item.1 h]
        exact Bool.false_ne_true
      rw [remove_cons_of_pos h, getItemValue_cons_of_neg hother]
    · rw [remove_cons_of_neg h, getItemValue_cons, getItemValue_cons, ih]

/-- **A removal leaves no item with the key exactly when there was at most one.** -/
theorem contains_remove_iff :
    contains isKey (remove isKey d) = false ↔ d.countP (fun item => isKey item.1) ≤ 1 := by
  induction d with
  | nil => exact iff_of_true rfl (Nat.zero_le 1)
  | cons item d ih =>
    rw [List.countP_cons]
    by_cases h : isKey item.1 = true
    · have hnone : contains isKey d = false ↔ d.countP (fun item => isKey item.1) = 0 := by
        rw [contains, List.any_eq_false, List.countP_eq_zero]
      rw [remove_cons_of_pos h, if_pos h, hnone]
      omega
    · have hcons : contains isKey (item :: remove isKey d) = contains isKey (remove isKey d) := by
        rw [contains, List.any_cons, Bool.eq_false_iff.mpr h, Bool.false_or, contains]
      rw [remove_cons_of_neg h, if_neg h, Nat.add_zero, hcons, ih]

end Search

/-! ### Distinct keys -/

section Distinct

variable {ν : Type*} [DecidableEq ν] {name : κ → ν} {d : List (κ × υ)} {item : κ × υ}

/-- No two keys of the dictionary are names for the same thing. -/
def Distinct (name : κ → ν) (d : List (κ × υ)) : Prop :=
  d.Pairwise fun a b => name a.1 ≠ name b.1

theorem find?_of_mem (hd : Distinct name d) (h : item ∈ d) :
    d.find? (fun other => decide (name other.1 = name item.1)) = some item := by
  induction d with
  | nil => exact absurd h List.not_mem_nil
  | cons first d ih =>
    obtain ⟨hfirst, hd'⟩ := List.pairwise_cons.mp hd
    rcases List.mem_cons.mp h with rfl | h'
    · exact List.find?_cons_of_pos (decide_eq_true rfl)
    · rw [List.find?_cons_of_neg (by simpa using hfirst item h')]
      exact ih hd' h'

/-- **A key leads to its own item.** -/
theorem getItemValue_of_mem (hd : Distinct name d) (h : item ∈ d) :
    getItemValue (fun key => decide (name key = name item.1)) d = some item.2 := by
  rw [getItemValue, find?_of_mem hd h]
  rfl

/-- **A removal by key removes its own item.** -/
theorem mem_remove_iff (hd : Distinct name d) (h : item ∈ d) {other : κ × υ} :
    other ∈ remove (fun key => decide (name key = name item.1)) d ↔ other ∈ d ∧ other ≠ item := by
  induction d with
  | nil => exact absurd h List.not_mem_nil
  | cons first d ih =>
    obtain ⟨hfirst, hd'⟩ := List.pairwise_cons.mp hd
    rcases List.mem_cons.mp h with rfl | h'
    · have hself : decide (name item.1 = name item.1) = true := decide_eq_true rfl
      rw [remove_cons_of_pos hself, List.mem_cons]
      constructor
      · intro hother
        refine ⟨Or.inr hother, ?_⟩
        rintro rfl
        exact hfirst other hother rfl
      · rintro ⟨rfl | hother, hne⟩
        · exact absurd rfl hne
        · exact hother
    · have hne : first ≠ item := by
        rintro rfl
        exact hfirst first h' rfl
      rw [remove_cons_of_neg (by simpa using hfirst item h'), List.mem_cons, List.mem_cons,
        ih hd' h']
      constructor
      · rintro (rfl | ⟨hother, hneq⟩)
        · exact ⟨Or.inl rfl, hne⟩
        · exact ⟨Or.inr hother, hneq⟩
      · rintro ⟨rfl | hother, hneq⟩
        · exact Or.inl rfl
        · exact Or.inr ⟨hother, hneq⟩

omit [DecidableEq ν] in
theorem Distinct.remove (hd : Distinct name d) (keyEquals : κ → Bool) :
    Distinct name (remove keyEquals d) :=
  List.Pairwise.sublist List.eraseP_sublist hd

end Distinct

end ListDictionary

end Libuzi
