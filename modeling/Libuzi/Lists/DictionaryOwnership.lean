import Libuzi.Ledger
import Libuzi.Lists.DictionaryLaws

/-!
# Who owns the keys and the values

A dictionary whose owner has installed the functions `fnObjectFree` owns the keys and the
values it has accepted. What becomes of them:

| call | the key | the value |
|---|---|---|
| `ListDictionary_Clear`, `ListDictionary_Free` | released | released |
| `ListDictionary_SetItemValue` | stays | the old one is released |
| `ListDictionary_Remove`, `ListDictionary_Remove_Head` | **lost** | returned |

The last row has no owner for the key: it is neither released nor returned. Over a whole run
with `ListDictionary_Free` at its end, every value is accounted for
(`Dictionary.values_released_once`), and the keys are exactly when no item has been removed
by one of the two functions (`Dictionary.released_once_iff`).
-/

namespace Libuzi

open Runs Ledger
open scoped List

namespace Dictionary

variable {κ υ : Type}

/-! ### Calls that change what is stored -/

section Calls

/-- A call that changes what is stored. -/
inductive Change (κ υ : Type)
  /-- `ListDictionary_Add`. -/
  | add (key : κ) (value : υ) (malloc : Option Addr)
  /-- `ListDictionary_SetItemValue`. -/
  | setItemValue (key : κ) (value : υ)
  /-- `ListDictionary_Remove`. -/
  | remove (key : κ)
  /-- `ListDictionary_Remove_Head`. -/
  | removeHead
  /-- `ListDictionary_Clear`. -/
  | clear

/-- The call. -/
def Change.op : Change κ υ → Op κ υ
  | .add key value malloc => .add key value malloc
  | .setItemValue key value => .setItemValue key value
  | .remove key => .remove key
  | .removeHead => .removeHead
  | .clear => .clear

/-- A dictionary, with what it has been given and what it has given back, the latest first. -/
structure Custody (κ υ : Type) where
  dictionary : ListDictionary κ υ
  /-- The keys that have been accepted. -/
  keys : List κ
  /-- The values that have been accepted. -/
  values : List υ
  /-- The values that have been returned. -/
  returned : List υ

/-- The key that a call has accepted. -/
def keyIn : Change κ υ → Ret κ υ → List κ
  | .add key _ _, .bool true => [key]
  | _, _ => []

/-- The value that a call has accepted. -/
def valueIn : Change κ υ → Ret κ υ → List υ
  | .add _ value _, .bool true => [value]
  | .setItemValue _ value, .bool true => [value]
  | _, _ => []

/-- Whether the call takes an item out of the dictionary and returns its value. -/
def takesOut (o : Objects κ υ) (d : ListDictionary κ υ) : Change κ υ → Bool
  | .remove key =>
    match answer o d (.contains key) with
    | .ok (.bool found) => found
    | _ => false
  | .removeHead => d.head.isSome
  | _ => false

/-- The value that a call has returned, if it has taken an item out. -/
def valueOut (taken : Bool) : Ret κ υ → List υ
  | .value value => if taken then [value] else []
  | _ => []

/-- A call, with what it accepts and returns. -/
def custodyStep (o : Objects κ υ) (s : Custody κ υ) (c : Change κ υ) : Option (Custody κ υ) :=
  match exec o s.dictionary c.op with
  | .ok (d, r) => some {
      dictionary := d
      keys := keyIn c r ++ s.keys
      values := valueIn c r ++ s.values
      returned := valueOut (takesOut o s.dictionary c) r ++ s.returned }
  | .error _ => none

instance (d : ListDictionary κ υ) : (op : Op κ υ) → Decidable (Unused d op)
  | .add _ _ (some a) => decidable_of_iff ((d.items a).isNone = true) Option.isNone_iff_eq_none
  | .add _ _ none | .remove _ | .removeHead | .setItemValue _ _ | .clear | .contains _
  | .getItemValue _ | .count | .getKeys _ _ => isTrue trivial

/-- A new dictionary. -/
def Custody.new (synchronized : Bool) : Custody κ υ where
  dictionary := listDictionaryNew synchronized
  keys := []
  values := []
  returned := []

/-- `ListDictionary_Free`: what the functions `fnObjectFree` have been called with by the time
the dictionary itself is freed. -/
def listDictionaryFree (o : Objects κ υ) (d : ListDictionary κ υ) :
    Except Fault (List (κ ⊕ υ)) := do
  let d ← listDictionaryClear o d
  return d.released

/-- The keys that have been released. -/
def freedKeys (released : List (κ ⊕ υ)) : List κ := released.filterMap Sum.getLeft?

/-- The values that have been released. -/
def freedValues (released : List (κ ⊕ υ)) : List υ := released.filterMap Sum.getRight?

/-- Every key has been released exactly once. -/
def KeysReleasedOnce [DecidableEq κ] (s : Custody κ υ) (released : List (κ ⊕ υ)) : Prop :=
  ∀ key ∈ s.keys, (freedKeys released).count key = 1

/-- Every value has been returned or released, exactly once in all. -/
def ValuesReleasedOnce [DecidableEq υ] (s : Custody κ υ) (released : List (κ ⊕ υ)) : Prop :=
  ∀ value ∈ s.values, s.returned.count value + (freedValues released).count value = 1

end Calls

/-! ### What one call does to the keys and the values -/

section Sequence

variable {isKey : κ → Bool} {xs : List (κ × υ)}

/-- The key of the item that a call takes out. -/
def keyOut (o : Objects κ υ) (xs : List (κ × υ)) : Change κ υ → List κ
  | .remove key => ((xs.find? fun item => o.keyEquals item.1 key).map Prod.fst).toList
  | .removeHead => (xs.head?.map Prod.fst).toList
  | _ => []

/-- A removal takes the item that is found out of the items: `f` of it is its key or its value. -/
theorem perm_map_remove {γ : Type*} (f : κ × υ → γ) (isKey : κ → Bool) (xs : List (κ × υ)) :
    ((ListDictionary.remove isKey xs).map f ++
      ((xs.find? fun item => isKey item.1).map f).toList).Perm (xs.map f) := by
  induction xs with
  | nil => exact List.Perm.refl []
  | cons item xs ih =>
    by_cases h : isKey item.1 = true
    · have hfound : (item :: xs).find? (fun item => isKey item.1) = some item :=
        List.find?_cons_of_pos h
      rw [ListDictionary.remove_cons_of_pos h, hfound, List.map_cons]
      exact List.perm_append_singleton (f item) (xs.map f)
    · have hfound : (item :: xs).find? (fun item => isKey item.1) =
          xs.find? fun item => isKey item.1 := List.find?_cons_of_neg h
      rw [ListDictionary.remove_cons_of_neg h, hfound, List.map_cons, List.map_cons]
      exact ih.cons (f item)

/-- Adding an item adds its key and its value. -/
theorem perm_map_add {γ : Type*} (f : κ × υ → γ) (xs : List (κ × υ)) (key : κ) (value : υ) :
    ((ListDictionary.add xs key value).map f ++ [] ++ []).Perm (f (key, value) :: xs.map f) := by
  have hadd : (ListDictionary.add xs key value).map f = xs.map f ++ [f (key, value)] :=
    List.map_append
  rw [hadd, List.append_nil, List.append_nil]
  exact List.perm_append_singleton _ _

/-- Removing the head takes its key and its value. -/
theorem perm_map_removeHead {γ : Type*} (f : κ × υ → γ) (item : κ × υ) (xs : List (κ × υ)) :
    (xs.map f ++ [f item] ++ []).Perm ((item :: xs).map f) := by
  rw [List.append_nil, List.map_cons]
  exact List.perm_append_singleton _ _

/-- Setting a value puts it in the place of the one that is found. -/
theorem perm_values_setItemValue (value : υ) :
    ((ListDictionary.setItemValue isKey value xs).map Prod.snd ++
      (ListDictionary.getItemValue isKey xs).toList).Perm
        ((if ListDictionary.contains isKey xs then [value] else []) ++ xs.map Prod.snd) := by
  induction xs with
  | nil => exact List.Perm.refl []
  | cons item xs ih =>
    by_cases h : isKey item.1 = true
    · have hfound : ListDictionary.contains isKey (item :: xs) = true :=
        List.any_eq_true.mpr ⟨item, List.mem_cons_self, h⟩
      rw [ListDictionary.setItemValue, if_pos h, ListDictionary.getItemValue_cons_of_pos h,
        if_pos hfound, List.map_cons, List.map_cons]
      exact (List.perm_append_singleton item.2 (xs.map Prod.snd)).cons value
    · have hrest : ListDictionary.contains isKey (item :: xs) =
          ListDictionary.contains isKey xs := by
        rw [ListDictionary.contains_eq_isSome, ListDictionary.contains_eq_isSome,
          ListDictionary.getItemValue_cons_of_neg h]
      rw [ListDictionary.setItemValue, if_neg h, ListDictionary.getItemValue_cons_of_neg h,
        hrest, List.map_cons, List.map_cons]
      exact (ih.cons item.2).trans List.perm_middle.symm

end Sequence

/-! ### The accounts -/

section Accounts

variable {o : Objects κ υ} {s s' : Custody κ υ} {d d' : ListDictionary κ υ} {xs ys : List (κ × υ)}
  {c : Change κ υ}

/-- The keys accepted and those released. -/
def keyBook (s : Custody κ υ) : Book κ := ⟨s.keys, freedKeys s.dictionary.released⟩

/-- The values accepted and those returned or released. -/
def valueBook (s : Custody κ υ) : Book υ :=
  ⟨s.values, s.returned ++ freedValues s.dictionary.released⟩

theorem freedKeys_append (rel rel' : List (κ ⊕ υ)) :
    freedKeys (rel ++ rel') = freedKeys rel ++ freedKeys rel' := List.filterMap_append

theorem freedValues_append (rel rel' : List (κ ⊕ υ)) :
    freedValues (rel ++ rel') = freedValues rel ++ freedValues rel' := List.filterMap_append

/-- Where both functions are installed, clearing releases every key and every value. -/
theorem freed_flatMap (hkey : o.keyFree = true) (hvalue : o.valueFree = true)
    (xs : List (κ × υ)) :
    freedKeys (xs.flatMap (released o)) = xs.map Prod.fst ∧
      freedValues (xs.flatMap (released o)) = xs.map Prod.snd := by
  induction xs with
  | nil => exact ⟨rfl, rfl⟩
  | cons item xs ih =>
    have hitem : released o item = [.inl item.1, .inr item.2] := by
      rw [released, if_pos hkey, if_pos hvalue]
      rfl
    rw [List.flatMap_cons, freedKeys_append, freedValues_append, ih.1, ih.2, hitem]
    exact ⟨rfl, rfl⟩

/-- The sequence a dictionary stands for is determined. -/
theorem Represents.unique (h : Represents d xs) (h' : Represents d ys) : xs = ys := by
  obtain ⟨ns, hns, rfl⟩ := h.stores
  obtain ⟨ms, hms, rfl⟩ := h'.stores
  have haddr : ns.map Prod.fst = ms.map Prod.fst :=
    hns.segment.path.unique hms.segment.path
  have hpair : ∀ {ks : List (Addr × κ × υ)}, Segment d.items d.head ks none →
      (ks.map Prod.snd).map some = (ks.map Prod.fst).map d.items.pair := fun hks => by
    rw [List.map_map, List.map_map]
    exact List.map_congr_left fun n hn => (hks.pair n hn).symm
  have hsome : (ns.map Prod.snd).map some = (ms.map Prod.snd).map some := by
    rw [hpair hns.segment, hpair hms.segment, haddr]
  exact (Option.some_injective _).list_map hsome

/-- Whether a call takes an item out is seen in the sequence. -/
theorem takesOut_eq (h : Represents d xs) : takesOut o d c = !(keyOut o xs c).isEmpty := by
  cases c with
  | add | setItemValue | clear => rfl
  | remove key =>
    have hanswer : answer o d (.contains key) =
        .ok (.bool (ListDictionary.contains (o.keyEquals · key) xs)) := answer_eq h trivial trivial
    rw [takesOut, hanswer, ListDictionary.contains_eq_isSome, keyOut,
      ListDictionary.getItemValue]
    cases xs.find? fun item => o.keyEquals item.1 key <;> rfl
  | removeHead =>
    obtain ⟨ns, hns, rfl⟩ := h.stores
    have hsegment := hns.segment
    cases ns with
    | nil => rw [takesOut, segment_nil.mp hsegment]; rfl
    | cons n ns => rw [takesOut, (segment_cons.mp hsegment).1]; rfl

/-- What a call does to the keys: those in the dictionary, the one taken out and those released
are those that were there before and the one accepted. -/
theorem perm_keys (hkey : o.keyFree = true) (hvalue : o.valueFree = true) (xs : List (κ × υ))
    (c : Change κ υ) :
    ((after o xs c.op).map Prod.fst ++ keyOut o xs c ++ freedKeys (releasedBy o xs c.op)).Perm
      (keyIn c (ret o xs c.op) ++ xs.map Prod.fst) := by
  cases c with
  | add key value malloc =>
    cases malloc with
    | none =>
      have hsame : xs.map Prod.fst ++ [] ++ [] = xs.map Prod.fst := by simp
      exact List.Perm.of_eq hsame
    | some a => exact perm_map_add Prod.fst xs key value
  | setItemValue key value =>
    have hkeys : (ListDictionary.setItemValue (o.keyEquals · key) value xs).map Prod.fst =
        xs.map Prod.fst := ListDictionary.map_fst_setItemValue value
    have hfreed : freedKeys (releasedBy o xs (.setItemValue key value)) = [] := by
      rw [releasedBy, if_pos hvalue, freedKeys, List.filterMap_map]
      exact List.filterMap_eq_nil_iff.mpr fun _ _ => rfl
    have hin : keyIn (.setItemValue key value) (ret o xs (.setItemValue key value)) = [] := rfl
    have hout : keyOut o xs (.setItemValue key value) = [] := rfl
    rw [Change.op, hfreed, hin, hout, after, hkeys, List.append_nil, List.append_nil,
      List.nil_append]
  | remove key =>
    have hperm := perm_map_remove Prod.fst (o.keyEquals · key) xs
    rw [← List.append_nil (_ ++ _)] at hperm
    exact hperm
  | removeHead =>
    cases xs with
    | nil => exact List.Perm.refl []
    | cons item xs => exact perm_map_removeHead Prod.fst item xs
  | clear => exact List.Perm.of_eq (freed_flatMap hkey hvalue xs).1

/-- What a call does to the values. -/
theorem perm_values (hkey : o.keyFree = true) (hvalue : o.valueFree = true)
    (h : Represents d xs) (c : Change κ υ) :
    ((after o xs c.op).map Prod.snd ++ valueOut (takesOut o d c) (ret o xs c.op) ++
      freedValues (releasedBy o xs c.op)).Perm
        (valueIn c (ret o xs c.op) ++ xs.map Prod.snd) := by
  rw [takesOut_eq h]
  cases c with
  | add key value malloc =>
    cases malloc with
    | none =>
      have hsame : xs.map Prod.snd ++ [] ++ [] = xs.map Prod.snd := by simp
      exact List.Perm.of_eq hsame
    | some a => exact perm_map_add Prod.snd xs key value
  | setItemValue key value =>
    have hfreed : freedValues (releasedBy o xs (.setItemValue key value)) =
        (ListDictionary.getItemValue (o.keyEquals · key) xs).toList := by
      rw [releasedBy, if_pos hvalue, freedValues, List.filterMap_map]
      exact List.filterMap_some
    have hin : valueIn (.setItemValue key value) (ret o xs (.setItemValue key value)) =
        if ListDictionary.contains (o.keyEquals · key) xs then [value] else [] := by
      rw [ret]
      cases ListDictionary.contains (o.keyEquals · key) xs <;> rfl
    have hout : valueOut (!(keyOut o xs (.setItemValue key value)).isEmpty)
        (ret o xs (.setItemValue key value)) = [] := rfl
    rw [Change.op, hfreed, hin, hout, List.append_nil]
    exact perm_values_setItemValue value
  | remove key =>
    have hout : valueOut (!(keyOut o xs (.remove key)).isEmpty) (ret o xs (.remove key)) =
        ((xs.find? fun item => o.keyEquals item.1 key).map Prod.snd).toList := by
      rw [keyOut, ret, ListDictionary.getItemValue]
      cases xs.find? fun item => o.keyEquals item.1 key <;> rfl
    have hperm := perm_map_remove Prod.snd (o.keyEquals · key) xs
    rw [← hout, ← List.append_nil (_ ++ _)] at hperm
    exact hperm
  | removeHead =>
    cases xs with
    | nil => exact List.Perm.refl []
    | cons item xs => exact perm_map_removeHead Prod.snd item xs
  | clear => exact List.Perm.of_eq (freed_flatMap hkey hvalue xs).2

end Accounts

/-! ### Runs -/

section Run

variable {o : Objects κ υ} {s s' : Custody κ υ} {c : Change κ υ} {cs : List (Change κ υ)}

/-- **The accounts of a state**: the keys accepted are those in the dictionary, those released
and those that were lost; the values accepted are those in the dictionary and those returned or
released. -/
structure Accounts (s : Custody κ υ) (xs : List (κ × υ)) (lost : List κ) : Prop where
  /-- What the dictionary stands for. -/
  represents : Represents s.dictionary xs
  /-- The keys. -/
  keys : (keyBook s).Holds (xs.map Prod.fst ++ lost)
  /-- The values. -/
  values : (valueBook s).Holds (xs.map Prod.snd)

/-- No key has been lost. -/
def NoneLost (s : Custody κ υ) : Prop :=
  ∃ xs, Represents s.dictionary xs ∧ (keyBook s).Holds (xs.map Prod.fst)

theorem Accounts.noneLost_iff {xs : List (κ × υ)} {lost : List κ} (h : Accounts s xs lost) :
    NoneLost s ↔ lost = [] := by
  constructor
  · rintro ⟨ys, hys, hholds⟩
    obtain rfl := h.represents.unique hys
    have hperm : (xs.map Prod.fst).Perm (xs.map Prod.fst ++ lost) := h.keys.holds_iff.mp hholds
    have hlen := hperm.length_eq
    rw [List.length_append] at hlen
    exact List.eq_nil_of_length_eq_zero (by omega)
  · rintro rfl
    have hholds := h.keys
    rw [List.append_nil] at hholds
    exact ⟨xs, h.represents, hholds⟩

/-- Nothing has been accepted by a new dictionary. -/
theorem accounts_new (synchronized : Bool) :
    Accounts (Custody.new synchronized : Custody κ υ) [] [] :=
  ⟨represents_new synchronized, Book.holds_empty, Book.holds_empty⟩

/-- What is accounted for after a call, when the call accounts for what it changes. -/
theorem perm_after_call {ρ : Type} {before after taken lost out freed freedNow accepted : List ρ}
    (hcall : (after ++ out ++ freedNow).Perm (taken ++ before))
    (hbefore : (before ++ (lost ++ freed)).Perm accepted) :
    (after ++ ((out ++ lost) ++ (freed ++ freedNow))).Perm (taken ++ accepted) := by
  have hlast : ((lost ++ freed) ++ freedNow).Perm (freedNow ++ (lost ++ freed)) :=
    List.perm_append_comm
  calc after ++ ((out ++ lost) ++ (freed ++ freedNow))
    _ = after ++ (out ++ ((lost ++ freed) ++ freedNow)) := by simp only [List.append_assoc]
    _ ~ after ++ (out ++ (freedNow ++ (lost ++ freed))) := (hlast.append_left out).append_left after
    _ = after ++ out ++ freedNow ++ (lost ++ freed) := by simp only [List.append_assoc]
    _ ~ taken ++ before ++ (lost ++ freed) := hcall.append_right (lost ++ freed)
    _ = taken ++ (before ++ (lost ++ freed)) := List.append_assoc ..
    _ ~ taken ++ accepted := hbefore.append_left taken

/-- **One call keeps the accounts**: the key of an item that is taken out is lost. -/
theorem Accounts.step (hkey : o.keyFree = true) (hvalue : o.valueFree = true)
    {xs : List (κ × υ)} {lost : List κ} (h : Accounts s xs lost)
    (hunused : Unused s.dictionary c.op) (hstep : custodyStep o s c = some s') :
    Accounts s' (after o xs c.op) (keyOut o xs c ++ lost) := by
  have hcount : Countable xs c.op := by cases c <;> trivial
  obtain ⟨d', hexec, hrep, hrel⟩ := exec_spec (o := o) h.represents hunused hcount
  rw [custodyStep, hexec] at hstep
  obtain rfl := Option.some.inj hstep
  refine ⟨hrep, ?_, ?_⟩
  · have hbefore : (xs.map Prod.fst ++ (lost ++ freedKeys s.dictionary.released)).Perm s.keys := by
      rw [← List.append_assoc]
      exact h.keys
    change ((_ ++ (_ ++ lost)) ++ freedKeys d'.released).Perm (_ ++ s.keys)
    rw [hrel, freedKeys_append, List.append_assoc]
    exact perm_after_call (perm_keys hkey hvalue xs c) hbefore
  · change (_ ++ ((_ ++ s.returned) ++ freedValues d'.released)).Perm (_ ++ s.values)
    rw [hrel, freedValues_append]
    exact perm_after_call (perm_values hkey hvalue h.represents c) h.values

/-- The accounts over a run: keys are lost by the calls that take an item out. -/
theorem accounts_run (hkey : o.keyFree = true) (hvalue : o.valueFree = true) {synchronized : Bool}
    (hunused : AllMeet (custodyStep o) (fun s c => Unused s.dictionary c.op)
      (.new synchronized) cs)
    (hrun : run (custodyStep o) (.new synchronized) cs = some s) :
    (∃ xs lost, Accounts s xs lost) ∧
      (NoneLost s ↔ AllMeet (custodyStep o) (fun s c => takesOut o s.dictionary c = false)
        (.new synchronized) cs) := by
  have hnew : NoneLost (.new synchronized : Custody κ υ) :=
    (accounts_new synchronized).noneLost_iff.mpr rfl
  have hstep : ∀ (t t' : Custody κ υ) (c : Change κ υ), (∃ xs lost, Accounts t xs lost) →
      Unused t.dictionary c.op → custodyStep o t c = some t' →
        (∃ xs lost, Accounts t' xs lost) ∧
          (NoneLost t' ↔ NoneLost t ∧ takesOut o t.dictionary c = false) := by
    rintro t t' c ⟨xs, lost, ht⟩ hfresh hstep
    have ht' := ht.step hkey hvalue hfresh hstep
    refine ⟨⟨_, _, ht'⟩, ?_⟩
    rw [ht.noneLost_iff, ht'.noneLost_iff, takesOut_eq ht.represents, List.append_eq_nil_iff,
      and_comm, Bool.not_eq_false', List.isEmpty_iff]
  have hall := run_iff_allMeet_of (I := fun s => ∃ xs lost, Accounts s xs lost)
    ⟨[], [], accounts_new synchronized⟩ hunused hstep hrun
  exact ⟨hall.1, hall.2.trans (and_iff_right hnew)⟩

variable [DecidableEq κ] [DecidableEq υ]

/-- **`ListDictionary_Free` settles the values, and the keys that are not lost.** -/
theorem Accounts.free (hkey : o.keyFree = true) (hvalue : o.valueFree = true)
    {xs : List (κ × υ)} {lost : List κ} (h : Accounts s xs lost) (hkeys : s.keys.Nodup)
    (hvalues : s.values.Nodup) :
    ∃ released, listDictionaryFree o s.dictionary = .ok released ∧
      (KeysReleasedOnce s released ↔ NoneLost s) ∧ ValuesReleasedOnce s released := by
  have hunused : Unused s.dictionary (.clear : Op κ υ) := trivial
  obtain ⟨d', hexec, -, -⟩ := exec_spec (o := o) h.represents hunused trivial
  have hstep : custodyStep o s .clear = some { s with dictionary := d' } := by
    rw [custodyStep, Change.op, hexec]
    rfl
  have hfree : listDictionaryFree o s.dictionary = .ok d'.released := by
    rw [exec] at hexec
    rw [listDictionaryFree]
    cases hclear : listDictionaryClear o s.dictionary with
    | error e =>
      rw [hclear] at hexec
      exact absurd hexec (by simp [Except.map])
    | ok e =>
      rw [hclear] at hexec
      obtain ⟨rfl, -⟩ := Prod.mk.inj (Except.ok.inj hexec)
      rfl
  have h' := h.step (c := .clear) hkey hvalue trivial hstep
  refine ⟨d'.released, hfree, ?_, ?_⟩
  · rw [h.noneLost_iff]
    have hholds : (keyBook { s with dictionary := d' }).Holds lost := h'.keys
    rw [← hholds.settled_iff]
    exact (hholds.settled_iff_count hkeys).symm
  · have hholds : (valueBook { s with dictionary := d' }).Holds [] := h'.values
    intro value hmem
    have hone := (hholds.settled_iff_count hvalues).mp (hholds.settled_iff.mpr rfl) value hmem
    rw [valueBook, List.count_append] at hone
    exact hone

/-- **Every value is accounted for**, whatever the calls. -/
theorem values_released_once (hkey : o.keyFree = true) (hvalue : o.valueFree = true)
    {synchronized : Bool}
    (hunused : AllMeet (custodyStep o) (fun s c => Unused s.dictionary c.op)
      (.new synchronized) cs)
    (hrun : run (custodyStep o) (.new synchronized) cs = some s) (hkeys : s.keys.Nodup)
    (hvalues : s.values.Nodup) :
    ∃ released, listDictionaryFree o s.dictionary = .ok released ∧
      ValuesReleasedOnce s released := by
  obtain ⟨⟨xs, lost, hs⟩, -⟩ := accounts_run hkey hvalue hunused hrun
  obtain ⟨released, hfree, -, hvalues⟩ := hs.free hkey hvalue hkeys hvalues
  exact ⟨released, hfree, hvalues⟩

/-- **A dictionary releases what it owns exactly once if and only if no call takes an item
out**: `ListDictionary_Remove` finds no item with its key, and `ListDictionary_Remove_Head`
finds the dictionary empty. -/
theorem released_once_iff (hkey : o.keyFree = true) (hvalue : o.valueFree = true)
    {synchronized : Bool}
    (hunused : AllMeet (custodyStep o) (fun s c => Unused s.dictionary c.op)
      (.new synchronized) cs)
    (hrun : run (custodyStep o) (.new synchronized) cs = some s) (hkeys : s.keys.Nodup)
    (hvalues : s.values.Nodup) :
    (∃ released, listDictionaryFree o s.dictionary = .ok released ∧
      KeysReleasedOnce s released ∧ ValuesReleasedOnce s released) ↔
    AllMeet (custodyStep o) (fun s c => takesOut o s.dictionary c = false)
      (.new synchronized) cs := by
  obtain ⟨⟨xs, lost, hs⟩, hlost⟩ := accounts_run hkey hvalue hunused hrun
  obtain ⟨released, hfree, hkeysOnce, hvaluesOnce⟩ := hs.free hkey hvalue hkeys hvalues
  rw [← hlost, ← hkeysOnce]
  constructor
  · rintro ⟨other, hother, honce, -⟩
    obtain rfl := Except.ok.inj (hfree.symm.trans hother)
    exact honce
  · intro honce
    exact ⟨released, hfree, honce, hvaluesOnce⟩

end Run

/-- Keys and values that are numbers, released both. -/
def owned : Objects ℕ ℕ := { numbers with keyFree := true }

/-- A value that is set, a removal that finds nothing, and a dictionary that is cleared. -/
def clearedRun : List (Change ℕ ℕ) :=
  [.add 7 1 (some 100), .setItemValue 7 2, .remove 9, .clear, .add 8 3 (some 200)]

/-- A key that is removed. -/
def removedRun : List (Change ℕ ℕ) := [.add 7 1 (some 100), .remove 7]

/-- No item is taken out: everything is released once. -/
theorem released_once_cleared :
    ∃ s released, run (custodyStep owned) (.new true) clearedRun = some s ∧
      listDictionaryFree owned s.dictionary = .ok released ∧
      KeysReleasedOnce s released ∧ ValuesReleasedOnce s released := by
  have hrun : run (custodyStep owned) (.new true) clearedRun =
      some (final (custodyStep owned) (.new true) clearedRun) := run_eq_final rfl
  have hunused : AllMeet (custodyStep owned) (fun s c => Unused s.dictionary c.op) (.new true)
      clearedRun := by decide
  obtain ⟨released, hreleased⟩ := (released_once_iff rfl rfl hunused hrun (by decide)
    (by decide)).mpr (by decide)
  exact ⟨_, released, hrun, hreleased⟩

/-- The key of an item that is removed is never released. -/
theorem removed_key_lost :
    ¬∀ (cs : List (Change ℕ ℕ)) (s : Custody ℕ ℕ),
      AllMeet (custodyStep owned) (fun s c => Unused s.dictionary c.op) (.new true) cs →
      run (custodyStep owned) (.new true) cs = some s → s.keys.Nodup → s.values.Nodup →
      ∃ released, listDictionaryFree owned s.dictionary = .ok released ∧
        KeysReleasedOnce s released ∧ ValuesReleasedOnce s released := by
  intro h
  have hrun : run (custodyStep owned) (.new true) removedRun =
      some (final (custodyStep owned) (.new true) removedRun) := run_eq_final rfl
  obtain ⟨released, hfree, hkeys, -⟩ := h removedRun _ (by decide) hrun (by decide) (by decide)
  obtain rfl : [] = released := Except.ok.inj hfree
  exact absurd (hkeys 7 List.mem_cons_self) (by decide)

end Dictionary

end Libuzi
