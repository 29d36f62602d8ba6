import Libuzi.Lists.DictionaryRefinement

/-!
# The laws of a finite map

What the owner of a `ListDictionary` expects of it: a value that has been added or set is
found, a key that has been removed is gone, and a call that is about one key leaves the
others alone. The comparison of keys is any equivalence relation.

| after | the law | holds |
|---|---|---|
| `ListDictionary_SetItemValue` | the value set is found | always |
| `ListDictionary_Add` | the value added is found | unless another value was found before |
| `ListDictionary_Remove` | the key is not found | if at most one item has the key |
| each of them | other keys are looked up as before | always |

A search ends at the first item with the key, but `ListDictionary_Add` puts its item at the
end without a search, and `ListDictionary_Remove` takes out one item only. So the laws fail
where a key has been added twice, and nowhere else (`Dictionary.map_laws_iff`).
-/

namespace Libuzi

open Runs

namespace Dictionary

variable {κ υ : Type}

/-! ### The laws -/

section Laws

variable (o : Objects κ υ)

/-- What a call returns. -/
def answer (d : ListDictionary κ υ) (op : Op κ υ) : Except Fault (Ret κ υ) :=
  (exec o d op).map Prod.snd

/-- The keys that are not equal to `key` are looked up with the same result in both states. -/
def OthersKept (key : κ) (d d' : ListDictionary κ υ) : Prop :=
  ∀ other, o.keyEquals key other = false →
    answer o d' (.getItemValue other) = answer o d (.getItemValue other)

/-- **The law of a call**: it returns, leaves the other keys alone, and what has been added or
set is found, while what has been removed is not. -/
def KeepsLaw (d : ListDictionary κ υ) : Op κ υ → Prop
  | .add key value malloc => ∃ d' r, exec o d (.add key value malloc) = .ok (d', r) ∧
      (r = .bool true → answer o d' (.getItemValue key) = .ok (.value value)) ∧
      OthersKept o key d d'
  | .setItemValue key value => ∃ d' r, exec o d (.setItemValue key value) = .ok (d', r) ∧
      (r = .bool true → answer o d' (.getItemValue key) = .ok (.value value)) ∧
      OthersKept o key d d'
  | .remove key => ∃ d' r, exec o d (.remove key) = .ok (d', r) ∧
      answer o d' (.contains key) = .ok (.bool false) ∧
      answer o d' (.remove key) = .ok (.value o.null) ∧ OthersKept o key d d'
  | _ => True

/-- **The condition on a call**: nothing else is found under a key that is added, and at most one
item has a key that is removed. -/
def OneItemPerKey (xs : List (κ × υ)) : Op κ υ → Prop
  | .add key value (some _) =>
    ∀ found, ListDictionary.getItemValue (o.keyEquals · key) xs = some found → found = value
  | .remove key => xs.countP (fun item => o.keyEquals item.1 key) ≤ 1
  | _ => True

/-- A key that is added is not there yet. -/
def AddsFresh (xs : List (κ × υ)) : Op κ υ → Prop
  | .add key _ (some _) => ListDictionary.contains (o.keyEquals · key) xs = false
  | _ => True

end Laws

/-! ### One call -/

section Calls

variable {o : Objects κ υ} {d d' : ListDictionary κ υ} {xs xs' : List (κ × υ)} {op : Op κ υ}

/-- What a call returns is what the specification says. -/
theorem answer_eq (h : Represents d xs) (hunused : Unused d op) (hcount : Countable xs op) :
    answer o d op = .ok (ret o xs op) := by
  obtain ⟨d', hexec, -, -⟩ := exec_spec (o := o) h hunused hcount
  rw [answer, hexec]
  rfl

theorem answer_getItemValue (h : Represents d xs) (key : κ) :
    answer o d (.getItemValue key) =
      .ok (.value ((ListDictionary.getItemValue (o.keyEquals · key) xs).getD o.null)) :=
  answer_eq h trivial trivial

/-- Other keys are kept when the sequence keeps them. -/
theorem othersKept (h : Represents d xs) (h' : Represents d' xs') {key : κ}
    (hkept : ∀ other, o.keyEquals key other = false →
      ListDictionary.getItemValue (o.keyEquals · other) xs' =
        ListDictionary.getItemValue (o.keyEquals · other) xs) : OthersKept o key d d' := by
  intro other hother
  rw [answer_getItemValue h, answer_getItemValue h', hkept other hother]

/-- No stored key is equal to two keys that are not equal to each other. -/
theorem apart_of_equivalence (heq : Equivalence fun a b => o.keyEquals a b = true) {key other : κ}
    (hne : o.keyEquals key other = false) (stored : κ) (h : o.keyEquals stored key = true) :
    o.keyEquals stored other = false := by
  by_contra hother
  have hkey : o.keyEquals key other = true :=
    heq.trans (heq.symm h) (Bool.eq_true_of_not_eq_false hother)
  exact Bool.false_ne_true (hne.symm.trans hkey)

/-- **Adding**: the value is found unless another one was found before. -/
theorem keepsLaw_add (heq : Equivalence fun a b => o.keyEquals a b = true) (h : Represents d xs)
    (key : κ) (value : υ) {malloc : Option Addr} (hunused : Unused d (.add key value malloc)) :
    KeepsLaw o d (.add key value malloc) ↔ OneItemPerKey o xs (.add key value malloc) := by
  obtain ⟨d', hexec, hrep, -⟩ := exec_spec (o := o) h hunused trivial
  cases malloc with
  | none =>
    refine iff_of_true ⟨d', _, hexec, fun hr => ?_, othersKept h hrep fun _ _ => rfl⟩ trivial
    exact absurd (Ret.bool.inj hr) Bool.false_ne_true
  | some a =>
    have hself : o.keyEquals key key = true := heq.refl key
    have hfound : ListDictionary.getItemValue (o.keyEquals · key)
        (ListDictionary.add xs key value) =
          (ListDictionary.getItemValue (o.keyEquals · key) xs).or
            (if o.keyEquals key key then some value else none) :=
      ListDictionary.getItemValue_add key value
    have hkept : OthersKept o key d d' := by
      refine othersKept h hrep fun other hother => ?_
      refine (ListDictionary.getItemValue_add key value).trans ?_
      rw [if_neg (by rw [hother]; exact Bool.false_ne_true), Option.or_none]
    rw [if_pos hself] at hfound
    have hlaw : KeepsLaw o d (.add key value (some a)) ↔
        ((ListDictionary.getItemValue (o.keyEquals · key) xs).or (some value)).getD o.null =
          value := by
      rw [← hfound]
      constructor
      · rintro ⟨e, r, he, hvalue, -⟩
        obtain ⟨rfl, rfl⟩ := Prod.mk.inj (Except.ok.inj (hexec.symm.trans he))
        have := hvalue rfl
        rw [answer_getItemValue hrep] at this
        exact Ret.value.inj (Except.ok.inj this)
      · intro hvalue
        refine ⟨d', _, hexec, fun _ => ?_, hkept⟩
        rw [answer_getItemValue hrep]
        exact congrArg (fun v => Except.ok (Ret.value v)) hvalue
    rw [hlaw, OneItemPerKey]
    cases ListDictionary.getItemValue (o.keyEquals · key) xs with
    | none => exact iff_of_true rfl nofun
    | some found =>
      exact ⟨fun hvalue w hw => (Option.some.inj hw).symm.trans hvalue, fun hall => hall found rfl⟩

/-- **Setting**: the value is found. -/
theorem keepsLaw_setItemValue (heq : Equivalence fun a b => o.keyEquals a b = true)
    (h : Represents d xs) (key : κ) (value : υ) : KeepsLaw o d (.setItemValue key value) := by
  have hunused : Unused d (.setItemValue key value) := trivial
  obtain ⟨d', hexec, hrep, -⟩ := exec_spec (o := o) h hunused trivial
  refine ⟨d', _, hexec, fun hr => ?_, othersKept h hrep fun other hother => ?_⟩
  · have hfound := Ret.bool.inj hr
    rw [ListDictionary.contains_eq_isSome, Option.isSome_iff_exists] at hfound
    obtain ⟨found, hfound⟩ := hfound
    rw [answer_getItemValue hrep, after, ListDictionary.getItemValue_setItemValue, hfound]
    rfl
  · exact ListDictionary.getItemValue_setItemValue_of_apart value
      (apart_of_equivalence heq hother)

/-- **Removing**: the key is gone if at most one item had it. -/
theorem keepsLaw_remove (heq : Equivalence fun a b => o.keyEquals a b = true)
    (h : Represents d xs) (key : κ) :
    KeepsLaw o d (.remove key) ↔ OneItemPerKey o xs (.remove key) := by
  have hunused : Unused d (.remove key : Op κ υ) := trivial
  obtain ⟨d', hexec, hrep, -⟩ := exec_spec (o := o) h hunused trivial
  have hcontains : answer o d' (.contains key) =
      .ok (.bool (ListDictionary.contains (o.keyEquals · key)
        (ListDictionary.remove (o.keyEquals · key) xs))) := answer_eq hrep trivial trivial
  have hgone : ListDictionary.contains (o.keyEquals · key)
      (ListDictionary.remove (o.keyEquals · key) xs) = false ↔ OneItemPerKey o xs (.remove key) :=
    ListDictionary.contains_remove_iff
  rw [← hgone]
  constructor
  · rintro ⟨e, r, he, hlaw, -⟩
    obtain ⟨rfl, rfl⟩ := Prod.mk.inj (Except.ok.inj (hexec.symm.trans he))
    rw [hcontains] at hlaw
    exact Ret.bool.inj (Except.ok.inj hlaw)
  · intro hfalse
    refine ⟨d', _, hexec, by rw [hcontains, hfalse], ?_, othersKept h hrep fun other hother => ?_⟩
    · have hremove : answer o d' (.remove key) =
          .ok (ret o (after o xs (.remove key)) (.remove key)) := answer_eq hrep trivial trivial
      rw [ListDictionary.contains_eq_isSome, Option.isSome_eq_false_iff,
        Option.isNone_iff_eq_none] at hfalse
      rw [hremove, after, ret, hfalse]
      rfl
    · exact ListDictionary.getItemValue_remove_of_apart (apart_of_equivalence heq hother)

/-- **A call keeps its law exactly when it meets the condition.** -/
theorem keepsLaw_iff (heq : Equivalence fun a b => o.keyEquals a b = true) (h : Represents d xs)
    (hunused : Unused d op) : KeepsLaw o d op ↔ OneItemPerKey o xs op := by
  cases op with
  | add key value malloc => exact keepsLaw_add heq h key value hunused
  | setItemValue key value => exact iff_of_true (keepsLaw_setItemValue heq h key value) trivial
  | remove key => exact keepsLaw_remove heq h key
  | removeHead | clear | contains | getItemValue | count | getKeys => exact Iff.rfl

end Calls

/-! ### Runs -/

section Run

variable {o : Objects κ υ} {d : ListDictionary κ υ} {xs : List (κ × υ)} {op : Op κ υ}

/-- At most one item has a key equal to a given one. -/
def Single (o : Objects κ υ) (xs : List (κ × υ)) : Prop :=
  ∀ key, xs.countP (fun item => o.keyEquals item.1 key) ≤ 1

/-- Keys stay single when only keys that are not there are added. -/
theorem Single.after (heq : Equivalence fun a b => o.keyEquals a b = true) (h : Single o xs)
    (hfresh : AddsFresh o xs op) : Single o (after o xs op) := by
  intro key
  have hsub : ∀ {ys : List (κ × υ)}, ys.Sublist xs →
      ys.countP (fun item => o.keyEquals item.1 key) ≤ 1 :=
    fun hys => (hys.countP_le).trans (h key)
  cases op with
  | add added value malloc =>
    cases malloc with
    | none => exact h key
    | some a =>
      rw [Dictionary.after, ListDictionary.add, List.countP_append, List.countP_singleton]
      by_cases hkey : o.keyEquals added key = true
      · -- the key added is the one that is counted, and was not there
        have hnone : xs.countP (fun item => o.keyEquals item.1 key) = 0 := by
          rw [List.countP_eq_zero]
          intro item hitem hstored
          have hadded := List.any_eq_false.mp hfresh item hitem
          exact hadded (heq.trans hstored (heq.symm hkey))
        rw [hnone, if_pos hkey]
      · rw [if_neg hkey]
        exact h key
  | setItemValue set value =>
    have hkeys : (ListDictionary.setItemValue (o.keyEquals · set) value xs).map Prod.fst =
        xs.map Prod.fst := ListDictionary.map_fst_setItemValue value
    have hcount : ∀ ys : List (κ × υ), ys.countP (fun item => o.keyEquals item.1 key) =
        (ys.map Prod.fst).countP (o.keyEquals · key) := fun ys => by
      rw [List.countP_map]
      rfl
    rw [Dictionary.after, hcount, hkeys, ← hcount]
    exact h key
  | remove removed => exact hsub List.eraseP_sublist
  | removeHead => exact hsub (List.tail_sublist xs)
  | clear => exact hsub (List.nil_sublist xs)
  | contains | getItemValue | count | getKeys => exact h key

/-- **A run that adds a key only while it is not there keeps every law.** -/
theorem keepsLaw_of_addsFresh (heq : Equivalence fun a b => o.keyEquals a b = true)
    {synchronized : Bool}
    (h : ReachesIf (dictionaryStep o)
      (fun s op => (Unused s.1 op ∧ Countable s.2 op) ∧ AddsFresh o s.2 op)
      (listDictionaryNew synchronized, []) (d, xs))
    (hunused : Unused d op) (hfresh : AddsFresh o xs op) : KeepsLaw o d op := by
  have hrep : Represents d xs := represents_of_reaches (h.mono fun s op hop => hop.1)
  have hsingle : Single o xs := by
    have hempty : Single o ([] : List (κ × υ)) := fun _ => Nat.zero_le 1
    refine h.invariant (P := fun s => Single o s.2) hempty ?_
    rintro ⟨e, ys⟩ s op hs ⟨-, hop⟩ hstep
    rw [dictionaryStep] at hstep
    split at hstep
    · obtain rfl := Option.some.inj hstep
      exact hs.after heq hop
    · exact absurd hstep (by simp)
  rw [keepsLaw_iff heq hrep hunused]
  cases op with
  | add key value malloc =>
    cases malloc with
    | none => trivial
    | some a =>
      intro found hfound
      have hnone : ListDictionary.contains (o.keyEquals · key) xs = false := hfresh
      rw [ListDictionary.contains_eq_isSome, hfound] at hnone
      exact absurd hnone (by simp)
  | remove key => exact hsingle key
  | setItemValue | removeHead | clear | contains | getItemValue | count | getKeys => trivial

/-- **When a call keeps its law**, in every state that a run of calls reaches: `SetItemValue`
always, `Add` when nothing else is found under the key, `Remove` when at most one item has
it. -/
theorem map_laws_iff (heq : Equivalence fun a b => o.keyEquals a b = true) {synchronized : Bool}
    (h : ReachesIf (dictionaryStep o) (fun s op => Unused s.1 op ∧ Countable s.2 op)
      (listDictionaryNew synchronized, []) (d, xs))
    (hunused : Unused d op) : KeepsLaw o d op ↔ OneItemPerKey o xs op :=
  keepsLaw_iff heq (represents_of_reaches h) hunused

theorem numbers_equivalence : Equivalence fun a b => numbers.keyEquals a b = true where
  refl _ := decide_eq_true rfl
  symm h := decide_eq_true (of_decide_eq_true h).symm
  trans h h' := decide_eq_true ((of_decide_eq_true h).trans (of_decide_eq_true h'))

/-- The keys `7` and `8`, each added once: the removal of `7` keeps its law, and so does adding
`9`. A second item with the key `7` breaks both. -/
theorem map_laws_twice :
    ∃ d, run (dictionaryStep numbers) (listDictionaryNew true, [])
        [.add 7 1 (some 100), .add 8 2 (some 200)] = some (d, [(7, 1), (8, 2)]) ∧
      KeepsLaw numbers d (.remove 7) ∧ KeepsLaw numbers d (.add 9 3 (some 300)) ∧
      ¬KeepsLaw numbers d (.add 7 3 (some 300)) := by
  have h₁ : ReachesIf (dictionaryStep numbers) (fun s op => Unused s.1 op ∧ Countable s.2 op)
      (listDictionaryNew true, []) _ :=
    ReachesIf.refl.tail (e := .add 7 1 (some 100)) (by exact ⟨rfl, trivial⟩) rfl
  have h₂ := h₁.tail (e := .add 8 2 (some 200)) (by exact ⟨rfl, trivial⟩) rfl
  have hremove : KeepsLaw numbers _ (.remove 7) ↔ OneItemPerKey numbers _ (.remove 7) :=
    map_laws_iff numbers_equivalence h₂ trivial
  have hadd : KeepsLaw numbers _ (.add 9 3 (some 300)) ↔
      OneItemPerKey numbers _ (.add 9 3 (some 300)) := map_laws_iff numbers_equivalence h₂ rfl
  have htwice : KeepsLaw numbers _ (.add 7 3 (some 300)) ↔
      OneItemPerKey numbers _ (.add 7 3 (some 300)) := map_laws_iff numbers_equivalence h₂ rfl
  refine ⟨_, rfl, hremove.mpr ?_, hadd.mpr fun found hfound => ?_, fun hlaw => ?_⟩
  · have hcount : [(7, 1), (8, 2)].countP (fun item => numbers.keyEquals item.1 7) = 1 := rfl
    exact hcount.le
  · have hnone : ListDictionary.getItemValue (numbers.keyEquals · 9) [(7, 1), (8, 2)] = none := rfl
    exact absurd (hnone.symm.trans hfound) (Option.some_ne_none found).symm
  · have hsame : 1 = 3 := htwice.mp hlaw 1 rfl
    omega

end Run

/-- Adding a key twice: the first value is the one that is found, and one removal leaves the
second item. -/
theorem map_laws_fail :
    ¬∀ (d : ListDictionary ℕ ℕ) (xs : List (ℕ × ℕ)),
      ReachesIf (dictionaryStep numbers) (fun s op => Unused s.1 op)
        (listDictionaryNew true, []) (d, xs) →
      ∀ op, Unused d op → KeepsLaw numbers d op := by
  intro h
  have h₁ : ReachesIf (dictionaryStep numbers) (fun s op => Unused s.1 op)
      (listDictionaryNew true, []) _ :=
    ReachesIf.refl.tail (e := .add 7 1 (some 100)) (by exact rfl) rfl
  obtain ⟨d', r, hexec, hvalue, -⟩ := h _ _ h₁ (.add 7 2 (some 200)) rfl
  obtain ⟨rfl, rfl⟩ := Prod.mk.inj (Except.ok.inj hexec)
  exact absurd (Ret.value.inj (Except.ok.inj (hvalue rfl))) (by decide)

end Dictionary

end Libuzi
