import Libuzi.Links
import Libuzi.Runs
import Mathlib.Data.Fintype.Sum

/-!
# Intrusive doubly linked lists

The doubly linked lists of `libuzi/interlocked.c`. A list is a ring of nodes with a
distinguished one, its head; the nodes in between, in the order of the forward links, are
the sequence it represents. `AppendTailList` also takes a ring without a head, of which the
caller gives the node to start from.

Each function is a few stores, in the order of the source, and comes to linking two nodes
once or twice (`Links.Mem.link`); the neighbours it links may be the head on one side or
on both. On the rings they are instances of two operations of `Libuzi.Links`, taking a
node out and putting a chain in, at the entry of the ring that suits.

The specification is a machine on sequences: for each head its sequence, for each headless
ring its nodes, and each call a function on lists. The two machines are run side by side
(`dlistStep`). In every state that a run of permitted calls leads to, each ring is in the
memory, different rings share no node, and every call returns what the specification
returns and changes no node that is not on the lists it is about (`dlist_refines`).
-/

namespace Libuzi

open Runs Links

namespace DList

/-! ### The functions -/

section Model

variable {α : Type*} [DecidableEq α]

/-- `a->Flink = v`. -/
def setFlink (m : Mem α) (a v : α) : Mem α := { m with flink := Function.update m.flink a v }

/-- `a->Blink = v`. -/
def setBlink (m : Mem α) (a v : α) : Mem α := { m with blink := Function.update m.blink a v }

/-- `InitializeListHead`. -/
def initializeListHead (m : Mem α) (listHead : α) : Mem α :=
  setFlink (setBlink m listHead listHead) listHead listHead

/-- `IsListEmpty`. -/
def isListEmpty (m : Mem α) (listHead : α) : Bool := decide (m.flink listHead = listHead)

/-- `RemoveEntryList`. -/
def removeEntryList (m : Mem α) (entry : α) : Mem α × Bool :=
  let oldFlink := m.flink entry
  let oldBlink := m.blink entry
  let m := setBlink m oldFlink oldBlink
  let m := setFlink m oldBlink oldFlink
  (m, decide (oldFlink = oldBlink))

/-- `InsertHeadList`. -/
def insertHeadList (m : Mem α) (listHead entry : α) : Mem α :=
  let oldFlink := m.flink listHead
  let m := setFlink m entry oldFlink
  let m := setBlink m entry listHead
  let m := setBlink m oldFlink entry
  setFlink m listHead entry

/-- `RemoveHeadList`. -/
def removeHeadList (m : Mem α) (listHead : α) : Mem α × α :=
  let entry := m.flink listHead
  let flink := m.flink entry
  let m := setFlink m listHead flink
  let m := setBlink m flink listHead
  (m, entry)

/-- `InsertTailList`. -/
def insertTailList (m : Mem α) (listHead entry : α) : Mem α :=
  let oldBlink := m.blink listHead
  let m := setFlink m entry listHead
  let m := setBlink m entry oldBlink
  let m := setFlink m oldBlink entry
  setBlink m listHead entry

/-- `RemoveTailList`. -/
def removeTailList (m : Mem α) (listHead : α) : Mem α × α :=
  let entry := m.blink listHead
  let blink := m.blink entry
  let m := setBlink m listHead blink
  let m := setFlink m blink listHead
  (m, entry)

/-- `AppendTailList`. -/
def appendTailList (m : Mem α) (listHead listToAppend : α) : Mem α :=
  let listEnd := m.blink listHead
  let m := setFlink m (m.blink listHead) listToAppend
  let m := setBlink m listHead (m.blink listToAppend)
  let m := setFlink m (m.blink listToAppend) listHead
  setBlink m listToAppend listEnd

end Model

/-! ### One list

What each function does to a ring, in which the head comes first. The stores are put in the
form of links; where two of them are made in the other order in the source, it is because
they are to different nodes. -/

section Lemmas

variable {α : Type*} [DecidableEq α] {m : Mem α} {h e l : α} {xs r : List α}

theorem initializeListHead_eq : initializeListHead m h = m.link h h := rfl

theorem removeHeadList_eq : removeHeadList m h = (m.link h (m.flink (m.flink h)), m.flink h) := rfl

theorem removeTailList_eq : removeTailList m h = (m.link (m.blink (m.blink h)) h, m.blink h) := rfl

theorem insertHeadList_eq (he : e ≠ h) :
    insertHeadList m h e = (m.link h e).link e (m.flink h) := by
  ext a
  · simp only [insertHeadList, setFlink, setBlink, Mem.link]
    rw [Function.update_comm he]
  · rfl

theorem insertTailList_eq (he : e ≠ m.blink h) :
    insertTailList m h e = (m.link (m.blink h) e).link e h := by
  ext a
  · simp only [insertTailList, setFlink, setBlink, Mem.link]
    rw [Function.update_comm he]
  · rfl

theorem appendTailList_eq (hl : l ≠ h) :
    appendTailList m h l = (m.link (m.blink h) l).link (m.blink l) h := by
  ext a
  · simp only [appendTailList, setFlink, setBlink, Mem.link, Function.update_of_ne hl]
  · simp only [appendTailList, setFlink, setBlink, Mem.link]
    rw [Function.update_comm hl]

omit [DecidableEq α] in
/-- Entering a list after its head. -/
theorem rotate_head : (h :: xs).IsRotated (xs ++ [h]) := (List.isRotated_concat h xs).symm

omit [DecidableEq α] in
theorem flink_mem_ring (hc : Closed m (h :: xs)) : m.flink h ∈ h :: xs := by
  have hmem := List.mem_of_head? hc.flink_mem
  rw [List.mem_append, List.mem_singleton] at hmem
  rcases hmem with hmem | hmem
  · exact List.mem_cons_of_mem h hmem
  · rw [hmem]
    exact List.mem_cons_self

omit [DecidableEq α] in
theorem blink_mem_ring (hc : Closed m (h :: xs)) : m.blink h ∈ h :: xs :=
  List.mem_of_getLast? hc.blink_mem

/-- **`IsListEmpty`.** -/
theorem isListEmpty_spec (hc : Closed m (h :: xs)) : isListEmpty m h = xs.isEmpty := by
  have hf := hc.flink_mem
  cases xs with
  | nil => exact decide_eq_true (Option.some.inj hf).symm
  | cons x xs =>
    obtain rfl : x = m.flink h := Option.some.inj hf
    refine decide_eq_false fun heq => ?_
    rw [heq] at hc
    exact (List.nodup_cons.mp hc.nodup).1 List.mem_cons_self

/-- **`InitializeListHead`.** -/
theorem initializeListHead_spec (m : Mem α) (h : α) : Closed (initializeListHead m h) [h] ∧
    SameOutside [h] m (initializeListHead m h) := by
  rw [initializeListHead_eq]
  exact ⟨closed_link_self, sameOutside_link List.mem_cons_self List.mem_cons_self⟩

/-- **`InsertHeadList`.** -/
theorem insertHeadList_spec (hc : Closed m (h :: xs)) (he : e ∉ h :: xs) :
    Closed (insertHeadList m h e) (h :: e :: xs) ∧
      SameOutside (e :: h :: xs) m (insertHeadList m h e) := by
  have hne : e ≠ h := fun heq => he (heq ▸ List.mem_cons_self)
  rw [insertHeadList_eq hne]
  constructor
  · have hdis : (xs ++ [h]).Disjoint [e] := by
      intro a ha hae
      obtain rfl := List.mem_singleton.mp hae
      exact he (rotate_head.mem_iff.mpr ha)
    have hjoin := (hc.rotate rotate_head).join (List.isChain_singleton e) (List.nodup_singleton e)
      hdis List.getLast?_concat hc.flink_mem rfl rfl
    refine hjoin.rotate ?_
    rw [List.append_assoc]
    exact List.isRotated_append
  · have hh : h ∈ e :: h :: xs := List.mem_cons_of_mem e List.mem_cons_self
    exact (sameOutside_link hh List.mem_cons_self).trans
      (sameOutside_link List.mem_cons_self (List.mem_cons_of_mem e (flink_mem_ring hc)))

/-- **`InsertTailList`.** -/
theorem insertTailList_spec (hc : Closed m (h :: xs)) (he : e ∉ h :: xs) :
    Closed (insertTailList m h e) (h :: (xs ++ [e])) ∧
      SameOutside (e :: h :: xs) m (insertTailList m h e) := by
  have hne : e ≠ m.blink h := fun heq => he (heq ▸ blink_mem_ring hc)
  rw [insertTailList_eq hne]
  constructor
  · have hdis : (h :: xs).Disjoint [e] := by
      intro a ha hae
      obtain rfl := List.mem_singleton.mp hae
      exact he ha
    exact hc.join (List.isChain_singleton e) (List.nodup_singleton e) hdis hc.blink_mem rfl rfl rfl
  · have hh : h ∈ e :: h :: xs := List.mem_cons_of_mem e List.mem_cons_self
    exact (sameOutside_link (List.mem_cons_of_mem e (blink_mem_ring hc)) List.mem_cons_self).trans
      (sameOutside_link List.mem_cons_self hh)

omit [DecidableEq α] in
theorem adj_of_closed_singleton (hc : Closed m [h]) : m.Adj h h :=
  ((closed_iff rfl rfl).mp hc).2.2

/-- Removing from an empty list gives its head and changes nothing. -/
theorem removeHeadList_nil (hc : Closed m [h]) : removeHeadList m h = (m, h) := by
  have hadj := adj_of_closed_singleton hc
  rw [removeHeadList_eq, hadj.1, hadj.1, link_eq_self hadj]

theorem removeTailList_nil (hc : Closed m [h]) : removeTailList m h = (m, h) := by
  have hadj := adj_of_closed_singleton hc
  rw [removeTailList_eq, hadj.2, hadj.2, link_eq_self hadj]

/-- Taking a node out of the middle of a ring that is entered elsewhere. -/
theorem closed_unlink (us vs : List α) (hc : Closed m (us ++ e :: vs)) (hne : vs ++ us ≠ []) :
    m.blink e ∈ (vs ++ us).getLast? ∧ m.flink e ∈ (vs ++ us).head? ∧
      Closed (m.link (m.blink e) (m.flink e)) (us ++ vs) ∧
      SameOutside (us ++ e :: vs) m (m.link (m.blink e) (m.flink e)) := by
  obtain ⟨hp, hf, hc'⟩ := (hc.rotate List.isRotated_append).unlink hne
  have hmem : ∀ a ∈ vs ++ us, a ∈ us ++ e :: vs := by
    intro a ha
    rcases List.mem_append.mp ha with ha | ha
    · exact List.mem_append_right us (List.mem_cons_of_mem e ha)
    · exact List.mem_append_left _ ha
  exact ⟨hp, hf, hc'.rotate List.isRotated_append, sameOutside_link
    (hmem _ (List.mem_of_getLast? hp)) (hmem _ (List.mem_of_head? hf))⟩

/-- **`RemoveHeadList`.** -/
theorem removeHeadList_spec (hc : Closed m (h :: xs)) :
    (removeHeadList m h).2 = xs.headD h ∧ Closed (removeHeadList m h).1 (h :: xs.tail) ∧
      SameOutside (h :: xs) m (removeHeadList m h).1 := by
  cases xs with
  | nil =>
    rw [removeHeadList_nil hc]
    exact ⟨rfl, hc, fun a _ => ⟨rfl, rfl⟩⟩
  | cons x xs =>
    obtain rfl : x = m.flink h := Option.some.inj hc.flink_mem
    obtain ⟨hp, -, hc', hsame⟩ := closed_unlink [h] xs hc (by simp)
    rw [List.getLast?_concat] at hp
    rw [← Option.some.inj hp] at hc' hsame
    exact ⟨rfl, hc', hsame⟩

/-- **`RemoveTailList`.** -/
theorem removeTailList_spec (hc : Closed m (h :: xs)) :
    (removeTailList m h).2 = xs.getLastD h ∧ Closed (removeTailList m h).1 (h :: xs.dropLast) ∧
      SameOutside (h :: xs) m (removeTailList m h).1 := by
  rcases xs.eq_nil_or_concat' with rfl | ⟨xs, x, rfl⟩
  · rw [removeTailList_nil hc]
    exact ⟨rfl, hc, fun a _ => ⟨rfl, rfl⟩⟩
  · have hx := hc.blink_mem
    rw [← List.cons_append, List.getLast?_concat] at hx
    obtain rfl : x = m.blink h := Option.some.inj hx
    obtain ⟨-, hf, hc', hsame⟩ := closed_unlink (h :: xs) [] hc (by simp)
    rw [← Option.some.inj hf] at hc' hsame
    refine ⟨?_, ?_, hsame⟩
    · rw [List.getLastD_concat]
      rfl
    · rw [List.dropLast_concat]
      rwa [List.append_nil] at hc'

/-- **`RemoveEntryList`.** -/
theorem removeEntryList_spec (hc : Closed m (h :: xs)) (he : e ∈ xs) :
    (removeEntryList m e).2 = (xs.erase e).isEmpty ∧
      Closed (removeEntryList m e).1 (h :: xs.erase e) ∧
      SameOutside (h :: xs) m (removeEntryList m e).1 := by
  obtain ⟨us, vs, rfl⟩ := List.append_of_mem he
  have hnotin : e ∉ us := fun heu =>
    List.disjoint_of_nodup_append (List.nodup_cons.mp hc.nodup).2 heu List.mem_cons_self
  have herase : (us ++ e :: vs).erase e = us ++ vs := by
    rw [List.erase_append_right _ hnotin, List.erase_cons_head]
  obtain ⟨hp, hf, hc', hsame⟩ := closed_unlink (h :: us) vs hc (by simp)
  rw [herase]
  refine ⟨?_, hc', hsame⟩
  -- The two neighbours are one node only when the head is all that is left.
  have hnodup : (vs ++ h :: us).Nodup := List.nodup_append_comm.mp hc'.nodup
  rw [removeEntryList, Bool.eq_iff_iff, decide_eq_true_eq, head_eq_getLast_iff hnodup hf hp,
    List.isEmpty_iff, List.append_eq_nil_iff]
  constructor
  · intro heq
    have hlen := congrArg List.length heq
    simp only [List.length_append, List.length_cons, List.length_nil] at hlen
    exact ⟨List.length_eq_zero_iff.mp (by omega), List.length_eq_zero_iff.mp (by omega)⟩
  · rintro ⟨rfl, rfl⟩
    rw [Option.some.inj hf]
    rfl

/-- **`AppendTailList`.** -/
theorem appendTailList_spec (hc : Closed m (h :: xs)) (hr : Closed m (l :: r))
    (hdis : (h :: xs).Disjoint (l :: r)) : Closed (appendTailList m h l) (h :: (xs ++ l :: r)) ∧
      SameOutside (h :: xs ++ l :: r) m (appendTailList m h l) := by
  have hne : l ≠ h := fun heq => hdis List.mem_cons_self (heq ▸ List.mem_cons_self)
  rw [appendTailList_eq hne]
  constructor
  · obtain ⟨hnodup, hchain, -⟩ := (closed_iff hr.blink_mem List.head?_cons).mp hr
    exact hc.join hchain hnodup hdis hc.blink_mem rfl hr.blink_mem rfl
  · have hl : l ∈ h :: xs ++ l :: r := List.mem_append_right _ List.mem_cons_self
    exact (sameOutside_link (List.mem_append_left _ (blink_mem_ring hc)) hl).trans
      (sameOutside_link (List.mem_append_right _ (blink_mem_ring hr)) List.mem_cons_self)

end Lemmas

/-! ### Calls on any number of lists -/

/-- A call. The list that an entry is removed from, and the name of a headless ring, are not
arguments of the source; they say which list the call is about. -/
inductive Op (α κ : Type*)
  | initializeListHead (listHead : α)
  | isListEmpty (listHead : α)
  | insertHeadList (listHead entry : α)
  | insertTailList (listHead entry : α)
  | removeHeadList (listHead : α)
  | removeTailList (listHead : α)
  | removeEntryList (listHead entry : α)
  | appendTailList (listHead : α) (ring : κ) (listToAppend : α)

/-- What a call returns. -/
inductive Ret (α : Type*)
  | void
  | bool (b : Bool)
  | node (a : α)
  deriving DecidableEq

section Spec

variable {α κ : Type*} [DecidableEq α] [DecidableEq κ]

/-- The memory after a call, and what it returns. -/
def exec (m : Mem α) : Op α κ → Mem α × Ret α
  | .initializeListHead h => (initializeListHead m h, .void)
  | .isListEmpty h => (m, .bool (isListEmpty m h))
  | .insertHeadList h e => (insertHeadList m h e, .void)
  | .insertTailList h e => (insertTailList m h e, .void)
  | .removeHeadList h => ((removeHeadList m h).1, .node (removeHeadList m h).2)
  | .removeTailList h => ((removeTailList m h).1, .node (removeTailList m h).2)
  | .removeEntryList _ e => ((removeEntryList m e).1, .bool (removeEntryList m e).2)
  | .appendTailList h _ l => (appendTailList m h l, .void)

/-- **The specification's state**: the sequence of each list, by its head, and the nodes of each
headless ring, by its name. -/
abbrev Spec (α κ : Type*) : Type _ := α ⊕ κ → Option (List α)

/-- The nodes of a ring, the head included. -/
def nodes : α ⊕ κ → List α → List α
  | .inl h, xs => h :: xs
  | .inr _, r => r

/-- The sequence of a list, or the nodes of a headless ring. -/
def Spec.seq (A : Spec α κ) (n : α ⊕ κ) : List α := (A n).getD []

/-- Give a list another sequence. -/
def Spec.set (A : Spec α κ) (n : α ⊕ κ) (xs : List α) : Spec α κ := Function.update A n (some xs)

/-- **What a call does to the sequences.** -/
def Spec.after (A : Spec α κ) : Op α κ → Spec α κ
  | .initializeListHead h => A.set (.inl h) []
  | .isListEmpty _ => A
  | .insertHeadList h e => A.set (.inl h) (e :: A.seq (.inl h))
  | .insertTailList h e => A.set (.inl h) (A.seq (.inl h) ++ [e])
  | .removeHeadList h => A.set (.inl h) (A.seq (.inl h)).tail
  | .removeTailList h => A.set (.inl h) (A.seq (.inl h)).dropLast
  | .removeEntryList h e => A.set (.inl h) ((A.seq (.inl h)).erase e)
  | .appendTailList h k l =>
    -- The ring is entered at the node given.
    Spec.set (Function.update A (.inr k) none) (.inl h)
      (A.seq (.inl h) ++ (A.seq (.inr k)).rotate ((A.seq (.inr k)).idxOf l))

/-- **What a call returns.** -/
def Spec.ret (A : Spec α κ) : Op α κ → Ret α
  | .isListEmpty h => .bool (A.seq (.inl h)).isEmpty
  | .removeHeadList h => .node ((A.seq (.inl h)).headD h)
  | .removeTailList h => .node ((A.seq (.inl h)).getLastD h)
  | .removeEntryList h e => .bool ((A.seq (.inl h)).erase e).isEmpty
  | _ => .void

/-- The node is on no list. -/
def Spec.Free (A : Spec α κ) (a : α) : Prop := ∀ n xs, A n = some xs → a ∉ nodes n xs

/-- **When a call is permitted**: its lists are there, what is inserted is on no list, what is
removed is on the list, and a head that is initialised is on no other list. -/
def Spec.Permitted (A : Spec α κ) : Op α κ → Prop
  | .initializeListHead h => ∀ n xs, n ≠ .inl h → A n = some xs → h ∉ nodes n xs
  | .isListEmpty h | .removeHeadList h | .removeTailList h => ∃ xs, A (.inl h) = some xs
  | .insertHeadList h e | .insertTailList h e => (∃ xs, A (.inl h) = some xs) ∧ A.Free e
  | .removeEntryList h e => ∃ xs, A (.inl h) = some xs ∧ e ∈ xs
  | .appendTailList h k l =>
    (∃ xs, A (.inl h) = some xs) ∧ ∃ r, A (.inr k) = some r ∧ l ∈ r

/-- The nodes of the lists that a call is about. -/
def Spec.involved (A : Spec α κ) : Op α κ → List α
  | .initializeListHead h => [h]
  | .isListEmpty _ => []
  | .insertHeadList h e | .insertTailList h e => e :: h :: A.seq (.inl h)
  | .removeHeadList h | .removeTailList h | .removeEntryList h _ => h :: A.seq (.inl h)
  | .appendTailList h k _ => h :: A.seq (.inl h) ++ A.seq (.inr k)

/-- **The memory represents the specification's state**: each ring is in the memory, and
different rings share no node. -/
structure Represents (m : Mem α) (A : Spec α κ) : Prop where
  closed : ∀ n xs, A n = some xs → Closed m (nodes n xs)
  apart : ∀ n n' xs xs', n ≠ n' → A n = some xs → A n' = some xs' →
    (nodes n xs).Disjoint (nodes n' xs')

/-- A call, on the memory and on the sequences. -/
def dlistStep (s : Mem α × Spec α κ) (op : Op α κ) : Option (Mem α × Spec α κ) :=
  some ((exec s.1 op).1, s.2.after op)

/-! ### Refinement -/

variable {m m' : Mem α} {A : Spec α κ} {n : α ⊕ κ} {xs xs' : List α}

omit [DecidableEq α] [DecidableEq κ] in
theorem Spec.seq_eq (h : A n = some xs) : A.seq n = xs := by
  rw [Spec.seq, h, Option.getD_some]

/-- A list may be forgotten. -/
theorem Represents.drop (h : Represents m A) (n : α ⊕ κ) :
    Represents m (Function.update A n none) := by
  have hsub : ∀ n' ys, Function.update A n none n' = some ys → A n' = some ys := by
    intro n' ys hn'
    rcases eq_or_ne n' n with rfl | hne
    · rw [Function.update_self] at hn'
      cases hn'
    · rwa [Function.update_of_ne hne] at hn'
  exact ⟨fun n' ys hn' => h.closed n' ys (hsub n' ys hn'), fun n₁ n₂ ys zs hne h₁ h₂ =>
    h.apart n₁ n₂ ys zs hne (hsub n₁ ys h₁) (hsub n₂ zs h₂)⟩

/-- **The frame rule**: a call that makes `xs'` of one list, and changes only nodes that are on
no other list, keeps the representation. -/
theorem Represents.set (h : Represents m A) {t : List α} (hc : Closed m' (nodes n xs'))
    (hsame : SameOutside t m m')
    (hout : ∀ n' ys, n' ≠ n → A n' = some ys → t.Disjoint (nodes n' ys))
    (hsub : ∀ a ∈ nodes n xs', a ∈ t) : Represents m' (A.set n xs') := by
  have hother : ∀ n' ys, n' ≠ n → A.set n xs' n' = some ys → A n' = some ys := by
    intro n' ys hne hn'
    rwa [Spec.set, Function.update_of_ne hne] at hn'
  have hself : ∀ ys, A.set n xs' n = some ys → ys = xs' := by
    intro ys hys
    rw [Spec.set, Function.update_self] at hys
    exact (Option.some.inj hys).symm
  have hdis : ∀ n' ys, n' ≠ n → A n' = some ys → (nodes n xs').Disjoint (nodes n' ys) :=
    fun n' ys hne hn' a ha => hout n' ys hne hn' (hsub a ha)
  constructor
  · intro n' ys hn'
    rcases eq_or_ne n' n with rfl | hne
    · rwa [hself ys hn']
    · have hn'' := hother n' ys hne hn'
      exact (h.closed n' ys hn'').congr hsame (hout n' ys hne hn'').symm
  · intro n₁ n₂ ys zs hne h₁ h₂
    rcases eq_or_ne n₁ n with rfl | hne₁
    · rw [hself ys h₁]
      exact hdis n₂ zs hne.symm (hother n₂ zs hne.symm h₂)
    · rcases eq_or_ne n₂ n with rfl | hne₂
      · rw [hself zs h₂]
        exact (hdis n₁ ys hne₁ (hother n₁ ys hne₁ h₁)).symm
      · exact h.apart n₁ n₂ ys zs hne (hother n₁ ys hne₁ h₁) (hother n₂ zs hne₂ h₂)

/-- The frame rule for a call that puts a free node on a list. -/
theorem Represents.insert (h : Represents m A) {e : α} (hxs : A n = some xs) (hfree : A.Free e)
    (hc : Closed m' (nodes n xs')) (hsame : SameOutside (e :: nodes n xs) m m')
    (hsub : ∀ a ∈ nodes n xs', a ∈ e :: nodes n xs) : Represents m' (A.set n xs') := by
  refine h.set hc hsame ?_ hsub
  intro n' ys hne hn'
  exact List.disjoint_cons_left.mpr ⟨hfree n' ys hn', h.apart _ _ _ _ hne.symm hxs hn'⟩

/-- The frame rule for a call that only takes nodes off a list. -/
theorem Represents.shrink (h : Represents m A) (hxs : A n = some xs)
    (hc : Closed m' (nodes n xs')) (hsame : SameOutside (nodes n xs) m m')
    (hsub : nodes n xs' ⊆ nodes n xs) : Represents m' (A.set n xs') :=
  h.set hc hsame (fun _ _ hne hn' => h.apart _ _ _ _ hne.symm hxs hn') fun _ ha => hsub ha

/-- A ring can be entered at any of its nodes. -/
theorem exists_rotate_eq_cons {r : List α} {l : α} (hl : l ∈ r) :
    ∃ r', r.rotate (r.idxOf l) = l :: r' := by
  rw [← List.head?_eq_some_iff, List.head?_rotate (List.idxOf_lt_length_of_mem hl)]
  exact List.getElem?_idxOf hl

/-- **What a permitted call does**: it returns what the specification returns, changes no node
that is not on the lists it is about, and the memory represents the sequences after it. -/
theorem exec_spec (h : Represents m A) {op : Op α κ} (hop : A.Permitted op) :
    (exec m op).2 = A.ret op ∧ SameOutside (A.involved op) m (exec m op).1 ∧
      Represents (exec m op).1 (A.after op) := by
  cases op with
  | initializeListHead hd =>
    obtain ⟨hc, hsame⟩ := initializeListHead_spec m hd
    refine ⟨rfl, hsame, h.set hc hsame ?_ fun a ha => ha⟩
    intro n' ys hne hn'
    rw [List.singleton_disjoint]
    exact hop n' ys hne hn'
  | isListEmpty hd =>
    obtain ⟨xs, hxs⟩ := hop
    refine ⟨?_, fun a _ => ⟨rfl, rfl⟩, h⟩
    rw [exec, Spec.ret, Spec.seq_eq hxs, isListEmpty_spec (h.closed _ _ hxs)]
  | insertHeadList hd e =>
    obtain ⟨⟨xs, hxs⟩, hfree⟩ := hop
    obtain ⟨hc, hsame⟩ := insertHeadList_spec (h.closed _ _ hxs) (hfree _ _ hxs)
    simp only [exec, Spec.ret, Spec.involved, Spec.after, Spec.seq_eq hxs]
    refine ⟨trivial, hsame, h.insert hxs hfree hc hsame fun a ha => ?_⟩
    exact (List.Perm.swap e hd xs).mem_iff.mp ha
  | insertTailList hd e =>
    obtain ⟨⟨xs, hxs⟩, hfree⟩ := hop
    obtain ⟨hc, hsame⟩ := insertTailList_spec (h.closed _ _ hxs) (hfree _ _ hxs)
    simp only [exec, Spec.ret, Spec.involved, Spec.after, Spec.seq_eq hxs]
    refine ⟨trivial, hsame, h.insert hxs hfree hc hsame fun a ha => ?_⟩
    exact (List.isRotated_concat e (hd :: xs)).mem_iff.mp ha
  | removeHeadList hd =>
    obtain ⟨xs, hxs⟩ := hop
    obtain ⟨hret, hc, hsame⟩ := removeHeadList_spec (h.closed _ _ hxs)
    simp only [exec, Spec.ret, Spec.involved, Spec.after, Spec.seq_eq hxs, hret]
    refine ⟨trivial, hsame, h.shrink hxs hc hsame ?_⟩
    exact List.cons_subset_cons hd (List.tail_subset xs)
  | removeTailList hd =>
    obtain ⟨xs, hxs⟩ := hop
    obtain ⟨hret, hc, hsame⟩ := removeTailList_spec (h.closed _ _ hxs)
    simp only [exec, Spec.ret, Spec.involved, Spec.after, Spec.seq_eq hxs, hret]
    refine ⟨trivial, hsame, h.shrink hxs hc hsame ?_⟩
    exact List.cons_subset_cons hd (List.dropLast_subset xs)
  | removeEntryList hd e =>
    obtain ⟨xs, hxs, he⟩ := hop
    obtain ⟨hret, hc, hsame⟩ := removeEntryList_spec (h.closed _ _ hxs) he
    simp only [exec, Spec.ret, Spec.involved, Spec.after, Spec.seq_eq hxs, hret]
    refine ⟨trivial, hsame, h.shrink hxs hc hsame ?_⟩
    exact List.cons_subset_cons hd List.erase_subset
  | appendTailList hd k l =>
    obtain ⟨⟨xs, hxs⟩, r, hr, hl⟩ := hop
    obtain ⟨r', hr'⟩ := exists_rotate_eq_cons hl
    have hrot : r.IsRotated (l :: r') := ⟨_, hr'⟩
    have hdis : (hd :: xs).Disjoint (l :: r') := fun a ha har =>
      h.apart _ _ _ _ Sum.inl_ne_inr hxs hr ha (hrot.mem_iff.mpr har)
    obtain ⟨hc, hsame⟩ := appendTailList_spec (h.closed _ _ hxs)
      ((h.closed _ _ hr).rotate hrot) hdis
    have hout : ∀ n' ys, n' ≠ .inl hd → Function.update A (.inr k) none n' = some ys →
        (hd :: xs ++ l :: r').Disjoint (nodes n' ys) := by
      intro n' ys hne hn'
      rcases eq_or_ne n' (.inr k) with rfl | hnk
      · rw [Function.update_self] at hn'
        cases hn'
      · rw [Function.update_of_ne hnk] at hn'
        refine List.disjoint_append_left.mpr ⟨h.apart _ _ _ _ hne.symm hxs hn', fun a ha => ?_⟩
        exact h.apart _ _ _ _ hnk.symm hr hn' (hrot.mem_iff.mpr ha)
    simp only [exec, Spec.ret, Spec.involved, Spec.after, Spec.seq_eq hxs, Spec.seq_eq hr, hr']
    refine ⟨trivial, fun a ha => hsame a fun ha' => ha ?_, (h.drop (.inr k)).set hc hsame hout
      fun a ha => ha⟩
    rcases List.mem_append.mp ha' with ha' | ha'
    · exact List.mem_append_left _ ha'
    · exact List.mem_append_right _ (hrot.mem_iff.mpr ha')

/-- **Refinement.** In every state that a run of permitted calls leads to, over any number of
lists and headless rings, the memory represents the sequences; every further call returns
what the specification returns and changes only nodes of the lists it is about; and
removing from an empty list changes nothing. -/
theorem dlist_refines {m₀ : Mem α} {A₀ : Spec α κ} (h₀ : Represents m₀ A₀)
    (hrun : ReachesIf dlistStep (fun s op => s.2.Permitted op) (m₀, A₀) (m, A)) :
    Represents m A ∧
      (∀ op, A.Permitted op → (exec m op).2 = A.ret op ∧
        SameOutside (A.involved op) m (exec m op).1) ∧
      ∀ hd, A (.inl hd) = some [] → removeHeadList m hd = (m, hd) ∧
        removeTailList m hd = (m, hd) := by
  have hrep : Represents m A := by
    refine hrun.invariant (P := fun s => Represents s.1 s.2) h₀ fun s s' op hs hop hstep => ?_
    obtain rfl := Option.some.inj hstep
    exact (exec_spec hs hop).2.2
  refine ⟨hrep, fun op hop => ?_, fun hd hhd => ?_⟩
  · obtain ⟨hret, hsame, -⟩ := exec_spec hrep hop
    exact ⟨hret, hsame⟩
  · have hc := hrep.closed _ _ hhd
    exact ⟨removeHeadList_nil hc, removeTailList_nil hc⟩

end Spec

/-! ### Calls on two lists and a ring -/

section Decidable

variable {α κ : Type*} [DecidableEq α] [DecidableEq κ] [Fintype α] [Fintype κ] (A : Spec α κ)

instance decidableFree (a : α) : Decidable (A.Free a) :=
  inferInstanceAs (Decidable (∀ n, ∀ xs ∈ A n, a ∉ nodes n xs))

instance decidableIsSome (n : α ⊕ κ) : Decidable (∃ xs, A n = some xs) :=
  decidable_of_iff ((A n).isSome = true) Option.isSome_iff_exists

instance decidablePermitted : (op : Op α κ) → Decidable (A.Permitted op)
  | .initializeListHead h =>
    decidable_of_iff (∀ n, n ≠ .inl h → ∀ xs ∈ A n, h ∉ nodes n xs)
      ⟨fun hA n xs hne => hA n hne xs, fun hA n hne xs => hA n xs hne⟩
  | .isListEmpty h | .removeHeadList h | .removeTailList h =>
    inferInstanceAs (Decidable (∃ xs, A (.inl h) = some xs))
  | .insertHeadList h e | .insertTailList h e =>
    inferInstanceAs (Decidable ((∃ xs, A (.inl h) = some xs) ∧ A.Free e))
  | .removeEntryList h e => inferInstanceAs (Decidable (∃ xs ∈ A (.inl h), e ∈ xs))
  | .appendTailList h k l => inferInstanceAs (Decidable ((∃ xs, A (.inl h) = some xs) ∧
      ∃ r ∈ A (.inr k), l ∈ r))

end Decidable

/-- A ring of the nodes `5`, `6` and `7`, without a head; the other nodes point at themselves. -/
def aRing : Mem (Fin 8) × Spec (Fin 8) Unit :=
  (((Mem.link ⟨id, id⟩ 5 6).link 6 7).link 7 5,
    fun n => if n = .inr () then some [5, 6, 7] else none)

theorem represents_aRing : Represents aRing.1 aRing.2 where
  closed n xs hn := by
    obtain ⟨rfl, hn⟩ := Option.ite_none_right_eq_some.mp hn
    obtain rfl := Option.some.inj hn
    refine (closed_iff (p := 7) (f := 5) rfl rfl).mpr ⟨by decide, ?_, rfl, rfl⟩
    exact List.isChain_cons_cons.mpr ⟨⟨rfl, rfl⟩, List.isChain_pair.mpr ⟨rfl, rfl⟩⟩
  apart n n' xs xs' hne hn hn' := by
    obtain ⟨rfl, -⟩ := Option.ite_none_right_eq_some.mp hn
    obtain ⟨rfl, -⟩ := Option.ite_none_right_eq_some.mp hn'
    exact absurd rfl hne

/-- Two heads are initialised. Three nodes are put on the first list, of which the middle one is
taken off and put on the second; the ring is appended to the first, from the node `6` on. -/
def twoLists : List (Op (Fin 8) Unit) :=
  [.initializeListHead 0, .initializeListHead 4, .insertTailList 0 1, .insertHeadList 0 2,
    .insertTailList 0 3, .removeEntryList 0 1, .insertTailList 4 1, .appendTailList 0 () 6]

theorem dlist_refines_twoLists :
    ∃ m A, run dlistStep aRing twoLists = some (m, A) ∧ Represents m A ∧
      A.seq (.inl 0) = [2, 3, 6, 7, 5] ∧ A.seq (.inl 4) = [1] ∧
      (exec m (.removeTailList 0 : Op (Fin 8) Unit)).2 = .node 5 := by
  have hrun : run dlistStep aRing twoLists = some (final _ _ _) := run_eq_final (by decide)
  obtain ⟨hrep, hcalls, -⟩ :=
    dlist_refines represents_aRing (reachesIf_of_run twoLists (by decide +kernel) hrun)
  refine ⟨_, _, hrun, hrep, by decide +kernel, by decide +kernel, ?_⟩
  rw [(hcalls (.removeTailList 0) (by decide +kernel)).1]
  decide +kernel

end DList

end Libuzi
