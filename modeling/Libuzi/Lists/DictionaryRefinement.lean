import Libuzi.Lists.DictionaryHeap
import Mathlib.Data.Fintype.EquivFin

/-!
# The dictionary is the sequence of its items

The items that are met from `head` on stand for a sequence of keys and values, and every
function does to the items in memory what its namesake does to the sequence
(`Dictionary.exec_spec`); no item in memory is anywhere else, so that none is lost, and the
lock is left as often as it is entered.

A *segment* is a part of the list in memory with what the items hold
(`Dictionary.Segment`): the walks are followed along one, and the writes cut one in two.
-/

namespace Libuzi

open Runs Chain

namespace Dictionary

variable {κ υ : Type}

/-! ### Segments -/

section Segment

/-- The links of a heap. -/
def Heap.link (h : Heap κ υ) (a : Addr) : Option (Option Addr) := (h a).map Item.next

/-- What the items of a heap hold. -/
def Heap.pair (h : Heap κ υ) (a : Addr) : Option (κ × υ) :=
  (h a).map fun item => (item.key, item.value)

/-- **From the pointer `p` on come the items `ns`, then the pointer `q`**: each of `ns` is an
address with the key and the value that are there. -/
structure Segment (h : Heap κ υ) (p : Option Addr) (ns : List (Addr × κ × υ))
    (q : Option Addr) : Prop where
  /-- The links. -/
  path : Path h.link p (ns.map Prod.fst) q
  /-- The contents. -/
  pair : ∀ n ∈ ns, h.pair n.1 = some n.2

variable {h h' : Heap κ υ} {p q : Option Addr} {n : Addr × κ × υ} {ns ms : List (Addr × κ × υ)}
  {a b : Addr} {item : Item κ υ}

theorem Heap.load_of_eq (ha : h a = some item) : h.load a = .ok item := by
  rw [Heap.load, ha]

@[simp] theorem Heap.store_self : h.store a item a = some item := Function.update_self ..

theorem Heap.store_of_ne (hb : b ≠ a) : h.store a item b = h b := Function.update_of_ne hb ..

theorem Heap.setNext_self (ha : h a = some item) :
    h.setNext a p a = some { item with next := p } := by
  rw [Heap.setNext, Function.update_self, ha, Option.map_some]

theorem Heap.setNext_of_ne (hb : b ≠ a) : h.setNext a p b = h b := Function.update_of_ne hb ..

@[simp] theorem Heap.free_self : h.free a a = none := Function.update_self ..

theorem Heap.free_of_ne (hb : b ≠ a) : h.free a b = h b := Function.update_of_ne hb ..

theorem segment_nil : Segment h p [] q ↔ p = q :=
  ⟨fun hs => hs.path, fun hpq => ⟨hpq, by simp⟩⟩

theorem segment_cons : Segment h p (n :: ns) q ↔
    p = some n.1 ∧ ∃ r, h n.1 = some ⟨n.2.1, n.2.2, r⟩ ∧ Segment h r ns q := by
  constructor
  · rintro ⟨⟨hp, r, hr, hpath⟩, hpair⟩
    obtain ⟨hn, hns⟩ := List.forall_mem_cons.mp hpair
    obtain ⟨item, hitem, rfl⟩ := Option.map_eq_some_iff.mp hr
    rw [Heap.pair, hitem, Option.map_some, Option.some.injEq] at hn
    refine ⟨hp, item.next, ?_, hpath, hns⟩
    rw [hitem, ← hn]
  · rintro ⟨hp, r, hr, hpath, hpair⟩
    refine ⟨⟨hp, r, ?_, hpath⟩, List.forall_mem_cons.mpr ⟨?_, hpair⟩⟩
    · rw [Heap.link, hr, Option.map_some]
    · rw [Heap.pair, hr, Option.map_some]

theorem segment_append :
    Segment h p (ms ++ ns) q ↔ ∃ r, Segment h p ms r ∧ Segment h r ns q := by
  constructor
  · rintro ⟨hpath, hpair⟩
    rw [List.map_append] at hpath
    obtain ⟨r, hms, hns⟩ := path_append.mp hpath
    rw [List.forall_mem_append] at hpair
    exact ⟨r, ⟨hms, hpair.1⟩, hns, hpair.2⟩
  · rintro ⟨r, hms, hns⟩
    refine ⟨?_, List.forall_mem_append.mpr ⟨hms.pair, hns.pair⟩⟩
    rw [List.map_append]
    exact path_append.mpr ⟨r, hms.path, hns.path⟩

/-- A segment is about its own items. -/
theorem Segment.congr (hs : Segment h p ns q) (hh : ∀ a ∈ ns.map Prod.fst, h' a = h a) :
    Segment h' p ns q := by
  refine ⟨hs.path.congr fun a ha => by rw [Heap.link, hh a ha, Heap.link], fun n hn => ?_⟩
  rw [Heap.pair, hh n.1 (List.mem_map_of_mem hn)]
  exact hs.pair n hn

/-- A write elsewhere does not concern a segment. -/
theorem Segment.congr_ne (hs : Segment h p ns q) (ha : a ∉ ns.map Prod.fst)
    (hh : ∀ b, b ≠ a → h' b = h b) : Segment h' p ns q :=
  hs.congr fun b hb => hh b (ne_of_mem_of_not_mem hb ha)

/-- **Cutting and joining**: a segment up to `m`, and what `m` is linked to now. -/
theorem Segment.join {m : Addr × κ × υ} {r : Option Addr} (hs : Segment h p ms (some m.1))
    (hms : ∀ a ∈ ms.map Prod.fst, h' a = h a) (hm : h' m.1 = some ⟨m.2.1, m.2.2, r⟩)
    (hns : Segment h' r ns q) : Segment h' p (ms ++ m :: ns) q :=
  segment_append.mpr ⟨some m.1, hs.congr hms, segment_cons.mpr ⟨rfl, r, hm, hns⟩⟩

/-- A list can be cut at an item. -/
theorem Segment.cut {m : Addr × κ × υ} (hs : Segment h p (ms ++ m :: ns) q) :
    ∃ r, Segment h p ms (some m.1) ∧ h m.1 = some ⟨m.2.1, m.2.2, r⟩ ∧ Segment h r ns q := by
  obtain ⟨s, hms, hcons⟩ := segment_append.mp hs
  obtain ⟨rfl, r, hr, hns⟩ := segment_cons.mp hcons
  exact ⟨r, hms, hr, hns⟩

/-- The first item of a null-terminated list does not come again. -/
theorem Segment.notMem_tail (hs : Segment h p (n :: ns) none) : n.1 ∉ ns.map Prod.fst :=
  (List.nodup_cons.mp hs.path.nodup).1

/-- The parts of a null-terminated list share no item. -/
theorem Segment.apart (hs : Segment h p (ms ++ n :: ns) none) :
    (n.1 ∉ ms.map Prod.fst ∧ n.1 ∉ ns.map Prod.fst) ∧
      (ms.map Prod.fst).Disjoint (ns.map Prod.fst) := by
  have hnodup := hs.path.nodup
  rw [List.map_append, List.map_cons] at hnodup
  obtain ⟨-, hns, hdis⟩ := List.nodup_append.mp hnodup
  refine ⟨⟨fun hm => hdis n.1 hm n.1 List.mem_cons_self rfl, (List.nodup_cons.mp hns).1⟩, ?_⟩
  exact fun a hm hn => hdis a hm a (List.mem_cons_of_mem _ hn) rfl

end Segment

/-! ### The walks along a segment -/

section Walks

variable {h : Heap κ υ} {p : Option Addr} {n : Addr × κ × υ} {ns ms ks : List (Addr × κ × υ)}
  {fuel : ℕ}

theorem exists_fuel {k : ℕ} (hfuel : k + 1 ≤ fuel) : ∃ f, fuel = f + 1 ∧ k ≤ f :=
  ⟨fuel - 1, by omega, by omega⟩

theorem int_int_add (c d : ℤ) : int (int c + d) = int (c + d) := Int.bmod_add_bmod ..

theorem countLoop_spec (hs : Segment h p ns none) (hfuel : ns.length ≤ fuel) (c : ℤ) :
    countLoop h fuel p (int c) = .ok (int (c + ns.length)) := by
  induction ns generalizing p fuel c with
  | nil =>
    obtain rfl := segment_nil.mp hs
    simp [countLoop]
  | cons n ns ih =>
    obtain ⟨rfl, r, hr, hs⟩ := segment_cons.mp hs
    obtain ⟨fuel, rfl, hle⟩ := exists_fuel hfuel
    simp only [countLoop, bind, Except.bind, Heap.load_of_eq hr]
    have hsum : c + 1 + (ns.length : ℤ) = c + ((ns.length + 1 : ℕ) : ℤ) := by omega
    rw [int_int_add, ih hs hle, hsum, List.length_cons]

theorem keysLoop_spec {count : ℤ} (hs : Segment h p ns none) (hfuel : ns.length ≤ fuel)
    {keys : List κ} (hcount : ((keys.length + ns.length : ℕ) : ℤ) ≤ count) :
    keysLoop h count fuel p keys = .ok (keys ++ ns.map fun n => n.2.1) := by
  induction ns generalizing p fuel keys with
  | nil =>
    obtain rfl := segment_nil.mp hs
    simp [keysLoop]
  | cons n ns ih =>
    obtain ⟨rfl, r, hr, hs⟩ := segment_cons.mp hs
    obtain ⟨fuel, rfl, hle⟩ := exists_fuel hfuel
    rw [List.length_cons] at hcount
    simp only [keysLoop, bind, Except.bind, Heap.load_of_eq hr]
    rw [if_pos (by omega), ih hs hle (by simp; omega),
      List.append_assoc, List.map_cons, List.singleton_append]

theorem lastLoop_spec (hs : Segment h p (ms ++ [n]) none) (hfuel : ms.length < fuel) :
    ∃ a, p = some a ∧ lastLoop h fuel a = .ok n.1 := by
  induction ms generalizing p fuel with
  | nil =>
    obtain ⟨rfl, r, hr, hs⟩ := segment_cons.mp hs
    obtain rfl := segment_nil.mp hs
    obtain ⟨fuel, rfl, -⟩ := exists_fuel hfuel
    refine ⟨n.1, rfl, ?_⟩
    simp only [lastLoop, bind, Except.bind, Heap.load_of_eq hr]
  | cons m ms ih =>
    obtain ⟨rfl, r, hr, hs⟩ := segment_cons.mp hs
    obtain ⟨fuel, rfl, hle⟩ := exists_fuel hfuel
    obtain ⟨b, rfl, hlast⟩ := ih hs hle
    refine ⟨m.1, rfl, ?_⟩
    simp only [lastLoop, bind, Except.bind, Heap.load_of_eq hr, hlast]

/-- The item that a walk along `ms` remembers as the one before. -/
def before (prevItem : Option Addr) (ms : List (Addr × κ × υ)) : Option Addr :=
  ms.foldl (fun _ m => some m.1) prevItem

theorem searchLoop_none (isKey : κ → Bool) (hs : Segment h p ns none) (hfuel : ns.length ≤ fuel)
    (hno : ∀ n ∈ ns, isKey n.2.1 = false) (prevItem : Option Addr) :
    searchLoop h isKey fuel prevItem p = .ok (before prevItem ns, none) := by
  induction ns generalizing p fuel prevItem with
  | nil =>
    obtain rfl := segment_nil.mp hs
    simp [searchLoop, before]
  | cons n ns ih =>
    obtain ⟨rfl, r, hr, hs⟩ := segment_cons.mp hs
    obtain ⟨fuel, rfl, hle⟩ := exists_fuel hfuel
    obtain ⟨hn, hno⟩ := List.forall_mem_cons.mp hno
    simp only [searchLoop, bind, Except.bind, Heap.load_of_eq hr]
    rw [if_neg (by rw [hn]; exact Bool.false_ne_true), ih hs hle hno]
    rfl

theorem searchLoop_first (isKey : κ → Bool) (hs : Segment h p (ms ++ n :: ks) none)
    (hfuel : (ms ++ n :: ks).length ≤ fuel) (hno : ∀ m ∈ ms, isKey m.2.1 = false)
    (hn : isKey n.2.1 = true) (prevItem : Option Addr) :
    searchLoop h isKey fuel prevItem p = .ok (before prevItem ms, some n.1) := by
  induction ms generalizing p fuel prevItem with
  | nil =>
    obtain ⟨rfl, r, hr, hs⟩ := segment_cons.mp hs
    obtain ⟨fuel, rfl, hle⟩ := exists_fuel hfuel
    simp only [searchLoop, bind, Except.bind, Heap.load_of_eq hr]
    rw [if_pos hn]
    rfl
  | cons m ms ih =>
    obtain ⟨rfl, r, hr, hs⟩ := segment_cons.mp hs
    obtain ⟨fuel, rfl, hle⟩ := exists_fuel hfuel
    obtain ⟨hm, hno⟩ := List.forall_mem_cons.mp hno
    simp only [searchLoop, bind, Except.bind, Heap.load_of_eq hr]
    rw [if_neg (by rw [hm]; exact Bool.false_ne_true), ih hs hle hno]
    rfl

/-- What `ListDictionary_Clear` releases with an item. -/
def released (o : Objects κ υ) (n : κ × υ) : List (κ ⊕ υ) :=
  (if o.keyFree then [.inl n.1] else []) ++ if o.valueFree then [.inr n.2] else []

theorem clearLoop_spec (o : Objects κ υ) (hs : Segment h p ns none) (hfuel : ns.length ≤ fuel)
    (r : List (κ ⊕ υ)) :
    ∃ h', clearLoop o fuel p h r = .ok (h', r ++ ns.flatMap fun n => released o n.2) ∧
      ∀ a, h' a = if a ∈ ns.map Prod.fst then none else h a := by
  induction ns generalizing h p fuel r with
  | nil =>
    obtain rfl := segment_nil.mp hs
    exact ⟨h, by simp [clearLoop], fun a => (if_neg List.not_mem_nil).symm⟩
  | cons n ns ih =>
    have hnot := hs.notMem_tail
    obtain ⟨rfl, q, hq, hs⟩ := segment_cons.mp hs
    obtain ⟨fuel, rfl, hle⟩ := exists_fuel hfuel
    -- the rest of the list does not mind that its predecessor is freed
    obtain ⟨h', hclear, hh'⟩ := ih (hs.congr_ne hnot fun _ => Heap.free_of_ne) hle
      (r ++ (if o.keyFree then [.inl n.2.1] else []) ++ if o.valueFree then [.inr n.2.2] else [])
    refine ⟨h', ?_, fun a => ?_⟩
    · simp only [clearLoop, bind, Except.bind, Heap.load_of_eq hq]
      rw [hclear, List.flatMap_cons, released]
      simp only [List.append_assoc]
    · rw [hh', List.map_cons]
      by_cases ha : a = n.1
      · rw [ha, Heap.free_self, if_neg hnot, if_pos List.mem_cons_self]
      · have hiff : a ∈ n.1 :: ns.map Prod.fst ↔ a ∈ ns.map Prod.fst := by
          rw [List.mem_cons, or_iff_right ha]
        rw [Heap.free_of_ne ha, if_congr hiff rfl rfl]

end Walks

/-! ### What a dictionary stands for -/

section Dictionaries

variable {d e : ListDictionary κ υ} {ns ms ks : List (Addr × κ × υ)} {n : Addr × κ × υ}

/-- **The items of a dictionary**, with their addresses. -/
structure Stores (d : ListDictionary κ υ) (ns : List (Addr × κ × υ)) : Prop where
  /-- They come one after the other from `head` on. -/
  segment : Segment d.items d.head ns none
  /-- There are no others in memory. -/
  only : ∀ a, a ∉ ns.map Prod.fst → d.items a = none
  /-- They have been allocated. -/
  allocated : ns.length ≤ d.allocated

/-- **The dictionary stands for the sequence** of the keys and values of its items, and its
lock is free. -/
structure Represents (d : ListDictionary κ υ) (xs : List (κ × υ)) : Prop where
  /-- The items. -/
  stores : ∃ ns, Stores d ns ∧ ns.map Prod.snd = xs
  /-- The lock. -/
  lock : d.lock = 0

/-- What the lock protects is not changed by entering it. -/
theorem enter_eq (d : ListDictionary κ υ) :
    d.enter.head = d.head ∧ d.enter.items = d.items ∧ d.enter.allocated = d.allocated ∧
      d.enter.released = d.released ∧ d.enter.synchronized = d.synchronized := by
  unfold ListDictionary.enter
  split <;> exact ⟨rfl, rfl, rfl, rfl, rfl⟩

theorem enter_released (d : ListDictionary κ υ) : d.enter.released = d.released ++ [] := by
  rw [(enter_eq d).2.2.2.1, List.append_nil]

/-- Nor by leaving it. -/
theorem leave_eq (d : ListDictionary κ υ) :
    d.leave.head = d.head ∧ d.leave.items = d.items ∧ d.leave.allocated = d.allocated ∧
      d.leave.released = d.released := by
  unfold ListDictionary.leave
  split <;> exact ⟨rfl, rfl, rfl, rfl⟩

/-- **A lock that has been entered and is left is as it was.** -/
theorem lock_leave (hs : e.synchronized = d.enter.synchronized) (hl : e.lock = d.enter.lock) :
    e.leave.lock = d.lock := by
  rw [(enter_eq d).2.2.2.2] at hs
  unfold ListDictionary.enter at hl
  unfold ListDictionary.leave
  rw [hs]
  split_ifs at hl ⊢
  · simp [hl]
  · exact hl

/-- **A call returns `r`**: afterwards the items are `ns`, the lock is as it was, and `released`
has been released. -/
def Gives (d : ListDictionary κ υ) (out : Except Fault (ListDictionary κ υ × Ret κ υ))
    (r : Ret κ υ) (ns : List (Addr × κ × υ)) (released : List (κ ⊕ υ)) : Prop :=
  ∃ d', out = .ok (d', r) ∧ Stores d' ns ∧ d'.lock = d.lock ∧
    d'.released = d.released ++ released

variable {r : Ret κ υ} {rel : List (κ ⊕ υ)}

/-- What is done between entering the lock and leaving it. -/
theorem gives_leave (hs : e.synchronized = d.enter.synchronized) (hl : e.lock = d.enter.lock)
    (hstores : Stores e ns) (hrel : e.released = d.released ++ rel) :
    Gives d (.ok (e.leave, r)) r ns rel := by
  obtain ⟨hhead, hitems, halloc, hreleased⟩ := leave_eq e
  refine ⟨e.leave, rfl, ⟨?_, ?_, ?_⟩, lock_leave hs hl, hreleased.trans hrel⟩
  · rw [hitems, hhead]
    exact hstores.segment
  · rw [hitems]
    exact hstores.only
  · rw [halloc]
    exact hstores.allocated

theorem Stores.enter (h : Stores d ns) : Stores d.enter ns := by
  obtain ⟨hhead, hitems, halloc, -⟩ := enter_eq d
  refine ⟨?_, ?_, ?_⟩
  · rw [hitems, hhead]
    exact h.segment
  · rw [hitems]
    exact h.only
  · rw [halloc]
    exact h.allocated

/-- A call that only reads. -/
theorem Stores.read (h : Stores d ns) (r : Ret κ υ) : Gives d (.ok (d.enter.leave, r)) r ns [] :=
  gives_leave rfl rfl h.enter (enter_released d)

/-- Memory without an item is not on the list. -/
theorem Stores.notMem (h : Stores d ns) {a : Addr} (ha : d.items a = none) :
    a ∉ ns.map Prod.fst := by
  intro hmem
  obtain ⟨q, hq⟩ := h.segment.path.link_eq_some hmem
  rw [Heap.link, ha] at hq
  cases hq

/-- The first item with a key, if there is one. -/
theorem first_cases (isKey : κ → Bool) (ns : List (Addr × κ × υ)) :
    (∀ n ∈ ns, isKey n.2.1 = false) ∨ ∃ ms n ks, ns = ms ++ n :: ks ∧
      (∀ m ∈ ms, isKey m.2.1 = false) ∧ isKey n.2.1 = true := by
  rcases hfind : ns.find? fun n => isKey n.2.1 with _ | n
  · refine Or.inl fun n hn => ?_
    simpa using List.find?_eq_none.mp hfind n hn
  · obtain ⟨hn, ms, ks, rfl, hms⟩ := List.find?_eq_some_iff_append.mp hfind
    exact Or.inr ⟨ms, n, ks, rfl, fun m hm => by simpa using hms m hm, hn⟩

/-! ### The functions -/

variable (o : Objects κ υ)

theorem exec_count (h : Stores d ns) :
    Gives d (exec o d .count) (.int (int ns.length)) ns [] := by
  have hcount : countLoop d.enter.items d.enter.allocated d.enter.head 0 =
      .ok (int ns.length) := by
    have hloop := countLoop_spec h.enter.segment h.enter.allocated 0
    rwa [Int.zero_add] at hloop
  simp only [exec, listDictionaryCount, bind, Except.bind, pure, Except.pure, Except.map, hcount]
  exact h.read _

theorem exec_contains (h : Stores d ns) (key : κ) :
    Gives d (exec o d (.contains key))
      (.bool (ListDictionary.contains (o.keyEquals · key) (ns.map Prod.snd))) ns [] := by
  rcases first_cases (o.keyEquals · key) ns with hno | ⟨ms, n, ks, rfl, hms, hn⟩
  · rw [ListDictionary.contains_of_none (List.forall_mem_map.mpr hno)]
    have hloop := searchLoop_none (o.keyEquals · key) h.enter.segment h.enter.allocated hno none
    simp only [exec, listDictionaryContains, bind, Except.bind, pure, Except.pure, Except.map,
      hloop]
    exact h.read _
  · rw [List.map_append, List.map_cons, ListDictionary.contains_of_first hn]
    have hloop := searchLoop_first (o.keyEquals · key) h.enter.segment h.enter.allocated hms hn none
    simp only [exec, listDictionaryContains, bind, Except.bind, pure, Except.pure, Except.map,
      hloop]
    exact h.read _

theorem exec_getItemValue (h : Stores d ns) (key : κ) :
    Gives d (exec o d (.getItemValue key))
      (.value ((ListDictionary.getItemValue (o.keyEquals · key) (ns.map Prod.snd)).getD o.null))
      ns [] := by
  rcases first_cases (o.keyEquals · key) ns with hno | ⟨ms, n, ks, rfl, hms, hn⟩
  · rw [ListDictionary.getItemValue_of_none (List.forall_mem_map.mpr hno)]
    have hloop := searchLoop_none (o.keyEquals · key) h.enter.segment h.enter.allocated hno none
    simp only [exec, listDictionaryGetItemValue, bind, Except.bind, pure, Except.pure,
      Except.map, hloop]
    exact h.read _
  · rw [List.map_append, List.map_cons,
      ListDictionary.getItemValue_of_first (List.forall_mem_map.mpr hms) hn]
    have hloop := searchLoop_first (o.keyEquals · key) h.enter.segment h.enter.allocated hms hn none
    obtain ⟨q, -, hq, -⟩ := h.enter.segment.cut
    simp only [exec, listDictionaryGetItemValue, bind, Except.bind, pure, Except.pure,
      Except.map, hloop, Heap.load_of_eq hq]
    exact h.read _

/-- An `int` counts up to `2 ^ 31 - 1`. -/
theorem int_of_lt {k : ℕ} (hk : k < 2 ^ 31) : int k = k :=
  Int.bmod_eq_of_le (by omega) (by omega)

theorem exec_getKeys (h : Stores d ns) (ppKeys callocOk : Bool) (hlen : ns.length < 2 ^ 31) :
    Gives d (exec o d (.getKeys ppKeys callocOk))
      (if ppKeys = true ∧ (ns = [] ∨ callocOk = true) then
        .keys ns.length (some (ns.map fun n => n.2.1)) else .keys (-1) none) ns [] := by
  have hcount : countLoop d.enter.items d.enter.allocated d.enter.head 0 =
      .ok (ns.length : ℤ) := by
    have hloop := countLoop_spec h.enter.segment h.enter.allocated 0
    rwa [Int.zero_add, int_of_lt hlen] at hloop
  cases ppKeys with
  | false =>
    rw [if_neg (by simp)]
    exact ⟨d, rfl, h, rfl, (List.append_nil _).symm⟩
  | true =>
    simp only [exec, listDictionaryGetKeys, Bool.not_true, Bool.false_eq_true, if_false, bind,
      Except.bind, pure, Except.pure, Except.map, hcount, true_and]
    have hfail : ((ns.length : ℤ) ≠ 0 ∧ ¬(callocOk = true ∧ 0 ≤ (ns.length : ℤ))) ↔
        ¬(ns = [] ∨ callocOk = true) := by simp [not_or]
    -- an empty dictionary needs no array
    by_cases hok : ns = [] ∨ callocOk = true
    · have hkeys : keysLoop d.enter.items ns.length d.enter.allocated d.enter.head [] =
          .ok (ns.map fun n => n.2.1) :=
        keysLoop_spec h.enter.segment h.enter.allocated (by simp)
      rw [if_neg fun hc => hfail.mp hc hok, if_pos hok]
      simp only [hkeys]
      exact h.read _
    · rw [if_pos (hfail.mpr hok), if_neg hok]
      exact h.read _

/-- An item is put at the end. -/
theorem exec_add (h : Stores d ns) (key : κ) (value : υ) {a : Addr} (ha : d.items a = none) :
    Gives d (exec o d (.add key value (some a))) (.bool true) (ns ++ [(a, key, value)]) [] := by
  have hst := h.enter
  have hnot := h.notMem ha
  have honly : ∀ b, b ∉ (ns ++ [(a, key, value)]).map Prod.fst →
      d.enter.items.store a ⟨key, value, none⟩ b = none := by
    intro b hb
    rw [List.map_append, List.mem_append, not_or] at hb
    rw [Heap.store_of_ne fun heq => hb.2 (by simp [heq])]
    exact hst.only b hb.1
  simp only [exec, listDictionaryAdd, bind, Except.bind, pure, Except.pure, Except.map]
  rcases ns.eq_nil_or_concat' with rfl | ⟨ms, m, rfl⟩
  · -- The first item becomes the head.
    have hhead : d.enter.head = none := segment_nil.mp hst.segment
    simp only [hhead]
    refine gives_leave rfl rfl ⟨?_, honly, by simp⟩ (enter_released d)
    exact segment_cons.mpr ⟨rfl, none, Heap.store_self, segment_nil.mpr rfl⟩
  · -- Any other one is linked to the last item, which the walk finds.
    have hseg : Segment (d.enter.items.store a ⟨key, value, none⟩) d.enter.head (ms ++ [m]) none :=
      hst.segment.congr_ne hnot fun b => Heap.store_of_ne
    have hlen := hst.allocated
    rw [List.length_append, List.length_singleton] at hlen
    obtain ⟨first, hfirst, hlast⟩ := lastLoop_spec hseg (Nat.lt_succ_of_lt hlen)
    obtain ⟨r, hms, hm, -⟩ := hseg.cut
    obtain ⟨⟨hmm, -⟩, -⟩ := hst.segment.apart
    have hne : a ≠ m.1 := fun heq => hnot (by simp [heq])
    have hnew : Segment ((d.enter.items.store a ⟨key, value, none⟩).setNext m.1 (some a))
        d.enter.head (ms ++ m :: [(a, key, value)]) none := by
      refine hms.join (fun b hb => Heap.setNext_of_ne (ne_of_mem_of_not_mem hb hmm))
        (Heap.setNext_self hm) ?_
      refine segment_cons.mpr ⟨rfl, none, ?_, segment_nil.mpr rfl⟩
      rw [Heap.setNext_of_ne hne, Heap.store_self]
    simp only [hfirst] at hnew ⊢
    simp only [hlast]
    refine gives_leave rfl rfl ⟨?_, fun b hb => ?_, by simpa using hlen⟩ (enter_released d)
    · rw [List.append_assoc]
      exact hnew
    · have hbm : b ≠ m.1 := by
        rintro rfl
        exact hb (by simp)
      exact (Heap.setNext_of_ne hbm).trans (honly b hb)

theorem exec_add_none (h : Stores d ns) (key : κ) (value : υ) :
    Gives d (exec o d (.add key value none)) (.bool false) ns [] :=
  h.read _

/-- Without its first item, a dictionary has the others. -/
theorem Stores.tail (h : Stores d (n :: ns)) :
    d.head = some n.1 ∧ ∃ q, d.items n.1 = some ⟨n.2.1, n.2.2, q⟩ ∧
      Stores { d with head := q, items := d.items.free n.1 } ns := by
  have hnot := h.segment.notMem_tail
  obtain ⟨hhead, q, hq, hseg⟩ := segment_cons.mp h.segment
  have hlen := h.allocated
  rw [List.length_cons] at hlen
  refine ⟨hhead, q, hq, hseg.congr_ne hnot fun _ => Heap.free_of_ne, fun b hb => ?_, by simp; omega⟩
  by_cases hbn : b = n.1
  · rw [hbn]
    exact Heap.free_self
  · refine (Heap.free_of_ne hbn).trans (h.only b ?_)
    rw [List.map_cons, List.mem_cons, not_or]
    exact ⟨hbn, hb⟩

/-- An item is taken out from behind another. -/
theorem Stores.unlink {m : Addr × κ × υ} (h : Stores d (ms ++ m :: n :: ks)) :
    ∃ q, d.items n.1 = some ⟨n.2.1, n.2.2, q⟩ ∧
      Stores { d with items := (d.items.setNext m.1 q).free n.1 } (ms ++ m :: ks) := by
  obtain ⟨⟨hmm, hmnk⟩, hdis⟩ := h.segment.apart
  obtain ⟨r, hms, hm, hnk⟩ := h.segment.cut
  have hnks := hnk.notMem_tail
  obtain ⟨-, q, hn, hks⟩ := segment_cons.mp hnk
  rw [List.map_cons, List.mem_cons, not_or] at hmnk
  have hnm : n.1 ∉ ms.map Prod.fst := fun hmem => hdis hmem (by simp)
  -- two items are written, `m`, which gets the next of `n`, and `n`, which is freed
  have hother : ∀ b, b ≠ m.1 → b ≠ n.1 → (d.items.setNext m.1 q).free n.1 b = d.items b :=
    fun b hbm hbn => (Heap.free_of_ne hbn).trans (Heap.setNext_of_ne hbm)
  refine ⟨q, hn, hms.join ?_ ?_ (hks.congr ?_), fun b hb => ?_, ?_⟩
  · exact fun b hb => hother b (ne_of_mem_of_not_mem hb hmm) (ne_of_mem_of_not_mem hb hnm)
  · exact (Heap.free_of_ne hmnk.1).trans (Heap.setNext_self hm)
  · exact fun b hb => hother b (ne_of_mem_of_not_mem hb hmnk.2) (ne_of_mem_of_not_mem hb hnks)
  · by_cases hbn : b = n.1
    · rw [hbn]
      exact Heap.free_self
    · rw [List.map_append, List.map_cons, List.mem_append, List.mem_cons, not_or, not_or] at hb
      refine (hother b hb.2.1 hbn).trans (h.only b ?_)
      simp only [List.map_append, List.map_cons, List.mem_append, List.mem_cons, not_or]
      exact ⟨hb.1, hb.2.1, hbn, hb.2.2⟩
  · have hlen := h.allocated
    simp only [List.length_append, List.length_cons] at hlen ⊢
    omega

theorem exec_removeHead (h : Stores d ns) :
    Gives d (exec o d .removeHead) (.value ((ns.map Prod.snd).head?.elim o.null Prod.snd)) ns.tail
      [] := by
  have hst := h.enter
  simp only [exec, listDictionaryRemoveHead, bind, Except.bind, pure, Except.pure, Except.map]
  cases ns with
  | nil =>
    rw [show d.enter.head = none from segment_nil.mp hst.segment]
    exact h.read _
  | cons n ns =>
    obtain ⟨hhead, q, hq, htail⟩ := hst.tail
    simp only [hhead, Heap.load_of_eq hq]
    exact gives_leave rfl rfl htail (enter_released d)

theorem exec_remove (h : Stores d ns) (key : κ) :
    ∃ ns', ns'.map Prod.snd = ListDictionary.remove (o.keyEquals · key) (ns.map Prod.snd) ∧
      Gives d (exec o d (.remove key))
        (.value ((ListDictionary.getItemValue (o.keyEquals · key) (ns.map Prod.snd)).getD o.null))
        ns' [] := by
  have hst := h.enter
  rcases first_cases (o.keyEquals · key) ns with hno | ⟨ms, n, ks, rfl, hms, hn⟩
  · have hloop := searchLoop_none (o.keyEquals · key) hst.segment hst.allocated hno none
    rw [ListDictionary.getItemValue_of_none (List.forall_mem_map.mpr hno),
      ListDictionary.remove_of_none (List.forall_mem_map.mpr hno)]
    refine ⟨ns, rfl, ?_⟩
    simp only [exec, listDictionaryRemove, bind, Except.bind, pure, Except.pure, Except.map, hloop]
    exact h.read _
  · have hloop := searchLoop_first (o.keyEquals · key) hst.segment hst.allocated hms hn none
    rw [List.map_append, List.map_cons,
      ListDictionary.getItemValue_of_first (List.forall_mem_map.mpr hms) hn,
      ListDictionary.remove_of_first (List.forall_mem_map.mpr hms) hn]
    refine ⟨ms ++ ks, List.map_append, ?_⟩
    simp only [exec, listDictionaryRemove, bind, Except.bind, pure, Except.pure, Except.map, hloop]
    -- the item that is remembered as the one before is the last of `ms`
    rcases ms.eq_nil_or_concat' with rfl | ⟨ms, m, rfl⟩
    · obtain ⟨-, q, hq, htail⟩ := hst.tail
      simp only [before, List.foldl_nil, Heap.load_of_eq hq]
      exact gives_leave rfl rfl htail (enter_released d)
    · rw [List.append_assoc] at hst
      obtain ⟨q, hq, hunlink⟩ := hst.unlink
      simp only [before, List.foldl_append, List.foldl_cons, List.foldl_nil, Heap.load_of_eq hq]
      rw [List.append_assoc]
      exact gives_leave rfl rfl hunlink (enter_released d)

theorem exec_setItemValue (h : Stores d ns) (key : κ) (value : υ) :
    ∃ ns', ns'.map Prod.snd =
        ListDictionary.setItemValue (o.keyEquals · key) value (ns.map Prod.snd) ∧
      Gives d (exec o d (.setItemValue key value))
        (.bool (ListDictionary.contains (o.keyEquals · key) (ns.map Prod.snd))) ns'
        (if o.valueFree then
          (ListDictionary.getItemValue (o.keyEquals · key) (ns.map Prod.snd)).toList.map .inr
        else []) := by
  have hst := h.enter
  rcases first_cases (o.keyEquals · key) ns with hno | ⟨ms, n, ks, rfl, hms, hn⟩
  · have hloop := searchLoop_none (o.keyEquals · key) hst.segment hst.allocated hno none
    rw [ListDictionary.getItemValue_of_none (List.forall_mem_map.mpr hno),
      ListDictionary.setItemValue_of_none value (List.forall_mem_map.mpr hno),
      ListDictionary.contains_of_none (List.forall_mem_map.mpr hno)]
    refine ⟨ns, rfl, ?_⟩
    simp only [exec, listDictionarySetItemValue, bind, Except.bind, pure, Except.pure, Except.map,
      hloop, Option.toList_none, List.map_nil, ite_self]
    exact h.read _
  · have hloop := searchLoop_first (o.keyEquals · key) hst.segment hst.allocated hms hn none
    rw [List.map_append, List.map_cons,
      ListDictionary.getItemValue_of_first (List.forall_mem_map.mpr hms) hn,
      ListDictionary.setItemValue_of_first value (List.forall_mem_map.mpr hms) hn,
      ListDictionary.contains_of_first hn]
    refine ⟨ms ++ (n.1, n.2.1, value) :: ks, by simp, ?_⟩
    obtain ⟨⟨hnm, hnk⟩, -⟩ := hst.segment.apart
    obtain ⟨q, hseg, hq, hks⟩ := hst.segment.cut
    have haddr : (ms ++ (n.1, n.2.1, value) :: ks).map Prod.fst =
        (ms ++ n :: ks).map Prod.fst := by simp
    simp only [exec, listDictionarySetItemValue, bind, Except.bind, pure, Except.pure, Except.map,
      hloop, Heap.load_of_eq hq]
    -- one item is written, at an address that stays on the list
    refine gives_leave rfl rfl ⟨?_, fun b hb => ?_, ?_⟩ ?_
    · refine Segment.join (m := (n.1, n.2.1, value)) hseg ?_ Heap.store_self
        (hks.congr_ne hnk fun _ => Heap.store_of_ne)
      exact fun b hb => Heap.store_of_ne (ne_of_mem_of_not_mem hb hnm)
    · rw [haddr] at hb
      refine (Heap.store_of_ne ?_).trans (hst.only b hb)
      rintro rfl
      exact hb (by simp)
    · have hlen := hst.allocated
      simpa using hlen
    · rw [(enter_eq d).2.2.2.1]
      rfl

theorem exec_clear (h : Stores d ns) :
    Gives d (exec o d .clear) .void [] (ns.flatMap fun n => released o n.2) := by
  have hst := h.enter
  obtain ⟨items, hclear, hitems⟩ :=
    clearLoop_spec o hst.segment hst.allocated d.enter.released
  simp only [exec, listDictionaryClear, bind, Except.bind, pure, Except.pure, Except.map, hclear]
  refine gives_leave rfl rfl ⟨segment_nil.mpr rfl, fun b _ => ?_, Nat.zero_le _⟩ ?_
  · change items b = none
    rw [hitems]
    split_ifs with hb
    · rfl
    · exact hst.only b hb
  · rw [(enter_eq d).2.2.2.1]

end Dictionaries

/-! ### The specification -/

section Spec

/-- **What a call does to the sequence.** -/
def after (o : Objects κ υ) (xs : List (κ × υ)) : Op κ υ → List (κ × υ)
  | .add key value (some _) => ListDictionary.add xs key value
  | .remove key => ListDictionary.remove (o.keyEquals · key) xs
  | .removeHead => xs.tail
  | .setItemValue key value => ListDictionary.setItemValue (o.keyEquals · key) value xs
  | .clear => []
  | _ => xs

/-- **What a call returns.** -/
def ret (o : Objects κ υ) (xs : List (κ × υ)) : Op κ υ → Ret κ υ
  | .add _ _ malloc => .bool malloc.isSome
  | .remove key | .getItemValue key =>
    .value ((ListDictionary.getItemValue (o.keyEquals · key) xs).getD o.null)
  | .removeHead => .value (xs.head?.elim o.null Prod.snd)
  | .setItemValue key _ | .contains key =>
    .bool (ListDictionary.contains (o.keyEquals · key) xs)
  | .clear => .void
  | .count => .int (ListDictionary.count xs)
  | .getKeys ppKeys callocOk =>
    if ppKeys = true ∧ (xs = [] ∨ callocOk = true) then
      .keys xs.length (some (xs.map Prod.fst))
    else .keys (-1) none

/-- **What a call releases.** -/
def releasedBy (o : Objects κ υ) (xs : List (κ × υ)) : Op κ υ → List (κ ⊕ υ)
  | .setItemValue key _ =>
    if o.valueFree then (ListDictionary.getItemValue (o.keyEquals · key) xs).toList.map .inr
    else []
  | .clear => xs.flatMap (released o)
  | _ => []

/-- `malloc` does not return memory that is in use. -/
def Unused (d : ListDictionary κ υ) : Op κ υ → Prop
  | .add _ _ (some a) => d.items a = none
  | _ => True

/-- What is counted fits an `int`. -/
def Countable (xs : List (κ × υ)) : Op κ υ → Prop
  | .count | .getKeys _ _ => xs.length < 2 ^ 31
  | _ => True

/-- A call, on the dictionary and on the sequence. -/
def dictionaryStep (o : Objects κ υ) (s : ListDictionary κ υ × List (κ × υ)) (op : Op κ υ) :
    Option (ListDictionary κ υ × List (κ × υ)) :=
  match exec o s.1 op with
  | .ok (d, _) => some (d, after o s.2 op)
  | .error _ => none

variable {o : Objects κ υ} {d : ListDictionary κ υ} {xs : List (κ × υ)} {op : Op κ υ}

theorem Gives.represents {r : Ret κ υ} {ns : List (Addr × κ × υ)} {rel : List (κ ⊕ υ)}
    (h : Gives d (exec o d op) r ns rel) (hlock : d.lock = 0) (hns : ns.map Prod.snd = xs) :
    ∃ d', exec o d op = .ok (d', r) ∧ Represents d' xs ∧ d'.released = d.released ++ rel := by
  obtain ⟨d', hexec, hstores, hd', hrel⟩ := h
  exact ⟨d', hexec, ⟨⟨ns, hstores, hns⟩, hd'.trans hlock⟩, hrel⟩

/-- **Every call does to the items what it does to the sequence**, returns what it says of the
sequence, and leaves the lock free. -/
theorem exec_spec (h : Represents d xs) (hunused : Unused d op) (hcount : Countable xs op) :
    ∃ d', exec o d op = .ok (d', ret o xs op) ∧ Represents d' (after o xs op) ∧
      d'.released = d.released ++ releasedBy o xs op := by
  obtain ⟨⟨ns, hst, rfl⟩, hlock⟩ := h
  cases op with
  | add key value malloc =>
    cases malloc with
    | none => exact (exec_add_none o hst key value).represents hlock rfl
    | some a => exact (exec_add o hst key value hunused).represents hlock List.map_append
  | remove key =>
    obtain ⟨ns', hns', hgives⟩ := exec_remove o hst key
    exact hgives.represents hlock hns'
  | removeHead => exact (exec_removeHead o hst).represents hlock List.map_tail
  | setItemValue key value =>
    obtain ⟨ns', hns', hgives⟩ := exec_setItemValue o hst key value
    exact hgives.represents hlock hns'
  | clear =>
    have hgives := exec_clear o hst
    rw [← List.flatMap_map] at hgives
    exact hgives.represents hlock rfl
  | contains key => exact (exec_contains o hst key).represents hlock rfl
  | getItemValue key => exact (exec_getItemValue o hst key).represents hlock rfl
  | count =>
    rw [Countable, List.length_map] at hcount
    -- as far as an `int` counts, it counts right
    have hret : ret o (ns.map Prod.snd) .count = .int (int ns.length) := by
      rw [ret, ListDictionary.count, List.length_map, int_of_lt hcount]
    rw [hret]
    exact (exec_count o hst).represents hlock rfl
  | getKeys ppKeys callocOk =>
    rw [Countable, List.length_map] at hcount
    have hret : ret o (ns.map Prod.snd) (.getKeys ppKeys callocOk) =
        if ppKeys = true ∧ (ns = [] ∨ callocOk = true) then
          .keys ns.length (some (ns.map fun n => n.2.1)) else .keys (-1) none := by
      simp only [ret, List.length_map, List.map_map, List.map_eq_nil_iff]
      rfl
    rw [hret]
    exact (exec_getKeys o hst ppKeys callocOk hcount).represents hlock rfl

theorem represents_new (synchronized : Bool) :
    Represents (listDictionaryNew synchronized : ListDictionary κ υ) [] :=
  ⟨⟨[], ⟨segment_nil.mpr rfl, fun _ _ => rfl, Nat.le_refl 0⟩, rfl⟩, rfl⟩

/-- In every state reached, the dictionary stands for the sequence that the calls have built. -/
theorem represents_of_reaches {synchronized : Bool}
    (h : ReachesIf (dictionaryStep o) (fun s op => Unused s.1 op ∧ Countable s.2 op)
      (listDictionaryNew synchronized, []) (d, xs)) : Represents d xs := by
  refine h.invariant (P := fun s => Represents s.1 s.2) (represents_new synchronized) ?_
  rintro ⟨e, ys⟩ s op hs ⟨hunused, hcount⟩ hstep
  obtain ⟨e', hexec, hrep, -⟩ := exec_spec (o := o) hs hunused hcount
  rw [dictionaryStep, hexec] at hstep
  obtain rfl := Option.some.inj hstep
  exact hrep

/-- **`ListDictionary` refines the ordered association list**, whatever the comparison of keys
and whatever allocations fail: in every state that a run of calls reaches, the items in memory
stand for the sequence that the calls have built, the lock is free, and every further call
returns what the specification says. `Count` and `GetKeys` are called for less than `2 ^ 31`
items. -/
theorem listDictionary_refines {synchronized : Bool}
    (h : ReachesIf (dictionaryStep o) (fun s op => Unused s.1 op ∧ Countable s.2 op)
      (listDictionaryNew synchronized, []) (d, xs)) :
    Represents d xs ∧ ∀ op, Unused d op → Countable xs op →
      ∃ d', exec o d op = .ok (d', ret o xs op) ∧ Represents d' (after o xs op) ∧
        d'.released = d.released ++ releasedBy o xs op := by
  have hrep : Represents d xs := represents_of_reaches h
  exact ⟨hrep, fun op hunused hcount => exec_spec hrep hunused hcount⟩

/-- Keys and values that are numbers, compared as such; values are released. -/
def numbers : Objects ℕ ℕ where
  keyEquals := fun stored key => decide (stored = key)
  keyFree := false
  valueFree := true
  null := 0

/-- Two items with one key, of which the first is the one that is found, set and removed. -/
theorem listDictionary_refines_twice :
    ∃ d, run (dictionaryStep numbers) (listDictionaryNew true, [])
        [.add 7 1 (some 100), .add 7 2 (some 200), .add 8 3 none, .setItemValue 7 4] =
          some (d, [(7, 4), (7, 2)]) ∧
      Represents d [(7, 4), (7, 2)] ∧
      ∃ d', exec numbers d (.remove 7) = .ok (d', .value 4) ∧ Represents d' [(7, 2)] := by
  have h₁ : ReachesIf (dictionaryStep numbers) (fun s op => Unused s.1 op ∧ Countable s.2 op)
      (listDictionaryNew true, []) _ :=
    ReachesIf.refl.tail (e := .add 7 1 (some 100)) (by exact ⟨rfl, trivial⟩) rfl
  have h₂ := h₁.tail (e := .add 7 2 (some 200)) (by exact ⟨rfl, trivial⟩) rfl
  have h₃ := h₂.tail (e := .add 8 3 none) (by exact ⟨trivial, trivial⟩) rfl
  have h₄ := h₃.tail (e := .setItemValue 7 4) (by exact ⟨trivial, trivial⟩) rfl
  obtain ⟨hrep, hcalls⟩ := listDictionary_refines h₄
  obtain ⟨d', hexec, hrep', -⟩ := hcalls (.remove 7) trivial trivial
  exact ⟨_, rfl, hrep, d', hexec, hrep'⟩

/-! ### As far as an `int` counts -/

/-- There are dictionaries of every length. -/
theorem exists_of_length (o : Objects κ υ) (key : κ) (value : υ) (k : ℕ) :
    ∃ d, ReachesIf (dictionaryStep o) (fun s op => Unused s.1 op)
        (listDictionaryNew true, []) (d, List.replicate k (key, value)) ∧
      Represents d (List.replicate k (key, value)) := by
  induction k with
  | zero => exact ⟨_, .refl, represents_new true⟩
  | succ k ih =>
    obtain ⟨d, hreach, hrep⟩ := ih
    obtain ⟨ns, hst, -⟩ := hrep.stores
    obtain ⟨a, ha⟩ := Infinite.exists_notMem_finset (ns.map Prod.fst).toFinset
    have hunused : Unused d (.add key value (some a)) :=
      hst.only a fun hmem => ha (List.mem_toFinset.mpr hmem)
    obtain ⟨d', hexec, hrep', -⟩ := exec_spec (o := o) hrep hunused trivial
    have hxs : after o (List.replicate k (key, value)) (.add key value (some a)) =
        List.replicate (k + 1) (key, value) := List.replicate_succ'.symm
    rw [hxs] at hrep'
    refine ⟨d', hreach.tail (e := .add key value (some a)) hunused ?_, hrep'⟩
    rw [dictionaryStep, hexec, ← hxs]

/-- What `Count` returns for `2 ^ 31` items. -/
theorem exec_count_overflow (o : Objects κ υ) {ns : List (Addr × κ × υ)} (h : Stores d ns)
    (hlen : ns.length = 2 ^ 31) : ∃ d', exec o d .count = .ok (d', .int (-2 ^ 31)) := by
  obtain ⟨d', hexec, -⟩ := exec_count o h
  rw [hlen] at hexec
  exact ⟨d', hexec⟩

end Spec

/-- `Count` does not return the number of items when there are `2 ^ 31`. -/
theorem count_not_length :
    ¬ ∀ d xs, ReachesIf (dictionaryStep numbers) (fun s op => Unused s.1 op)
        (listDictionaryNew true, []) (d, xs) →
      ∃ d', exec numbers d .count = .ok (d', .int (ListDictionary.count xs)) := by
  intro h
  obtain ⟨d, hreach, hrep⟩ := exists_of_length numbers 0 0 (2 ^ 31)
  obtain ⟨d', hexec⟩ := h d _ hreach
  obtain ⟨ns, hst, hns⟩ := hrep.stores
  have hlen : ns.length = 2 ^ 31 := by
    rw [← List.length_map (f := Prod.snd), hns, List.length_replicate]
  obtain ⟨d'', hexec'⟩ := exec_count_overflow numbers hst hlen
  rw [hexec', ListDictionary.count, List.length_replicate] at hexec
  obtain ⟨-, hret⟩ := Prod.mk.inj (Except.ok.inj hexec)
  exact absurd (Ret.int.inj hret) (by decide)

end Dictionary

end Libuzi
