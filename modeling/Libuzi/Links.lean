import Mathlib.Data.List.Cycle
import Mathlib.Logic.Function.Basic

/-!
# Doubly linked rings in a memory

A memory is seen through the two links of its nodes. A sequence of nodes is *chained* when
each node and the next point at each other, and *closed* when it is chained as a cycle and
visits no node twice: following the forward links from its first node visits the rest and
comes back.

A closed sequence can be entered anywhere (`Links.Closed.rotate`). Making two nodes point
at each other (`Links.Mem.link`) is all that the operations of such lists do, once or twice:
a node is taken out by linking its neighbours (`Links.Closed.unlink`), and a chained
sequence is put in by linking its two ends to the ends of a closed one
(`Links.Closed.join`). The neighbours may coincide with each other and with the ends, which
needs no case distinction in this form.
-/

namespace Links

variable {α : Type*}

/-- The two links of each node. -/
@[ext] structure Mem (α : Type*) where
  /-- The node after. -/
  flink : α → α
  /-- The node before. -/
  blink : α → α

/-- Two nodes point at each other. -/
def Mem.Adj (m : Mem α) (a b : α) : Prop := m.flink a = b ∧ m.blink b = a

/-- **The sequence is a ring of distinct nodes.** -/
structure Closed (m : Mem α) (s : List α) : Prop where
  nodup : s.Nodup
  chain : Cycle.Chain m.Adj (s : Cycle α)

variable {m m' : Mem α} {s t : List α} {a b e f g p q x y : α}

/-! ### Entering a ring -/

/-- **A ring can be entered anywhere.** -/
theorem Closed.rotate (h : Closed m s) (hst : s.IsRotated t) : Closed m t := by
  refine ⟨hst.nodup_iff.mp h.nodup, ?_⟩
  rw [← Cycle.coe_eq_coe.mpr hst]
  exact h.chain

/-- A ring is a chain whose last node is linked to its first. -/
theorem closed_iff (hp : p ∈ s.getLast?) (hf : f ∈ s.head?) :
    Closed m s ↔ s.Nodup ∧ s.IsChain m.Adj ∧ m.Adj p f := by
  obtain ⟨s, rfl⟩ := List.head?_eq_some_iff.mp hf
  have hchain : Cycle.Chain m.Adj ((f :: s : List α) : Cycle α) ↔
      (f :: s).IsChain m.Adj ∧ m.Adj p f := by
    rw [Cycle.chain_coe_cons, ← List.cons_append, List.isChain_append]
    constructor
    · rintro ⟨hs, -, hlast⟩
      exact ⟨hs, hlast p hp f rfl⟩
    · rintro ⟨hs, hlast⟩
      refine ⟨hs, List.isChain_singleton f, fun x hx y hy => ?_⟩
      obtain rfl := Option.mem_unique hp hx
      obtain rfl : f = y := Option.some.inj hy
      exact hlast
  exact ⟨fun h => ⟨h.nodup, hchain.mp h.chain⟩, fun h => ⟨h.1, hchain.mpr h.2⟩⟩

theorem Closed.isChain (h : Closed m (a :: s)) : (a :: (s ++ [a])).IsChain m.Adj :=
  (Cycle.chain_coe_cons _ _ _).mp h.chain

/-- The node after the first. -/
theorem Closed.flink_mem (h : Closed m (a :: s)) : m.flink a ∈ (s ++ [a]).head? := by
  obtain ⟨b, hb⟩ : ∃ b, (s ++ [a]).head? = some b := by
    cases s with
    | nil => exact ⟨a, rfl⟩
    | cons b s => exact ⟨b, rfl⟩
  rw [hb, ((List.isChain_cons.mp h.isChain).1 b hb).1]
  rfl

/-- The node before the first. -/
theorem Closed.blink_mem (h : Closed m (a :: s)) : m.blink a ∈ (a :: s).getLast? := by
  obtain ⟨b, hb⟩ : ∃ b, (a :: s).getLast? = some b := ⟨_, List.getLast?_cons⟩
  have hchain := h.isChain
  rw [← List.cons_append, List.isChain_append] at hchain
  rw [hb, (hchain.2.2 b hb a rfl).2]
  rfl

/-- In a sequence without repetition, the two ends are the same node if there is no other. -/
theorem head_eq_getLast_iff (h : s.Nodup) (hf : f ∈ s.head?) (hp : p ∈ s.getLast?) :
    f = p ↔ s = [f] := by
  obtain ⟨t, rfl⟩ := List.head?_eq_some_iff.mp hf
  constructor
  · rintro rfl
    rcases t.eq_nil_or_concat' with rfl | ⟨t, q, rfl⟩
    · rfl
    · rw [← List.cons_append, List.getLast?_concat] at hp
      obtain rfl := Option.some.inj hp
      exact absurd (List.mem_append_right t List.mem_cons_self) (List.nodup_cons.mp h).1
  · intro ht
    rw [ht] at hp
    exact Option.some.inj hp

/-- The nodes outside `t` have the links they had. -/
def SameOutside (t : List α) (m m' : Mem α) : Prop :=
  ∀ a, a ∉ t → m'.flink a = m.flink a ∧ m'.blink a = m.blink a

/-- A ring depends only on the links of its nodes. -/
theorem Closed.congr (h : Closed m s) (hm' : SameOutside t m m') (hst : s.Disjoint t) :
    Closed m' s := by
  have hm : ∀ a ∈ s, m'.flink a = m.flink a ∧ m'.blink a = m.blink a := fun a ha =>
    hm' a (hst ha)
  rcases s.eq_nil_or_concat' with rfl | ⟨t, p, rfl⟩
  · exact ⟨h.nodup, Cycle.Chain.nil _⟩
  · have hp : p ∈ (t ++ [p]).getLast? := List.getLast?_concat
    obtain ⟨f, hf⟩ : ∃ f, f ∈ (t ++ [p]).head? := by
      cases t with
      | nil => exact ⟨p, rfl⟩
      | cons f t => exact ⟨f, rfl⟩
    have hadj : ∀ x ∈ t ++ [p], ∀ y ∈ t ++ [p], m.Adj x y → m'.Adj x y := by
      intro x hx y hy hxy
      exact ⟨(hm x hx).1.trans hxy.1, (hm y hy).2.trans hxy.2⟩
    obtain ⟨hnodup, hchain, hclose⟩ := (closed_iff hp hf).mp h
    refine (closed_iff hp hf).mpr ⟨hnodup,
      hchain.imp_of_mem_imp fun x y hx hy => hadj x hx y hy, ?_⟩
    exact hadj p (List.mem_of_getLast? hp) f (List.mem_of_head? hf) hclose

/-! ### Linking two nodes -/

section Link

variable [DecidableEq α]

/-- Make `a` and `b` point at each other. -/
def Mem.link (m : Mem α) (a b : α) : Mem α where
  flink := Function.update m.flink a b
  blink := Function.update m.blink b a

theorem adj_link : (m.link a b).Adj a b :=
  ⟨Function.update_self .., Function.update_self ..⟩

theorem Mem.Adj.link (h : m.Adj x y) (hx : x ≠ a) (hy : y ≠ b) : (m.link a b).Adj x y :=
  ⟨(Function.update_of_ne hx ..).trans h.1, (Function.update_of_ne hy ..).trans h.2⟩

theorem sameOutside_link (ha : a ∈ t) (hb : b ∈ t) : SameOutside t m (m.link a b) := by
  intro x hx
  constructor
  · refine Function.update_of_ne ?_ ..
    rintro rfl
    exact hx ha
  · refine Function.update_of_ne ?_ ..
    rintro rfl
    exact hx hb

omit [DecidableEq α] in
theorem SameOutside.trans {m'' : Mem α} (h : SameOutside t m m') (h' : SameOutside t m' m'') :
    SameOutside t m m'' :=
  fun a ha => ⟨(h' a ha).1.trans (h a ha).1, (h' a ha).2.trans (h a ha).2⟩

/-- A chain of which neither `a` before its end nor `b` after its start is a node keeps its
links. -/
theorem chain_link (h : s.IsChain m.Adj) (ha : a ∉ s.dropLast) (hb : b ∉ s.tail) :
    s.IsChain (m.link a b).Adj := by
  induction h with
  | nil => exact .nil
  | singleton x => exact .singleton x
  | cons_cons hxy h ih =>
    rw [List.dropLast_cons_cons, List.mem_cons, not_or] at ha
    rw [List.tail_cons] at hb
    refine .cons_cons (hxy.link (Ne.symm ha.1) ?_)
      (ih ha.2 fun hbt => hb (List.mem_of_mem_tail hbt))
    rintro rfl
    exact hb List.mem_cons_self

omit [DecidableEq α] in
/-- The first node does not come again. -/
theorem notMem_tail_of_head (h : s.Nodup) (hf : f ∈ s.head?) : f ∉ s.tail := by
  obtain ⟨t, rfl⟩ := List.head?_eq_some_iff.mp hf
  exact (List.nodup_cons.mp h).1

omit [DecidableEq α] in
/-- The last node has not come before. -/
theorem notMem_dropLast_of_getLast (h : s.Nodup) (hp : p ∈ s.getLast?) : p ∉ s.dropLast := by
  obtain ⟨t, rfl⟩ := List.getLast?_eq_some_iff.mp hp
  rw [List.dropLast_concat]
  intro hpt
  exact List.disjoint_of_nodup_append h hpt List.mem_cons_self

/-- Making one node point at itself. -/
theorem closed_link_self : Closed (m.link a a) [a] :=
  (closed_iff rfl rfl).mpr ⟨List.nodup_singleton a, List.isChain_singleton a, adj_link⟩

/-- Linking two nodes that point at each other already. -/
theorem link_eq_self (h : m.Adj a b) : m.link a b = m := by
  obtain ⟨hf, hb⟩ := h
  ext x
  · rw [Mem.link, ← hf, Function.update_eq_self]
  · rw [Mem.link, ← hb, Function.update_eq_self]

/-- **Taking a node out of a ring**: its neighbours are the ends of what is left, and are
linked. -/
theorem Closed.unlink (h : Closed m (e :: s)) (hs : s ≠ []) :
    m.blink e ∈ s.getLast? ∧ m.flink e ∈ s.head? ∧ Closed (m.link (m.blink e) (m.flink e)) s := by
  have hp : m.blink e ∈ s.getLast? := by
    rw [← List.getLast?_cons_of_ne_nil hs]
    exact h.blink_mem
  have hf : m.flink e ∈ s.head? := by
    rw [← List.head?_append_of_ne_nil s hs]
    exact h.flink_mem
  obtain ⟨hnodup, hchain, -⟩ := (closed_iff h.blink_mem List.head?_cons).mp h
  have hsnodup := (List.nodup_cons.mp hnodup).2
  refine ⟨hp, hf, (closed_iff hp hf).mpr ⟨hsnodup, ?_, adj_link⟩⟩
  exact chain_link (List.isChain_cons.mp hchain).2 (notMem_dropLast_of_getLast hsnodup hp)
    (notMem_tail_of_head hsnodup hf)

/-- **Putting a chain into a ring**: its ends are linked to the ends of the ring. -/
theorem Closed.join (h : Closed m s) (ht : t.IsChain m.Adj) (htnodup : t.Nodup)
    (hdis : s.Disjoint t) (hp : p ∈ s.getLast?) (hf : f ∈ s.head?) (hq : q ∈ t.getLast?)
    (hg : g ∈ t.head?) : Closed ((m.link p g).link q f) (s ++ t) := by
  have hps := List.mem_of_getLast? hp
  have hfs := List.mem_of_head? hf
  have hqt := List.mem_of_getLast? hq
  have hgt := List.mem_of_head? hg
  obtain ⟨hnodup, hs, -⟩ := (closed_iff hp hf).mp h
  have hlast : q ∈ (s ++ t).getLast? := by
    rw [List.getLast?_append, Option.mem_def.mp hq]
    rfl
  have hhead : f ∈ (s ++ t).head? := by
    rw [List.head?_append, Option.mem_def.mp hf]
    rfl
  refine (closed_iff hlast hhead).mpr ⟨List.nodup_append'.mpr ⟨hnodup, htnodup, hdis⟩, ?_, adj_link⟩
  refine List.isChain_append.mpr ⟨?_, ?_, ?_⟩
  · -- In the ring only the closing pair is cut.
    refine chain_link (chain_link hs (notMem_dropLast_of_getLast hnodup hp) ?_) ?_
      (notMem_tail_of_head hnodup hf)
    · exact fun hgs => hdis (List.mem_of_mem_tail hgs) hgt
    · exact fun hqs => hdis (List.mem_of_mem_dropLast hqs) hqt
  · refine chain_link (chain_link ht ?_ (notMem_tail_of_head htnodup hg))
      (notMem_dropLast_of_getLast htnodup hq) ?_
    · exact fun hpt => hdis hps (List.mem_of_mem_dropLast hpt)
    · exact fun hft => hdis hfs (List.mem_of_mem_tail hft)
  · intro x hx y hy
    obtain rfl := Option.mem_unique hp hx
    obtain rfl := Option.mem_unique hg hy
    refine adj_link.link ?_ ?_
    · rintro rfl
      exact hdis hps hqt
    · rintro rfl
      exact hdis hfs hgt

end Link

end Links
