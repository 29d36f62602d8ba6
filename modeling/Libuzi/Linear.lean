import Libuzi.Threads

/-!
# Linearizability

Threads call the operations of one shared object, and each call begins, has its effect and
returns at different moments. The *history* of a run is the list of its calls and returns
in the order of time; a call is named by its place in that list, and a return says which
call it belongs to (`Linear.Event`).

A history is *linearizable* when the calls that have returned, with some of those that are
still under way, can be put into an order in which each returns what the operation returns
when it is run alone, one call after the other, and in which no call stands behind one that
began after it had returned (`Linear.IsLinearization`). The order has *points* when each
call can be given a moment between its beginning and its return such that the order is that
of these moments (`Linear.HasPoints`).

The *atomic object* (`Linear.atomicStep`) is the program that makes this true by
construction: a call begins, has all its effect in one step, and returns. Its histories
are linearizable in every run (`Linear.atomic_linearizable`), with the order in which the
effects take place. A program whose every step is a step of the atomic object, or leaves it
as it is, inherits this: its runs are runs of the object (`Threads.reaches_map`).
-/

namespace Linear

open Runs Threads

/-! ### Histories -/

/-- What a history is made of. -/
inductive Event (O R : Type*)
  /-- A call begins. -/
  | call (op : O)
  /-- The call that began at the place `start` of the history returns. -/
  | ret (start : ℕ) (result : R)
  deriving DecidableEq

/-- A call with its result, named by the place of the history where it began. -/
structure Entry (O R : Type*) where
  /-- Where the call began. -/
  start : ℕ
  /-- What was called. -/
  op : O
  /-- What it returns. -/
  result : R
  deriving DecidableEq

variable {σ O R : Type*}

/-- **One call after the other**, each returning what the operation returns: from `s` the
calls lead to `t`. -/
def Replays (apply : O → σ → σ × R) : σ → List (Entry O R) → σ → Prop
  | s, [], t => s = t
  | s, e :: es, t => (apply e.op s).2 = e.result ∧ Replays apply (apply e.op s).1 es t

/-- The call that began at `k` had returned when the one at `k'` began. -/
def ReturnedBefore (history : List (Event O R)) (k k' : ℕ) : Prop :=
  ∃ p r, p < k' ∧ history[p]? = some (.ret k r)

/-- **A linearization of a history** that has led from `s₀` to `s`. -/
structure IsLinearization (apply : O → σ → σ × R) (s₀ : σ) (history : List (Event O R)) (s : σ)
    (order : List (Entry O R)) : Prop where
  /-- The calls do what the operations do one after the other. -/
  replays : Replays apply s₀ order s
  /-- They are calls of the history. -/
  called : ∀ e ∈ order, history[e.start]? = some (.call e.op)
  /-- The calls that have returned are among them, with the result returned. -/
  completed : ∀ k r, Event.ret k r ∈ history → ∃ op, ⟨k, op, r⟩ ∈ order
  /-- No call is there twice. -/
  once : (order.map Entry.start).Nodup
  /-- No call stands behind one that began after it had returned. -/
  realTime : order.Pairwise fun x y => ¬ReturnedBefore history y.start x.start

/-- **Each call has its moment**: a number of events after which it takes effect, not before
the call begins and not after it returns; and the order is the one of the moments. -/
def HasPoints (history : List (Event O R)) (order : List (Entry O R)) : Prop :=
  ∃ point : ℕ → ℕ, (∀ e ∈ order, e.start < point e.start ∧
      ∀ p r, history[p]? = some (.ret e.start r) → point e.start ≤ p) ∧
    order.Pairwise fun x y => point x.start ≤ point y.start

variable {apply : O → σ → σ × R} {s₀ s t : σ} {history : List (Event O R)}
  {order : List (Entry O R)}

/-! ### How a linearization grows -/

theorem replays_append {es es' : List (Entry O R)} :
    Replays apply s (es ++ es') t ↔ ∃ u, Replays apply s es u ∧ Replays apply u es' t := by
  induction es generalizing s with
  | nil =>
    constructor
    · intro h
      exact ⟨s, rfl, h⟩
    · rintro ⟨u, rfl, h⟩
      exact h
  | cons e es ih =>
    constructor
    · rintro ⟨hr, h⟩
      obtain ⟨u, hu, ht⟩ := ih.mp h
      exact ⟨u, ⟨hr, hu⟩, ht⟩
    · rintro ⟨u, ⟨hr, hu⟩, ht⟩
      exact ⟨hr, ih.mpr ⟨u, hu, ht⟩⟩

/-- A call in the order finds the state its predecessors have left, and leaves the one its
successors find. -/
theorem Replays.at_entry {e : Entry O R} (h : Replays apply s order t) (he : e ∈ order) :
    ∃ before after u, order = before ++ e :: after ∧ Replays apply s before u ∧
      (apply e.op u).2 = e.result ∧ Replays apply (apply e.op u).1 after t := by
  obtain ⟨before, after, rfl⟩ := List.append_of_mem he
  obtain ⟨u, hu, hr, ht⟩ := replays_append.mp h
  exact ⟨before, after, u, rfl, hu, hr, ht⟩

/-- A call that has returned stands in the order with the result it has returned. -/
theorem IsLinearization.mem_of_ret (h : IsLinearization apply s₀ history s order) {k : ℕ} {op : O}
    {r : R} (hcall : history[k]? = some (.call op)) (hret : Event.ret k r ∈ history) :
    ⟨k, op, r⟩ ∈ order := by
  obtain ⟨op', hmem⟩ := h.completed k r hret
  have hop : some (Event.call op' : Event O R) = some (.call op) :=
    (h.called _ hmem).symm.trans hcall
  cases hop
  exact hmem

/-- A call stands in the order once. -/
theorem IsLinearization.eq_of_start (h : IsLinearization apply s₀ history s order)
    {e e' : Entry O R} (he : e ∈ order) (he' : e' ∈ order) (heq : e.start = e'.start) : e = e' :=
  List.inj_on_of_nodup_map h.once he he' heq

/-- With moments, an order is that of real time. -/
theorem HasPoints.realTime (h : HasPoints history order) :
    order.Pairwise fun x y => ¬ReturnedBefore history y.start x.start := by
  obtain ⟨point, hwithin, hsorted⟩ := h
  refine (hsorted.imp_of_mem fun {x y} hx hy hxy => ?_)
  rintro ⟨p, r, hp, hret⟩
  have hyp : point y.start ≤ p := (hwithin y hy).2 p r hret
  have hxs : x.start < point x.start := (hwithin x hx).1
  omega

/-! ### The atomic object -/

/-- Where a thread stands in a call. -/
inductive Phase (O R : Type*)
  /-- Outside. -/
  | idle
  /-- The call has begun, and has had no effect. -/
  | pending (start : ℕ) (op : O)
  /-- The call has had its effect, and is about to return. -/
  | applied (start : ℕ) (result : R)
  deriving DecidableEq

/-- What a thread does next. -/
inductive Choice (O : Type*)
  /-- Begin a call. -/
  | call (op : O)
  /-- Let the call go on. -/
  | go
  deriving DecidableEq

/-- The object, and the history of the run. -/
structure Object (σ O R : Type*) where
  /-- The state of the object. -/
  state : σ
  /-- The calls and returns so far. -/
  history : List (Event O R)
  deriving DecidableEq

variable {ι : Type*}

/-- **One step of the atomic object**: a call has its whole effect at once. -/
def atomicStep (apply : O → σ → σ × R) (_ : ι) (a : Choice O) (s : Object σ O R)
    (l : Phase O R) : Option (Object σ O R × Phase O R) :=
  match l, a with
  | .idle, .call op =>
    some ({ s with history := s.history ++ [.call op] }, .pending s.history.length op)
  | .pending k op, .go =>
    some ({ s with state := (apply op s.state).1 }, .applied k (apply op s.state).2)
  | .applied k r, .go => some ({ s with history := s.history ++ [.ret k r] }, .idle)
  | _, _ => none

/-- The object at the start, with nobody in a call. -/
def start (ι : Type*) (s₀ : σ) : Config ι (Object σ O R) (Phase O R) where
  shared := ⟨s₀, []⟩
  locals := fun _ => .idle

/-- The call a thread is in. -/
def Phase.call : Phase O R → Option ℕ
  | .idle => none
  | .pending k _ => some k
  | .applied k _ => some k

/-- What is known of a thread where it stands. -/
def Knows (history : List (Event O R)) (order : List (Entry O R)) : Phase O R → Prop
  | .idle => True
  | .pending k op => history[k]? = some (.call op) ∧ (∀ r, Event.ret k r ∉ history) ∧
      ∀ e ∈ order, e.start ≠ k
  | .applied k r => (∀ r, Event.ret k r ∉ history) ∧ ∃ op, ⟨k, op, r⟩ ∈ order

/-- **The invariant**: the calls that have had their effect, in the order of the effects, are a
linearization, and the threads are in different calls. -/
structure Inv (apply : O → σ → σ × R) (s₀ : σ) (c : Config ι (Object σ O R) (Phase O R))
    (order : List (Entry O R)) (point : ℕ → ℕ) : Prop where
  replays : Replays apply s₀ order c.shared.state
  called : ∀ e ∈ order, c.shared.history[e.start]? = some (.call e.op)
  completed : ∀ k r, Event.ret k r ∈ c.shared.history → ∃ op, ⟨k, op, r⟩ ∈ order
  once : (order.map Entry.start).Nodup
  within : ∀ e ∈ order, e.start < point e.start ∧ point e.start ≤ c.shared.history.length ∧
    ∀ p r, c.shared.history[p]? = some (.ret e.start r) → point e.start ≤ p
  sorted : order.Pairwise fun x y => point x.start ≤ point y.start
  knows : ∀ i, Knows c.shared.history order (c.locals i)
  apart : ∀ i j k, (c.locals i).call = some k → (c.locals j).call = some k → i = j

/-- A thread is in a call that is in the history and has not returned. -/
theorem Knows.call_lt {l : Phase O R} (h : Knows history order l)
    (hcalled : ∀ e ∈ order, history[e.start]? = some (.call e.op)) {k : ℕ}
    (hk : l.call = some k) : k < history.length ∧ ∀ r, Event.ret k r ∉ history := by
  cases l with
  | idle => cases hk
  | pending k' op =>
    obtain rfl := Option.some.inj hk
    obtain ⟨hcall, hret, -⟩ := h
    exact ⟨(List.getElem?_eq_some_iff.mp hcall).1, hret⟩
  | applied k' r =>
    obtain rfl := Option.some.inj hk
    obtain ⟨hret, op, hmem⟩ := h
    exact ⟨(List.getElem?_eq_some_iff.mp (hcalled _ hmem)).1, hret⟩

/-- What is known of a thread is not changed by an event of another call, nor by the effect of
another call. -/
theorem Knows.frame {history' : List (Event O R)} {order' : List (Entry O R)} {l : Phase O R}
    (h : Knows history order l)
    (hkept : ∀ (k : ℕ) (e : Event O R), history[k]? = some e → history'[k]? = some e)
    (hret : ∀ k r, l.call = some k → Event.ret k r ∈ history' → Event.ret k r ∈ history)
    (hmem : ∀ e ∈ order, e ∈ order')
    (hnew : ∀ e ∈ order', l.call = some e.start → e ∈ order) : Knows history' order' l := by
  cases l with
  | idle => trivial
  | pending k op =>
    obtain ⟨hcall, hno, hout⟩ := h
    refine ⟨hkept k _ hcall, fun r hr => hno r (hret k r rfl hr), fun e he hek => ?_⟩
    exact hout e (hnew e he (congrArg some hek.symm)) hek
  | applied k r =>
    obtain ⟨hno, op, hop⟩ := h
    exact ⟨fun r' hr => hno r' (hret k r' rfl hr), op, hmem _ hop⟩

/-- What stands in a history after one more event. -/
theorem getElem?_concat {e e' : Event O R} {p : ℕ} :
    (history ++ [e])[p]? = some e' ↔ history[p]? = some e' ∨ p = history.length ∧ e = e' := by
  rcases lt_trichotomy p history.length with hlt | rfl | hgt
  · rw [List.getElem?_append_left hlt]
    constructor
    · exact Or.inl
    · rintro (h | ⟨rfl, -⟩)
      · exact h
      · exact absurd hlt (lt_irrefl _)
  · simp
  · have hp : history[p]? = none := List.getElem?_eq_none hgt.le
    have hp' : (history ++ [e])[p]? = none :=
      List.getElem?_eq_none (by rw [List.length_append, List.length_singleton]; omega)
    rw [hp, hp']
    constructor
    · intro h
      cases h
    · rintro (h | ⟨rfl, -⟩)
      · cases h
      · exact absurd hgt (lt_irrefl _)

section Kept

variable [DecidableEq ι] {c : Config ι (Object σ O R) (Phase O R)} {point : ℕ → ℕ} {i : ι}

/-- A call begins. -/
theorem Inv.call_step (h : Inv apply s₀ c order point) (hi : c.locals i = .idle) (op : O) :
    Inv apply s₀ (c.move i { c.shared with history := c.shared.history ++ [.call op] }
      (.pending c.shared.history.length op)) order point := by
  have hnew : ∀ j k, (c.locals j).call = some k → k < c.shared.history.length :=
    fun j k hk => ((h.knows j).call_lt h.called hk).1
  refine ⟨h.replays, fun e he => getElem?_concat.mpr (.inl (h.called e he)), ?_, h.once, ?_,
    h.sorted, ?_, ?_⟩
  · intro k r hr
    rcases List.mem_append.mp hr with hr | hr
    · exact h.completed k r hr
    · cases List.mem_singleton.mp hr
  · intro e he
    obtain ⟨hlt, hle, hret⟩ := h.within e he
    refine ⟨hlt, hle.trans ?_, fun p r hp => ?_⟩
    · simp
    · rcases getElem?_concat.mp hp with hp | ⟨-, hp⟩
      · exact hret p r hp
      · cases hp
  · refine Config.forall_move (P := fun _ => Knows _ order) ⟨?_, ?_, ?_⟩ fun j _ => ?_
    · exact getElem?_concat.mpr (.inr ⟨rfl, rfl⟩)
    · -- a return that is already there is of a call that began earlier
      intro r hr
      rcases List.mem_append.mp hr with hr | hr
      · obtain ⟨op', hmem⟩ := h.completed _ r hr
        exact absurd (List.getElem?_eq_some_iff.mp (h.called _ hmem)).1 (lt_irrefl _)
      · cases List.mem_singleton.mp hr
    · intro e he hek
      exact absurd (List.getElem?_eq_some_iff.mp (h.called e he)).1 (by rw [hek]; exact lt_irrefl _)
    · refine (h.knows j).frame (fun k e hk => getElem?_concat.mpr (.inl hk)) ?_ (fun _ he => he)
        fun _ he _ => he
      intro k r _ hr
      rcases List.mem_append.mp hr with hr | hr
      · exact hr
      · cases List.mem_singleton.mp hr
  · intro a b k ha hb
    rcases eq_or_ne a i with rfl | hai
    · rcases eq_or_ne b a with rfl | hba
      · rfl
      · rw [Config.move_self] at ha
        rw [Config.move_of_ne _ _ _ hba] at hb
        obtain rfl := Option.some.inj ha
        exact absurd (hnew b _ hb) (lt_irrefl _)
    · rw [Config.move_of_ne _ _ _ hai] at ha
      rcases eq_or_ne b i with rfl | hbi
      · rw [Config.move_self] at hb
        obtain rfl := Option.some.inj hb
        exact absurd (hnew a _ ha) (lt_irrefl _)
      · rw [Config.move_of_ne _ _ _ hbi] at hb
        exact h.apart a b k ha hb

/-- A thread that stays in its call, or leaves it, is apart from the others. -/
theorem Inv.apart_move (h : Inv apply s₀ c order point) {s : Object σ O R} {l : Phase O R}
    (hl : ∀ k, l.call = some k → (c.locals i).call = some k) (a b : ι) (k : ℕ)
    (ha : ((c.move i s l).locals a).call = some k) (hb : ((c.move i s l).locals b).call = some k) :
    a = b := by
  have hback : ∀ j, ((c.move i s l).locals j).call = some k → (c.locals j).call = some k := by
    intro j hj
    rcases eq_or_ne j i with rfl | hji
    · rw [Config.move_self] at hj
      exact hl k hj
    · rwa [Config.move_of_ne _ _ _ hji] at hj
  exact h.apart a b k (hback a ha) (hback b hb)

/-- **A call has its effect**: it becomes the last of the order, and this is its moment. -/
theorem Inv.apply_step (h : Inv apply s₀ c order point) {k : ℕ} {op : O}
    (hi : c.locals i = .pending k op) :
    Inv apply s₀ (c.move i { c.shared with state := (apply op c.shared.state).1 }
        (.applied k (apply op c.shared.state).2))
      (order ++ [⟨k, op, (apply op c.shared.state).2⟩])
      (Function.update point k c.shared.history.length) := by
  obtain ⟨hcall, hno, hout⟩ : Knows c.shared.history order (.pending k op) := hi ▸ h.knows i
  have hklt : k < c.shared.history.length := (List.getElem?_eq_some_iff.mp hcall).1
  have hpoint : ∀ e ∈ order, Function.update point k c.shared.history.length e.start =
      point e.start := fun e he => Function.update_of_ne (hout e he) ..
  refine ⟨replays_append.mpr ⟨_, h.replays, rfl, rfl⟩, ?_, ?_, ?_, ?_, ?_, ?_, ?_⟩
  · intro e he
    rcases List.mem_append.mp he with he | he
    · exact h.called e he
    · obtain rfl := List.mem_singleton.mp he
      exact hcall
  · intro k' r hr
    obtain ⟨op', hmem⟩ := h.completed k' r hr
    exact ⟨op', List.mem_append_left _ hmem⟩
  · rw [List.map_append, List.nodup_append]
    refine ⟨h.once, List.nodup_singleton _, fun a ha b hb => ?_⟩
    obtain ⟨e, he, rfl⟩ := List.mem_map.mp ha
    obtain rfl := List.mem_singleton.mp hb
    exact hout e he
  · intro e he
    rcases List.mem_append.mp he with he | he
    · rw [hpoint e he]
      exact h.within e he
    · obtain rfl := List.mem_singleton.mp he
      rw [Function.update_self]
      refine ⟨hklt, le_rfl, fun p r hp => ?_⟩
      exact absurd (List.mem_of_getElem? hp) (hno r)
  · -- the moments so far are not after the present one
    refine List.pairwise_append.mpr ⟨h.sorted.imp_of_mem fun hx hy hxy => ?_,
      List.pairwise_singleton .., fun x hx y hy => ?_⟩
    · rwa [hpoint _ hx, hpoint _ hy]
    · obtain rfl := List.mem_singleton.mp hy
      rw [hpoint x hx, Function.update_self]
      exact (h.within x hx).2.1
  · refine Config.forall_move (P := fun _ => Knows _ _) ⟨hno, op, ?_⟩ fun j hj => ?_
    · exact List.mem_append_right _ (List.mem_singleton.mpr rfl)
    · refine (h.knows j).frame (fun _ _ hk => hk) (fun _ _ _ hr => hr)
        (fun e he => List.mem_append_left _ he) fun e he hje => ?_
      rcases List.mem_append.mp he with he | he
      · exact he
      · obtain rfl := List.mem_singleton.mp he
        exact absurd (h.apart j i k hje (by rw [hi]; rfl)) hj
  · exact h.apart_move fun k' hk' => by rw [hi]; exact hk'

/-- A call returns. -/
theorem Inv.ret_step (h : Inv apply s₀ c order point) {k : ℕ} {r : R}
    (hi : c.locals i = .applied k r) :
    Inv apply s₀ (c.move i { c.shared with history := c.shared.history ++ [.ret k r] } .idle)
      order point := by
  obtain ⟨-, op, hop⟩ : Knows c.shared.history order (.applied k r) := hi ▸ h.knows i
  refine ⟨h.replays, fun e he => getElem?_concat.mpr (.inl (h.called e he)), ?_, h.once, ?_,
    h.sorted, ?_, ?_⟩
  · intro k' r' hr
    rcases List.mem_append.mp hr with hr | hr
    · exact h.completed k' r' hr
    · cases List.mem_singleton.mp hr
      exact ⟨op, hop⟩
  · intro e he
    obtain ⟨hlt, hle, hret⟩ := h.within e he
    refine ⟨hlt, hle.trans ?_, fun p r' hp => ?_⟩
    · simp
    · rcases getElem?_concat.mp hp with hp | ⟨rfl, -⟩
      · exact hret p r' hp
      · exact hle
  · refine Config.forall_move (P := fun _ => Knows _ order) trivial fun j hj => ?_
    refine (h.knows j).frame (fun k e hk => getElem?_concat.mpr (.inl hk)) ?_ (fun _ he => he)
      fun _ he _ => he
    intro k' r' hk' hr
    rcases List.mem_append.mp hr with hr | hr
    · exact hr
    · cases List.mem_singleton.mp hr
      exact absurd (h.apart j i k hk' (by rw [hi]; rfl)) hj
  · exact h.apart_move fun k' hk' => by cases hk'

/-- **The invariant is kept by every step.** -/
theorem Inv.step (h : Inv apply s₀ c order point) {a : Choice O} {s : Object σ O R}
    {l : Phase O R} (hs : atomicStep apply i a c.shared (c.locals i) = some (s, l)) :
    ∃ order' point', Inv apply s₀ (c.move i s l) order' point' := by
  cases hi : c.locals i with
  | idle =>
    rw [hi] at hs
    cases a with
    | call op =>
      obtain ⟨rfl, rfl⟩ := Prod.mk.inj (Option.some.inj hs)
      exact ⟨order, point, h.call_step hi op⟩
    | go => cases hs
  | pending k op =>
    rw [hi] at hs
    cases a with
    | call op => cases hs
    | go =>
      obtain ⟨rfl, rfl⟩ := Prod.mk.inj (Option.some.inj hs)
      exact ⟨_, _, h.apply_step hi⟩
  | applied k r =>
    rw [hi] at hs
    cases a with
    | call op => cases hs
    | go =>
      obtain ⟨rfl, rfl⟩ := Prod.mk.inj (Option.some.inj hs)
      exact ⟨order, point, h.ret_step hi⟩

end Kept

theorem inv_start : Inv (ι := ι) apply s₀ (start ι s₀) [] id where
  replays := rfl
  called := fun _ he => absurd he List.not_mem_nil
  completed := fun _ _ hr => absurd hr List.not_mem_nil
  once := List.nodup_nil
  within := fun _ he => absurd he List.not_mem_nil
  sorted := .nil
  knows := fun _ => trivial
  apart := fun _ _ _ h => by cases h

/-- The invariant gives the linearization. -/
theorem Inv.isLinearization {c : Config ι (Object σ O R) (Phase O R)} {point : ℕ → ℕ}
    (h : Inv apply s₀ c order point) :
    IsLinearization apply s₀ c.shared.history c.shared.state order ∧
      HasPoints c.shared.history order := by
  have hpoints : HasPoints c.shared.history order :=
    ⟨point, fun e he => ⟨(h.within e he).1, (h.within e he).2.2⟩, h.sorted⟩
  exact ⟨⟨h.replays, h.called, h.completed, h.once, hpoints.realTime⟩, hpoints⟩

/-- **The atomic object is linearizable**, in every run of any number of threads. -/
theorem atomic_linearizable [DecidableEq ι] {c : Config ι (Object σ O R) (Phase O R)}
    (h : Reaches (threadStep (atomicStep apply)) (start ι s₀) c) :
    ∃ order, IsLinearization apply s₀ c.shared.history c.shared.state order ∧
      HasPoints c.shared.history order := by
  have hinv : ∃ order point, Inv apply s₀ c order point := by
    refine invariant (P := fun c => ∃ order point, Inv apply s₀ c order point) h
      ⟨[], id, inv_start⟩ ?_
    rintro d i a s l ⟨order, point, hd⟩ - hs
    exact hd.step hs
  obtain ⟨order, point, hinv⟩ := hinv
  exact ⟨order, hinv.isLinearization⟩

end Linear
