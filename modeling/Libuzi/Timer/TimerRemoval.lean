import Libuzi.Timer.TimerLists

/-!
# Taking a timer off a list

`RemoveTimerQueueTimer` looks for a timer on a null-terminated list, and takes it off if it is
there. What it writes depends on where the timer is.

| where the timer is | what is written | theorem |
|---|---|---|
| first | the head, then its own link | `Timer.removeTimerQueueTimer_first` |
| after a node | the link of that node, then its own | `Timer.removeTimerQueueTimer_later` |
| not on the list | nothing | `Timer.removeTimerQueueTimer_absent` |

In each case the list is afterwards what `List.erase` makes of it, and a timer that was on it is
linked to nothing (`Timer.removeTimerQueueTimer_spec`).

`ChangeTimerQueueTimer` does not know which of the two lists of a queue its timer is on. It
removes it from both, the second time when its link has perhaps been cleared already. Each
removal leaves the nodes of the other list alone, and so the timer is taken off the list it was
on, and the other list is as it was (`Timer.removeFromBoth_spec`).
-/

namespace Libuzi

open Runs Chain

namespace Timer

/-! ### The loop -/

section Loop

variable {h : Heap} {timer : Addr}

/-- The loop does not find a timer that is not on the list. -/
theorem removeLoop_of_notMem {xs : List Addr} {p : Option Addr} {n : ℕ}
    (hp : Path h.link p xs none) (hmem : timer ∉ xs) (hn : xs.length ≤ n) (prev : Option Addr) :
    removeLoop h timer n p prev = .ok none := by
  induction xs generalizing p n prev with
  | nil =>
    obtain rfl : p = none := hp
    rw [removeLoop]
  | cons a xs ih =>
    obtain ⟨m, rfl⟩ := Nat.exists_eq_add_one_of_ne_zero (Nat.ne_of_gt (Nat.zero_lt_of_lt hn))
    obtain ⟨rfl, r, hr, hp⟩ := hp
    obtain ⟨t, ht, rfl⟩ := Heap.link_eq_some hr
    rw [List.mem_cons, not_or] at hmem
    rw [removeLoop, if_neg (Ne.symm hmem.1), Heap.load_of_eq ht]
    exact ih hp hmem.2 (Nat.le_of_succ_le_succ hn) (some a)

/-- The loop finds a timer on the list, and the node before it. -/
theorem removeLoop_of_mem {ys zs : List Addr} {a : Addr} {p : Option Addr} {n : ℕ}
    (hp : Path h.link p (ys ++ a :: timer :: zs) none) (hmem : timer ∉ ys ++ [a])
    (hn : (ys ++ a :: timer :: zs).length ≤ n) (prev : Option Addr) :
    removeLoop h timer n p prev = .ok (some (some a)) := by
  induction ys generalizing p n prev with
  | nil =>
    obtain ⟨m, rfl⟩ : ∃ m, n = m + 1 + 1 :=
      ⟨n - 2, by simp only [List.nil_append, List.length_cons] at hn; omega⟩
    obtain ⟨rfl, r, hr, rfl, -⟩ := hp
    obtain ⟨t, ht, htn⟩ := Heap.link_eq_some hr
    have ha : ¬a = timer := fun ha => hmem (by simp [ha])
    rw [removeLoop, if_neg ha, Heap.load_of_eq ht]
    simp only [bind, Except.bind, htn]
    rw [removeLoop, if_pos rfl]
  | cons y ys ih =>
    obtain ⟨m, rfl⟩ := Nat.exists_eq_add_one_of_ne_zero (Nat.ne_of_gt (Nat.zero_lt_of_lt hn))
    obtain ⟨rfl, r, hr, hp⟩ := hp
    obtain ⟨t, ht, rfl⟩ := Heap.link_eq_some hr
    rw [List.cons_append, List.mem_cons, not_or] at hmem
    rw [removeLoop, if_neg (Ne.symm hmem.1), Heap.load_of_eq ht]
    exact ih hp hmem.2 (Nat.le_of_succ_le_succ hn) (some y)

end Loop

/-! ### The three ways of `RemoveTimerQueueTimer` -/

section Ways

variable {h : Heap} {head : Option Addr} {timer a : Addr} {t : QueueTimer}
  {xs ys zs : List Addr} {fuel : ℕ}

/-- The timer is the first one. -/
theorem removeTimerQueueTimer_first (ht : h timer = some t) :
    removeTimerQueueTimer fuel h (some timer) timer = .ok (h.setNext timer none, t.next) := by
  rw [removeTimerQueueTimer, if_pos rfl, Heap.load_of_eq ht]
  rfl

/-- The timer comes after `a`. -/
theorem removeTimerQueueTimer_later (hp : Path h.link head (ys ++ a :: timer :: zs) none)
    (ht : h timer = some t) (hfuel : (ys ++ a :: timer :: zs).length ≤ fuel) :
    removeTimerQueueTimer fuel h head timer =
      .ok ((h.setNext a t.next).setNext timer none, head) := by
  have hbefore : timer ∉ ys ++ [a] := hp.notMem_before.1
  have hhead : some timer ≠ head := by
    rintro rfl
    obtain ⟨ws, hws⟩ := hp.eq_cons
    cases ys with
    | nil =>
      obtain ⟨rfl, -⟩ := List.cons.inj hws
      exact hbefore List.mem_cons_self
    | cons y ys =>
      obtain ⟨rfl, -⟩ := List.cons.inj hws
      exact hbefore List.mem_cons_self
  rw [removeTimerQueueTimer, if_neg hhead, removeLoop_of_mem hp hbefore hfuel none]
  simp only [bind, Except.bind, Heap.load_of_eq ht]

/-- The timer is not on the list. -/
theorem removeTimerQueueTimer_absent (hp : Path h.link head xs none) (hmem : timer ∉ xs)
    (hfuel : xs.length ≤ fuel) : removeTimerQueueTimer fuel h head timer = .ok (h, head) := by
  have hhead : some timer ≠ head := by
    rintro rfl
    obtain ⟨ys, rfl⟩ := hp.eq_cons
    exact hmem List.mem_cons_self
  rw [removeTimerQueueTimer, if_neg hhead, removeLoop_of_notMem hp hmem hfuel none]
  rfl

end Ways

/-! ### `RemoveTimerQueueTimer` is `List.erase` -/

section Remove

variable {h h' : Heap} {head head' : Option Addr} {timer a : Addr} {t : QueueTimer}
  {xs ys zs : List Addr} {fuel : ℕ}

/-- **The timer has been taken off the list `xs`**, if it was on it, and nothing else has
happened: `h` and `head` have become `h'` and `head'`. -/
structure Removed (timer : Addr) (xs : List Addr) (h : Heap) (head : Option Addr) (h' : Heap)
    (head' : Option Addr) : Prop where
  /-- The other nodes of the list are on it, in the order they were in. -/
  list : Path h'.link head' (xs.erase timer) none
  /-- A timer that was on the list is linked to nothing. -/
  next : timer ∈ xs → h'.link timer = some none
  /-- For one that was not, nothing is written. -/
  absent : timer ∉ xs → h' = h ∧ head' = head
  /-- Only the timer and the node before it on the list are written. -/
  others : ∀ b, b ≠ timer → ¬(b ∈ xs ∧ h.link b = some (some timer)) → h' b = h b
  /-- Only links are written. -/
  core : h'.core = h.core

/-- No node outside the list is written. -/
theorem Removed.outside (hr : Removed timer xs h head h' head') : ∀ b, b ∉ xs → h' b = h b := by
  intro b hb
  rcases eq_or_ne b timer with rfl | hbt
  · rw [(hr.absent hb).1]
  · exact hr.others b hbt fun hbx => hb hbx.1

theorem removed_first (hp : Path h.link head (timer :: zs) none) (ht : h timer = some t) :
    Removed timer (timer :: zs) h head (h.setNext timer none) t.next where
  list := by
    have hnotMem : timer ∉ zs := (List.nodup_cons.mp hp.nodup).1
    obtain ⟨-, r, hr, hzs⟩ := hp
    obtain rfl : t.next = r := Option.some.inj ((Heap.link_of_eq ht).symm.trans hr)
    rw [List.erase_cons_head]
    refine hzs.congr fun b hb => Heap.link_setNext_of_ne ?_
    rintro rfl
    exact hnotMem hb
  next _ := Heap.link_setNext_self ht
  absent hmem := absurd List.mem_cons_self hmem
  others _ hb _ := Heap.setNext_of_ne hb
  core := Heap.core_setNext

theorem removed_later (hp : Path h.link head (ys ++ a :: timer :: zs) none)
    (ht : h timer = some t) :
    Removed timer (ys ++ a :: timer :: zs) h head ((h.setNext a t.next).setNext timer none)
      head := by
  have hlink : h.link a = some (some timer) := by
    obtain ⟨-, r, hr, rfl, -⟩ := path_append_cons.mp hp
    exact hr
  obtain ⟨u, hu, -⟩ := Heap.link_eq_some hlink
  have hbefore : timer ∉ ys ++ [a] := hp.notMem_before.1
  have hat : a ≠ timer := by
    rintro rfl
    exact hbefore (List.mem_append_right ys List.mem_cons_self)
  have ht' : (h.setNext a t.next) timer = some t := by rwa [Heap.setNext_of_ne hat.symm]
  refine ⟨?_, fun _ => Heap.link_setNext_self ht', fun hmem => absurd (by simp) hmem, ?_, ?_⟩
  · have herase : (ys ++ a :: timer :: zs).erase timer = ys ++ a :: zs := by
      rw [List.append_cons, List.erase_append_right _ hbefore, List.erase_cons_head,
        ← List.append_cons]
    rw [herase]
    refine hp.unlink (Heap.link_of_eq ht) ?_ fun b hba hbt => ?_
    · rw [Heap.link_setNext_of_ne hat, Heap.link_setNext_self hu]
    · rw [Heap.link_setNext_of_ne hbt, Heap.link_setNext_of_ne hba]
  · intro b hbt hb
    have hba : b ≠ a := by
      rintro rfl
      exact hb ⟨by simp, hlink⟩
    rw [Heap.setNext_of_ne hbt, Heap.setNext_of_ne hba]
  · rw [Heap.core_setNext, Heap.core_setNext]

theorem removed_absent (hp : Path h.link head xs none) (hmem : timer ∉ xs) :
    Removed timer xs h head h head where
  list := by rwa [List.erase_of_not_mem hmem]
  next hxs := absurd hxs hmem
  absent _ := ⟨rfl, rfl⟩
  others _ _ _ := rfl
  core := rfl

/-- **`RemoveTimerQueueTimer` takes the timer off a null-terminated list**: it returns, and
writes nothing else. -/
theorem removeTimerQueueTimer_spec (timer : Addr) (hp : Path h.link head xs none)
    (hfuel : xs.length ≤ fuel) :
    ∃ h' head', removeTimerQueueTimer fuel h head timer = .ok (h', head') ∧
      Removed timer xs h head h' head' := by
  by_cases hmem : timer ∈ xs
  · obtain ⟨r, hr⟩ := hp.link_eq_some hmem
    obtain ⟨t, ht, -⟩ := Heap.link_eq_some hr
    obtain ⟨ys, zs, rfl⟩ := List.append_of_mem hmem
    rcases List.eq_nil_or_concat ys with rfl | ⟨ys, a, rfl⟩
    · obtain rfl : head = some timer := hp.1
      exact ⟨_, _, removeTimerQueueTimer_first ht, removed_first hp ht⟩
    · rw [List.concat_eq_append, List.append_assoc, List.singleton_append] at *
      exact ⟨_, _, removeTimerQueueTimer_later hp ht hfuel, removed_later hp ht⟩
  · exact ⟨h, head, removeTimerQueueTimer_absent hp hmem hfuel, removed_absent hp hmem⟩

end Remove

/-! ### The removals of `ChangeTimerQueueTimer` -/

/-- The two removals of `ChangeTimerQueueTimer`: the heap and the two heads afterwards. -/
def removeFromBoth (fuel : ℕ) (h : Heap) (activeHead inactiveHead : Option Addr) (timer : Addr) :
    Except Fault (Heap × Option Addr × Option Addr) := do
  let r ← removeTimerQueueTimer fuel h activeHead timer
  let r' ← removeTimerQueueTimer fuel r.1 inactiveHead timer
  .ok (r'.1, r.2, r'.2)

/-- `ChangeTimerQueueTimer` begins with them. -/
theorem changeTimerQueueTimer_eq (s : Queue) (timer : Addr) (tval : Timeval)
    (dueTime period : UInt32) :
    changeTimerQueueTimer s timer tval dueTime period = (do
      let startTime := timespecAddMs (timespecGettimeofday tval) dueTime
      let r ← removeFromBoth s.created.length s.heap s.activeHead s.inactiveHead timer
      let h := r.1.modify timer fun t =>
        { t with
          dueTime := dueTime, period := period, next := none, startTime := startTime,
          expirationTime := startTime }
      let r' ← insertTimerQueueTimer s.created.length h r.2.1 timer
      .ok { s with heap := r'.1, activeHead := r'.2, inactiveHead := r.2.2 }) := by
  rw [changeTimerQueueTimer, removeFromBoth]
  simp only [bind_assoc]
  rfl

section Both

variable {h h' : Heap} {p q p' q' : Option Addr} {timer : Addr} {A I : List Addr} {fuel : ℕ}

/-- **The timer has been taken off whichever of the lists `A` and `I` it was on**, and nothing
else has happened: `h`, `p` and `q` have become `h'`, `p'` and `q'`. -/
structure RemovedFromBoth (timer : Addr) (A I : List Addr) (h : Heap) (p q : Option Addr)
    (h' : Heap) (p' q' : Option Addr) : Prop where
  /-- The other nodes of the first list are on it. -/
  active : Path h'.link p' (A.erase timer) none
  /-- The other nodes of the second list are on it. -/
  inactive : Path h'.link q' (I.erase timer) none
  /-- A timer that was on one of them is linked to nothing. -/
  next : timer ∈ A ∨ timer ∈ I → h'.link timer = some none
  /-- A first list that it was not on is as it was. -/
  active_same : timer ∉ A → p' = p ∧ ∀ a ∈ A, h' a = h a
  /-- A second list that it was not on is as it was. -/
  inactive_same : timer ∉ I → q' = q ∧ ∀ a ∈ I, h' a = h a
  /-- For a timer on neither, nothing is written. -/
  absent : timer ∉ A → timer ∉ I → h' = h
  /-- No other node is written. -/
  outside : ∀ a, a ∉ A → a ∉ I → h' a = h a
  /-- Only links are written. -/
  core : h'.core = h.core

/-- **The two removals take the timer off the list it is on, and leave the other one as it
is.** -/
theorem removeFromBoth_spec (timer : Addr) (hA : Path h.link p A none)
    (hI : Path h.link q I none) (hAI : A.Disjoint I) (hA' : A.length ≤ fuel)
    (hI' : I.length ≤ fuel) :
    ∃ h' p' q', removeFromBoth fuel h p q timer = .ok (h', p', q') ∧
      RemovedFromBoth timer A I h p q h' p' q' := by
  obtain ⟨h₁, p₁, hcall₁, hr₁⟩ := removeTimerQueueTimer_spec timer hA hA'
  -- The first removal leaves the second list alone.
  have hI₁ : ∀ a ∈ I, h₁ a = h a := fun a ha => hr₁.outside a fun haA => hAI haA ha
  obtain ⟨h₂, q₂, hcall₂, hr₂⟩ := removeTimerQueueTimer_spec timer (path_congr_heap hI hI₁) hI'
  -- And the second one the first list.
  have hA₂ : ∀ a ∈ A, h₂ a = h₁ a := fun a ha => hr₂.outside a fun haI => hAI ha haI
  refine ⟨h₂, p₁, q₂, ?_, ?_⟩
  · rw [removeFromBoth, hcall₁]
    simp only [bind, Except.bind, hcall₂]
  · refine ⟨?_, hr₂.list, ?_, fun hmem => ?_, fun hmem => ?_, fun hmA hmI => ?_,
      fun a haA haI => ?_, hr₂.core.trans hr₁.core⟩
    · exact path_congr_heap hr₁.list fun a ha => hA₂ a (List.mem_of_mem_erase ha)
    · rintro (hmem | hmem)
      · obtain ⟨rfl, -⟩ := hr₂.absent fun hmI => hAI hmem hmI
        exact hr₁.next hmem
      · exact hr₂.next hmem
    · obtain ⟨rfl, rfl⟩ := hr₁.absent hmem
      exact ⟨rfl, hA₂⟩
    · obtain ⟨rfl, rfl⟩ := hr₂.absent hmem
      exact ⟨rfl, hI₁⟩
    · rw [(hr₂.absent hmI).1, (hr₁.absent hmA).1]
    · rw [hr₂.outside a haI, hr₁.outside a haA]

/-- **`RemoveTimerQueueTimer` takes exactly the timer off its list**, and both removals of
`ChangeTimerQueueTimer` take it off the list it is on, when no node is on both lists. -/
theorem remove_exactly_one {head : Option Addr} {xs : List Addr} (timer : Addr)
    (hp : Path h.link head xs none) (hfuel : xs.length ≤ fuel) :
    (∃ h' head', removeTimerQueueTimer fuel h head timer = .ok (h', head') ∧
        Removed timer xs h head h' head') ∧
      ∀ (q : Option Addr) (ys : List Addr), Path h.link q ys none → xs.Disjoint ys →
        ys.length ≤ fuel →
        ∃ h' head' q', removeFromBoth fuel h head q timer = .ok (h', head', q') ∧
          RemovedFromBoth timer xs ys h head q h' head' q' := by
  refine ⟨removeTimerQueueTimer_spec timer hp hfuel, fun q ys hq hdis hys => ?_⟩
  exact removeFromBoth_spec timer hp hq hdis hfuel hys

/-- Four timers: `0`, `1` and `2` on a list, and `3` on a list of its own. -/
def fourTimers : Heap := fun a =>
  if a < 4 then
    some
      { dueTime := 0, period := 0, fireCount := 0
        startTime := ⟨0, 0, zero_lt_nsecPerSec⟩
        expirationTime := ⟨0, 0, zero_lt_nsecPerSec⟩
        next := if a < 2 then some (a + 1) else none }
  else none

/-- The one in the middle is taken off. -/
theorem remove_exactly_one_middle :
    (∃ h' head', removeTimerQueueTimer 3 fourTimers (some 0) 1 = .ok (h', head') ∧
        Removed 1 [0, 1, 2] fourTimers (some 0) h' head') ∧
      ∃ h' head' q', removeFromBoth 3 fourTimers (some 0) (some 3) 1 = .ok (h', head', q') ∧
        RemovedFromBoth 1 [0, 1, 2] [3] fourTimers (some 0) (some 3) h' head' q' := by
  have hp : Path fourTimers.link (some 0) [0, 1, 2] none :=
    ⟨rfl, some 1, rfl, rfl, some 2, rfl, rfl, none, rfl, rfl⟩
  have hq : Path fourTimers.link (some 3) [3] none := ⟨rfl, none, rfl, rfl⟩
  obtain ⟨hone, hboth⟩ := remove_exactly_one 1 hp (Nat.le_refl 3)
  exact ⟨hone, hboth (some 3) [3] hq (by simp) (by decide)⟩

end Both

end Timer

end Libuzi
