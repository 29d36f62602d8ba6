import Libuzi.Timer.TimerQueue

/-!
# The lists behind the pointers

`InsertTimerQueueTimer` as a function on lists, `Timer.insertAt`. It is *not* an ordered
insertion: the loop of the source looks for two neighbours between which the new timer
belongs, never looks before the first one, and where it finds such neighbours it puts the
timer in the place of the second. Where it finds none the timer goes to the end.

On a null-terminated list, and with no other list touching it, the function of the source is
this one (`Timer.insertTimerQueueTimer_spec`): the walk ends, no address without a timer is
touched, and everything but the links of the list stays as it was.
-/

namespace Libuzi

open Runs Chain

namespace Timer

/-! ### Insertion into a list -/

section InsertAt

variable {α : Type*} {stop : α → α → Bool} {t x : α} {xs : List α}

/-- **What `InsertTimerQueueTimer` does to a list**, `stop` saying between which
neighbours its loop stops. The second of the two is lost. -/
def insertAt (stop : α → α → Bool) (t : α) : List α → List α
  | [] => [t]
  | [a] => [a, t]
  | a :: b :: xs => if stop a b then a :: t :: xs else a :: insertAt stop t (b :: xs)

/-- The loop does not stop before the end. -/
def Clear (stop : α → α → Bool) (xs : List α) : Prop :=
  ∀ ys a b zs, xs = ys ++ a :: b :: zs → stop a b = false

/-- In a short list there are no neighbours. -/
theorem clear_of_length_le_one (h : xs.length ≤ 1) : Clear stop xs := by
  rintro ys a b zs rfl
  simp only [List.length_append, List.length_cons] at h
  omega

theorem clear_cons_cons {a b : α} :
    Clear stop (a :: b :: xs) ↔ stop a b = false ∧ Clear stop (b :: xs) := by
  constructor
  · intro h
    refine ⟨h [] a b xs rfl, fun ys c d zs hxs => ?_⟩
    exact h (a :: ys) c d zs (by rw [hxs, List.cons_append])
  · rintro ⟨hab, h⟩ ys c d zs hxs
    cases ys with
    | nil =>
      obtain ⟨rfl, rfl, -⟩ : a = c ∧ b = d ∧ xs = zs := by simpa using hxs
      exact hab
    | cons y ys =>
      obtain ⟨-, hxs⟩ := List.cons.inj hxs
      exact h ys c d zs hxs

instance decidableClear (stop : α → α → Bool) : (xs : List α) → Decidable (Clear stop xs)
  | [] => isTrue (clear_of_length_le_one (Nat.zero_le 1))
  | [_] => isTrue (clear_of_length_le_one (Nat.le_refl 1))
  | a :: b :: xs =>
    have := decidableClear stop (b :: xs)
    decidable_of_iff (stop a b = false ∧ Clear stop (b :: xs)) clear_cons_cons.symm

/-- **A timer is added at the end, or put in the place of the second of the first two
neighbours between which the loop stops.** -/
theorem insertAt_first (stop : α → α → Bool) (t : α) (xs : List α) :
    (Clear stop xs ∧ insertAt stop t xs = xs ++ [t]) ∨
      ∃ ys a b zs, xs = ys ++ a :: b :: zs ∧ Clear stop (ys ++ [a]) ∧ stop a b = true ∧
        insertAt stop t xs = ys ++ a :: t :: zs := by
  induction xs using insertAt.induct stop with
  | case1 => exact Or.inl ⟨clear_of_length_le_one (Nat.zero_le 1), rfl⟩
  | case2 a => exact Or.inl ⟨clear_of_length_le_one (Nat.le_refl 1), rfl⟩
  | case3 a b xs hstop =>
    refine Or.inr ⟨[], a, b, xs, rfl, clear_of_length_le_one (Nat.le_refl 1), hstop, ?_⟩
    rw [insertAt, if_pos hstop, List.nil_append]
  | case4 a b xs hstop ih =>
    rw [insertAt, if_neg hstop]
    have hstop' : stop a b = false := by simpa using hstop
    rcases ih with ⟨hclear, heq⟩ | ⟨ys, c, d, zs, hxs, hclear, hcd, heq⟩
    · refine Or.inl ⟨clear_cons_cons.mpr ⟨hstop', hclear⟩, ?_⟩
      rw [heq]
      rfl
    · refine Or.inr ⟨a :: ys, c, d, zs, ?_, ?_, hcd, ?_⟩
      · rw [hxs, List.cons_append]
      · -- the first of the neighbours before the stop is `b`
        cases ys with
        | nil =>
          obtain ⟨rfl, -⟩ := List.cons.inj hxs
          exact clear_cons_cons.mpr ⟨hstop', hclear⟩
        | cons y ys =>
          obtain ⟨rfl, -⟩ := List.cons.inj hxs
          exact clear_cons_cons.mpr ⟨hstop', hclear⟩
      · rw [heq, List.cons_append]

/-- **A timer is added at the end, or another one is lost for it.** -/
theorem insertAt_cases (stop : α → α → Bool) (t : α) (xs : List α) :
    (Clear stop xs ∧ insertAt stop t xs = xs ++ [t]) ∨
      ∃ ys a b zs, xs = ys ++ a :: b :: zs ∧ stop a b = true ∧
        insertAt stop t xs = ys ++ a :: t :: zs := by
  rcases insertAt_first stop t xs with hend | ⟨ys, a, b, zs, hxs, -, hab, heq⟩
  · exact Or.inl hend
  · exact Or.inr ⟨ys, a, b, zs, hxs, hab, heq⟩

theorem insertAt_of_clear (h : Clear stop xs) : insertAt stop t xs = xs ++ [t] := by
  rcases insertAt_cases stop t xs with ⟨-, heq⟩ | ⟨ys, a, b, zs, hxs, hab, -⟩
  · exact heq
  · rw [h ys a b zs hxs] at hab
    cases hab

/-- The second of two neighbours can be taken to the front. -/
theorem perm_second (ys : List α) (a b : α) (zs : List α) :
    (ys ++ a :: b :: zs).Perm (b :: (ys ++ a :: zs)) :=
  (List.Perm.append_left ys (List.Perm.swap b a zs)).trans List.perm_middle

/-- What is on the list afterwards is the new timer and part of what was on it. -/
theorem exists_sublist_insertAt (stop : α → α → Bool) (t : α) (xs : List α) :
    ∃ ys, ys.Sublist xs ∧ (insertAt stop t xs).Perm (t :: ys) := by
  rcases insertAt_cases stop t xs with ⟨-, heq⟩ | ⟨ys, a, b, zs, rfl, -, heq⟩
  · exact ⟨xs, List.Sublist.refl xs, heq ▸ List.perm_append_singleton t xs⟩
  · refine ⟨ys ++ a :: zs, ?_, ?_⟩
    · exact (List.Sublist.refl ys).append ((List.sublist_cons_self b zs).cons_cons a)
    · rw [heq]
      exact perm_second ys a t zs

theorem mem_of_mem_insertAt (h : x ∈ insertAt stop t xs) : x = t ∨ x ∈ xs := by
  obtain ⟨ys, hsub, hperm⟩ := exists_sublist_insertAt stop t xs
  rcases List.mem_cons.mp (hperm.mem_iff.mp h) with rfl | hx
  · exact Or.inl rfl
  · exact Or.inr (hsub.subset hx)

end InsertAt

/-! ### The heap seen as links and as timers -/

section Heap

/-- The links of a heap. -/
def Heap.link (h : Heap) (a : Addr) : Option (Option Addr) := (h a).map QueueTimer.next

/-- The timers of a heap without their links. -/
def Heap.core (h : Heap) : Heap := fun a => (h a).map fun t => { t with next := none }

/-- Between which neighbours the loop of `InsertTimerQueueTimer` stops. -/
def Heap.stops (h : Heap) (expirationTime : Timespec) (a b : Addr) : Bool :=
  match h a, h b with
  | some x, some y =>
    decide (0 < timespecCompare expirationTime x.expirationTime ∧
      timespecCompare expirationTime y.expirationTime < 0)
  | _, _ => false

variable {h : Heap} {a b : Addr} {p : Option Addr} {t : QueueTimer} {e : Timespec}

theorem Heap.load_of_eq (ha : h a = some t) : h.load a = .ok t := by
  rw [Heap.load, ha]

theorem Heap.link_eq_some {q : Option Addr} (hl : h.link a = some q) :
    ∃ t, h a = some t ∧ t.next = q :=
  Option.map_eq_some_iff.mp hl

theorem Heap.link_of_eq (ha : h a = some t) : h.link a = some t.next := by
  rw [Heap.link, ha, Option.map_some]

theorem Heap.setNext_of_eq (ha : h a = some t) :
    h.setNext a p = Function.update h a (some { t with next := p }) := by
  rw [Heap.setNext, Heap.modify, ha, Option.map_some]

theorem Heap.setNext_of_ne (hb : b ≠ a) : (h.setNext a p) b = h b :=
  Function.update_of_ne hb ..

/-- Links of different timers are written in either order. -/
theorem Heap.setNext_comm {q : Option Addr} (hab : a ≠ b) :
    (h.setNext b q).setNext a p = (h.setNext a p).setNext b q := by
  simp only [Heap.setNext, Heap.modify, Function.update_of_ne hab, Function.update_of_ne hab.symm]
  exact Function.update_comm hab.symm _ _ _

theorem Heap.link_setNext_self (ha : h a = some t) : (h.setNext a p).link a = some p := by
  rw [Heap.setNext_of_eq ha, Heap.link, Function.update_self, Option.map_some]

theorem Heap.link_setNext_of_ne (hb : b ≠ a) : (h.setNext a p).link b = h.link b := by
  rw [Heap.link, Heap.setNext_of_ne hb, Heap.link]

/-- Writing a link changes no timer otherwise. -/
theorem Heap.core_setNext : (h.setNext a p).core = h.core := by
  funext b
  by_cases hb : b = a
  · subst hb
    rw [Heap.core, Heap.setNext, Heap.modify, Function.update_self, Option.map_map]
    rfl
  · rw [Heap.core, Heap.setNext_of_ne hb, Heap.core]

theorem Heap.stops_core : h.core.stops e = h.stops e := by
  funext a b
  rw [Heap.stops, Heap.stops, Heap.core, Heap.core]
  cases h a <;> cases h b <;> rfl

/-- A list depends only on the timers on it. -/
theorem path_congr_heap {h h' : Heap} {p : Option Addr} {xs : List Addr}
    (hp : Path h.link p xs none) (hh : ∀ a ∈ xs, h' a = h a) : Path h'.link p xs none :=
  Chain.Path.congr hp fun a ha => by rw [Heap.link, hh a ha, Heap.link]

end Heap

/-! ### `InsertTimerQueueTimer` is `insertAt` -/

section Insert

variable {h : Heap} {e : Timespec}

/-- The loop ends, at the node after which `insertAt` puts the timer. -/
theorem insertLoop_spec (timer : Addr) {xs : List Addr} {a : Addr} {n : ℕ}
    (hp : Path h.link (some a) (a :: xs) none) (hn : xs.length < n) :
    ∃ ys node zs, a :: xs = ys ++ node :: zs ∧ insertLoop h e n a = .ok node ∧
      insertAt (h.stops e) timer (a :: xs) = ys ++ node :: timer :: zs.tail := by
  induction xs generalizing a n with
  | nil =>
    obtain ⟨m, rfl⟩ := Nat.exists_eq_add_one_of_ne_zero (Nat.ne_of_gt hn)
    obtain ⟨-, r, hr, rfl⟩ := hp
    obtain ⟨t, ht, htn⟩ := Heap.link_eq_some hr
    refine ⟨[], a, [], rfl, ?_, rfl⟩
    rw [insertLoop, Heap.load_of_eq ht]
    simp only [bind, Except.bind, htn]
  | cons b xs ih =>
    obtain ⟨m, rfl⟩ := Nat.exists_eq_add_one_of_ne_zero (Nat.ne_of_gt (Nat.zero_lt_of_lt hn))
    obtain ⟨-, r, hr, hp⟩ := hp
    obtain ⟨t, ht, rfl⟩ := Heap.link_eq_some hr
    have htn : t.next = some b := hp.1
    obtain ⟨r', hr'⟩ := hp.link_eq_some (a := b) List.mem_cons_self
    obtain ⟨u, hu, -⟩ := Heap.link_eq_some hr'
    have hstops : h.stops e a b =
        decide (0 < timespecCompare e t.expirationTime ∧
          timespecCompare e u.expirationTime < 0) := by
      rw [Heap.stops, ht, hu]
    have hloop : insertLoop h e (m + 1) a =
        if h.stops e a b then .ok a else insertLoop h e m b := by
      rw [insertLoop, Heap.load_of_eq ht]
      simp only [bind, Except.bind, htn, Heap.load_of_eq hu, hstops, decide_eq_true_eq]
      split_ifs <;> first | rfl | tauto
    rw [hloop, insertAt]
    by_cases hstop : h.stops e a b = true
    · rw [if_pos hstop, if_pos hstop]
      exact ⟨[], a, b :: xs, rfl, rfl, rfl⟩
    · rw [if_neg hstop, if_neg hstop]
      rw [htn] at hp
      obtain ⟨ys, node, zs, hxs, hnode, hins⟩ := ih hp (by simpa using hn)
      refine ⟨a :: ys, node, zs, ?_, hnode, ?_⟩
      · rw [hxs, List.cons_append]
      · rw [hins, List.cons_append]

section Places

variable {head r : Option Addr} {timer first node : Addr} {t nd : QueueTimer}
  {ys zs : List Addr} {fuel : ℕ}

/-- The list is empty: the timer is put on it alone. -/
theorem insertTimerQueueTimer_alone (ht : h timer = some t) :
    insertTimerQueueTimer fuel h none timer = .ok (h.setNext timer none, some timer) := by
  rw [insertTimerQueueTimer, Heap.load_of_eq ht]
  rfl

/-- The loop ends at the last node: the timer is put after it. -/
theorem insertTimerQueueTimer_last (ht : h timer = some t)
    (hloop : insertLoop h t.expirationTime fuel first = .ok node) (hnd : h node = some nd)
    (hnext : nd.next = none) :
    insertTimerQueueTimer fuel h (some first) timer =
      .ok ((h.setNext node (some timer)).setNext timer none, some first) := by
  rw [insertTimerQueueTimer, Heap.load_of_eq ht]
  simp only [bind, Except.bind, hloop, Heap.load_of_eq hnd, hnext]

/-- The loop ends before `b`: the timer is linked to what comes after `b`, which is lost. -/
theorem insertTimerQueueTimer_before {b : Addr} {nn : QueueTimer} (ht : h timer = some t)
    (hloop : insertLoop h t.expirationTime fuel first = .ok node) (hnd : h node = some nd)
    (hnext : nd.next = some b) (hnn : h b = some nn) (hne : node ≠ timer) :
    insertTimerQueueTimer fuel h (some first) timer =
      .ok ((h.setNext node (some timer)).setNext timer nn.next, some first) := by
  rw [insertTimerQueueTimer, Heap.load_of_eq ht]
  simp only [bind, Except.bind, hloop, Heap.load_of_eq hnd, hnext, Heap.load_of_eq hnn]
  rw [Heap.setNext_comm hne]

/-- With `node` linked to the timer, and the timer to the rest, it comes after `node`. -/
theorem path_setNext_setNext (hpre : Path h.link head ys (some node))
    (hpost : Path h.link r zs none) (hnode : node ∉ ys ∧ node ∉ zs)
    (htimer : timer ∉ ys ∧ timer ∉ zs) (hnd : h node = some nd) (ht : h timer = some t)
    (hne : node ≠ timer) :
    Path ((h.setNext node (some timer)).setNext timer r).link head (ys ++ node :: timer :: zs)
      none := by
  have ht' : (h.setNext node (some timer)) timer = some t := by rwa [Heap.setNext_of_ne hne.symm]
  refine hpre.splice hpost ⟨hnode.1, htimer.1⟩ ⟨hnode.2, htimer.2⟩ ?_
    (Heap.link_setNext_self ht') fun a han hat => ?_
  · rw [Heap.link_setNext_of_ne hne, Heap.link_setNext_self hnd]
  · rw [Heap.link_setNext_of_ne hat, Heap.link_setNext_of_ne han]

end Places

/-- **`InsertTimerQueueTimer` is `insertAt`** on a null-terminated list that the timer is
not on: it returns, and writes nothing but the links of the list and of the timer. -/
theorem insertTimerQueueTimer_spec {head : Option Addr} {xs : List Addr} {timer : Addr}
    {t : QueueTimer} {fuel : ℕ} (hp : Path h.link head xs none) (ht : h timer = some t)
    (hmem : timer ∉ xs) (hfuel : xs.length ≤ fuel) :
    ∃ h' head', insertTimerQueueTimer fuel h head timer = .ok (h', head') ∧
      Path h'.link head' (insertAt (h.stops t.expirationTime) timer xs) none ∧
      (∀ a, a ≠ timer → a ∉ xs → h' a = h a) ∧ h'.core = h.core := by
  cases xs with
  | nil =>
    obtain rfl : head = none := hp
    refine ⟨_, _, insertTimerQueueTimer_alone ht,
      ⟨rfl, none, Heap.link_setNext_self ht, rfl⟩, fun a ha _ => ?_, Heap.core_setNext⟩
    exact Heap.setNext_of_ne ha
  | cons first rest =>
    obtain rfl : head = some first := hp.1
    obtain ⟨ys, node, zs, hxs, hloop, hins⟩ := insertLoop_spec (e := t.expirationTime) timer hp
      (Nat.lt_of_succ_le hfuel)
    have hframe : ∀ (r : Option Addr) (a : Addr), a ≠ timer → a ∉ first :: rest →
        ((h.setNext node (some timer)).setNext timer r) a = h a := by
      intro r a hat ha
      have han : a ≠ node := by
        rintro rfl
        exact ha (hxs ▸ by simp)
      rw [Heap.setNext_of_ne hat, Heap.setNext_of_ne han]
    have hcore : ∀ r : Option Addr,
        ((h.setNext node (some timer)).setNext timer r).core = h.core := fun r => by
      rw [Heap.core_setNext, Heap.core_setNext]
    rw [hins]
    rw [hxs] at hp hmem
    obtain ⟨hyn, hzn⟩ := hp.notMem
    obtain ⟨hpre, r, hr, hpost⟩ := path_append_cons.mp hp
    obtain ⟨nd, hnd, rfl⟩ := Heap.link_eq_some hr
    obtain ⟨hysm, hne, hzsm⟩ : timer ∉ ys ∧ timer ≠ node ∧ timer ∉ zs := by
      simpa [List.mem_append, not_or] using hmem
    cases zs with
    | nil =>
      exact ⟨_, _, insertTimerQueueTimer_last ht hloop hnd hpost,
        path_setNext_setNext hpre rfl ⟨hyn, hzn⟩ ⟨hysm, hzsm⟩ hnd ht hne.symm, hframe none,
        hcore none⟩
    | cons b zs =>
      obtain ⟨hnext, r, hr, hpost⟩ := hpost
      obtain ⟨nn, hnn, rfl⟩ := Heap.link_eq_some hr
      rw [List.mem_cons, not_or] at hzn hzsm
      exact ⟨_, _, insertTimerQueueTimer_before ht hloop hnd hnext hnn hne.symm,
        path_setNext_setNext hpre hpost ⟨hyn, hzn.2⟩ ⟨hysm, hzsm.2⟩ hnd ht hne.symm,
        hframe nn.next, hcore nn.next⟩

end Insert

end Timer

end Libuzi
