import Libuzi.Timer.TimerLaw

/-!
# Insertion and the order of expiration

`FireExpiredTimerQueueTimers` and the thread of the queue look only at the first active
timer, and so rely on `InsertTimerQueueTimer` keeping a list in order of expiration. It
does so on some lists only. Its loop never looks before the first timer, so a timer that
expires first goes elsewhere; and it stops only where the new time lies strictly between
two neighbours, so that a timer that expires together with another one, but not last,
goes to the end.

`Timer.Fits` is the exact condition: the loop stops at two neighbours between which the
timer belongs – it takes the place of the second, which keeps the order – or it does not
stop and the timer belongs at the end. `Timer.sorted_insertAt_iff` is the fact about
lists, `Timer.keepsOrder_iff` the one about the function of the source, and
`Timer.fits_iff_of_near` says what the condition comes to for times that
`timespec_compare` compares correctly. Along runs whose insertions all fit, the active
list is in order, and the first active timer is one that expires first
(`Timer.ordered_of_fitting`).
-/

namespace Libuzi

open Runs Chain

namespace Timer

/-! ### Ordered insertion into a list -/

section Lists

variable {α : Type*} {stop : α → α → Bool} {due due' : α → ℤ} {t : α} {xs : List α} {d : ℤ}

/-- In order of expiration. -/
def InOrder (due : α → ℤ) (xs : List α) : Prop := xs.Pairwise fun a b => due a ≤ due b

/-- **The place that the loop finds for a timer due at `d` is one where it belongs**: the end
of the list, if the loop does not stop and nothing on the list is due later; or the place
after `a`, if the loop stops at the neighbours `a` and `b`, `a` is due no later, and what
follows `b` is due no earlier. -/
def Fits (stop : α → α → Bool) (due : α → ℤ) (d : ℤ) (xs : List α) : Prop :=
  (Clear stop xs ∧ ∀ a ∈ xs, due a ≤ d) ∨
    ∃ ys a b zs, xs = ys ++ a :: b :: zs ∧ Clear stop (ys ++ [a]) ∧ stop a b = true ∧
      due a ≤ d ∧ ∀ c ∈ zs, d ≤ due c

theorem mem_insertAt_self (stop : α → α → Bool) (t : α) (xs : List α) :
    t ∈ insertAt stop t xs := by
  rcases insertAt_cases stop t xs with ⟨-, heq⟩ | ⟨ys, a, b, zs, -, -, heq⟩
  · simp [heq]
  · simp [heq]

/-- The first stop is where the timer goes. -/
theorem insertAt_of_stop {ys zs : List α} {a b : α} (hclear : Clear stop (ys ++ [a]))
    (hstop : stop a b = true) :
    insertAt stop t (ys ++ a :: b :: zs) = ys ++ a :: t :: zs := by
  induction ys with
  | nil => rw [List.nil_append, insertAt, if_pos hstop, List.nil_append]
  | cons y ys ih =>
    cases ys with
    | nil =>
      obtain ⟨hya, -⟩ := clear_cons_cons.mp hclear
      rw [List.cons_append, List.nil_append, insertAt, hya, if_neg Bool.false_ne_true]
      exact congrArg (y :: ·) (ih (clear_of_length_le_one (Nat.le_refl 1)))
    | cons z ys =>
      obtain ⟨hyz, hrest⟩ := clear_cons_cons.mp hclear
      rw [List.cons_append, List.cons_append, insertAt, hyz, if_neg Bool.false_ne_true]
      exact congrArg (y :: ·) (ih hrest)

/-- **A list in order stays so exactly when the timer fits.** -/
theorem sorted_insertAt_iff (hxs : InOrder due xs) :
    InOrder due (insertAt stop t xs) ↔ Fits stop due (due t) xs := by
  constructor
  · intro h
    rcases insertAt_first stop t xs with ⟨hclear, heq⟩ | ⟨ys, a, b, zs, hcut, hclear, hab, heq⟩
    · rw [heq] at h
      exact .inl ⟨hclear, fun a ha => (List.pairwise_append.mp h).2.2 a ha t (by simp)⟩
    · rw [heq] at h
      obtain ⟨hat, htz⟩ := List.pairwise_cons.mp (List.pairwise_append.mp h).2.1
      exact .inr ⟨ys, a, b, zs, hcut, hclear, hab, hat t List.mem_cons_self,
        (List.pairwise_cons.mp htz).1⟩
  · rintro (⟨hclear, hlast⟩ | ⟨ys, a, b, zs, rfl, hclear, hab, hat, htz⟩)
    · rw [insertAt_of_clear hclear]
      refine List.pairwise_append.mpr ⟨hxs, List.pairwise_singleton _ _, fun a ha c hc => ?_⟩
      rw [List.mem_singleton.mp hc]
      exact hlast a ha
    · rw [insertAt_of_stop hclear hab]
      obtain ⟨hys, habz, hbefore⟩ := List.pairwise_append.mp hxs
      obtain ⟨haz, hbz⟩ := List.pairwise_cons.mp habz
      have hz := (List.pairwise_cons.mp hbz).2
      refine List.pairwise_append.mpr ⟨hys, List.pairwise_cons.mpr ⟨?_,
        List.pairwise_cons.mpr ⟨htz, hz⟩⟩, fun y hy c hc => ?_⟩
      · intro c hc
        rcases List.mem_cons.mp hc with rfl | hc
        · exact hat
        · exact haz c (List.mem_cons_of_mem b hc)
      · have hya := hbefore y hy a List.mem_cons_self
        rcases List.mem_cons.mp hc with rfl | hc
        · exact hya
        rcases List.mem_cons.mp hc with rfl | hc
        · exact hya.trans hat
        · exact hbefore y hy c (List.mem_cons_of_mem a (List.mem_cons_of_mem b hc))

theorem inOrder_congr (h : ∀ a ∈ xs, due' a = due a) : InOrder due' xs ↔ InOrder due xs := by
  constructor
  · intro hxs
    refine hxs.imp_of_mem fun ha hb hle => ?_
    rwa [← h _ ha, ← h _ hb]
  · intro hxs
    refine hxs.imp_of_mem fun ha hb hle => ?_
    rwa [h _ ha, h _ hb]

theorem fits_congr (h : ∀ a ∈ xs, due' a = due a) : Fits stop due' d xs ↔ Fits stop due d xs := by
  refine or_congr ?_ ?_
  · exact and_congr_right fun _ => forall₂_congr fun a ha => by rw [h a ha]
  · constructor
    · rintro ⟨ys, a, b, zs, rfl, hclear, hab, hat, htz⟩
      refine ⟨ys, a, b, zs, rfl, hclear, hab, by rwa [← h a (by simp)], fun c hc => ?_⟩
      rw [← h c (by simp [hc])]
      exact htz c hc
    · rintro ⟨ys, a, b, zs, rfl, hclear, hab, hat, htz⟩
      refine ⟨ys, a, b, zs, rfl, hclear, hab, by rwa [h a (by simp)], fun c hc => ?_⟩
      rw [h c (by simp [hc])]
      exact htz c hc

/-- The first timer of a list that is due after `d`, when none is due at `d`. -/
theorem exists_first_later (hne : ∀ a ∈ xs, due a ≠ d) (hlater : ∃ a ∈ xs, d < due a) :
    ∃ ys b zs, xs = ys ++ b :: zs ∧ (∀ a ∈ ys, due a < d) ∧ d < due b := by
  induction xs with
  | nil => simp at hlater
  | cons x xs ih =>
    rw [List.forall_mem_cons] at hne
    rcases lt_or_gt_of_ne hne.1 with hlt | hgt
    · have hlater' : ∃ a ∈ xs, d < due a := by
        obtain ⟨a, ha, hda⟩ := hlater
        rcases List.mem_cons.mp ha with rfl | ha
        · exact absurd hda (not_lt.mpr hlt.le)
        · exact ⟨a, ha, hda⟩
      obtain ⟨ys, b, zs, rfl, hys, hb⟩ := ih hne.2 hlater'
      exact ⟨x :: ys, b, zs, rfl, List.forall_mem_cons.mpr ⟨hlt, hys⟩, hb⟩
    · exact ⟨[], x, xs, rfl, by simp, hgt⟩

end Lists

/-! ### `InsertTimerQueueTimer` -/

section Insert

variable {h : Heap} {e : Timespec} {head : Option Addr} {xs : List Addr} {timer : Addr}
  {t : QueueTimer} {fuel : ℕ}

/-- **The function keeps a list in order**: it returns, the timer is on the list afterwards,
and the list is in order, so that its first timer is one that expires first. -/
def KeepsOrder (fuel : ℕ) (h : Heap) (head : Option Addr) (timer : Addr) : Prop :=
  ∃ h' head' ys, insertTimerQueueTimer fuel h head timer = .ok (h', head') ∧
    Path h'.link head' ys none ∧ timer ∈ ys ∧ InOrder h'.due ys ∧
    ∀ a, head' = some a → ∀ b ∈ ys, h'.due a ≤ h'.due b

/-- The first timer of a list in order is one that expires first. -/
theorem InOrder.first_le {p : Option Addr} (hxs : InOrder h.due xs)
    (hp : Path h.link p xs none) : ∀ a, p = some a → ∀ b ∈ xs, h.due a ≤ h.due b := by
  rintro a rfl b hb
  obtain ⟨ys, rfl⟩ := hp.eq_cons
  rcases List.mem_cons.mp hb with rfl | hb
  · exact le_refl _
  · exact (List.pairwise_cons.mp hxs).1 b hb

/-- **`InsertTimerQueueTimer` keeps a list in order exactly when the timer fits.** -/
theorem keepsOrder_iff (hp : Path h.link head xs none) (hxs : InOrder h.due xs)
    (ht : h timer = some t) (hmem : timer ∉ xs) (hfuel : xs.length ≤ fuel) :
    KeepsOrder fuel h head timer ↔
      Fits (h.stops t.expirationTime) h.due t.expirationTime.toNs xs := by
  obtain ⟨h', head', hins, hpath, -, hcore⟩ := insertTimerQueueTimer_spec hp ht hmem hfuel
  have hdue : h'.due = h.due := funext fun a => Heap.due_congr (congrFun hcore a)
  have hiff : InOrder h.due (insertAt (h.stops t.expirationTime) timer xs) ↔ _ :=
    sorted_insertAt_iff hxs
  rw [Heap.due_of_eq ht] at hiff
  rw [← hiff]
  constructor
  · rintro ⟨h'', head'', ys, hins', hpath', -, hys, -⟩
    obtain ⟨rfl, rfl⟩ := Prod.mk.inj (Except.ok.inj (hins.symm.trans hins'))
    rwa [hpath'.unique hpath, hdue] at hys
  · intro hys
    have hys' : InOrder h'.due (insertAt (h.stops t.expirationTime) timer xs) := by rwa [hdue]
    exact ⟨h', head', _, hins, hpath, mem_insertAt_self _ _ _, hys', hys'.first_le hpath⟩

/-- Where times are near, the loop stops between a timer due earlier and one due later. -/
theorem stops_iff_of_near {a b : Addr} {x y : QueueTimer} (ha : h a = some x) (hb : h b = some y)
    (hnx : Near e x.expirationTime) (hny : Near e y.expirationTime) :
    h.stops e a b = true ↔ h.due a < e.toNs ∧ e.toNs < h.due b := by
  rw [Heap.stops, ha, hb, Heap.due_of_eq ha, Heap.due_of_eq hb, decide_eq_true_eq,
    hnx.agrees.pos_iff, timespecCompare_neg_iff hny]

/-- **What fitting comes to for near times**: the timer is due no earlier than any on the
list; or it is due later than the first, and not together with another one. -/
theorem fits_iff_of_near (hp : Path h.link head xs none) (hxs : InOrder h.due xs)
    (hnear : ∀ a ∈ xs, ∀ x, h a = some x → Near e x.expirationTime) :
    Fits (h.stops e) h.due e.toNs xs ↔ (∀ a ∈ xs, h.due a ≤ e.toNs) ∨
      (∀ a ∈ xs.head?, h.due a < e.toNs) ∧ ∀ a ∈ xs, h.due a ≠ e.toNs := by
  have hstop : ∀ a ∈ xs, ∀ b ∈ xs,
      (h.stops e a b = true ↔ h.due a < e.toNs ∧ e.toNs < h.due b) := by
    intro a ha b hb
    obtain ⟨r, hr⟩ := hp.link_eq_some ha
    obtain ⟨r', hr'⟩ := hp.link_eq_some hb
    obtain ⟨x, hx, -⟩ := Heap.link_eq_some hr
    obtain ⟨y, hy, -⟩ := Heap.link_eq_some hr'
    exact stops_iff_of_near hx hy (hnear a ha x hx) (hnear b hb y hy)
  -- The loop does not stop on a list on which nothing is due later.
  have hclear : ∀ ws : List Addr, (∀ a ∈ ws, a ∈ xs ∧ h.due a ≤ e.toNs) →
      Clear (h.stops e) ws := by
    rintro ws hws ys a b zs rfl
    have ha := hws a (by simp)
    have hb := hws b (by simp)
    rw [← Bool.not_eq_true, hstop a ha.1 b hb.1]
    omega
  constructor
  · rintro (⟨-, hlast⟩ | ⟨ys, a, b, zs, rfl, -, hab, -, -⟩)
    · exact .inl hlast
    · have hlt := (hstop a (by simp) b (by simp)).mp hab
      obtain ⟨-, habz, hbefore⟩ := List.pairwise_append.mp hxs
      have hbz := (List.pairwise_cons.mp (List.pairwise_cons.mp habz).2).1
      have hys : ∀ y ∈ ys, h.due y < e.toNs := fun y hy =>
        (hbefore y hy a List.mem_cons_self).trans_lt hlt.1
      refine .inr ⟨fun y hy => ?_, fun y hy => ?_⟩
      · cases ys with
        | nil =>
          obtain rfl : a = y := by simpa using hy
          exact hlt.1
        | cons z ys =>
          obtain rfl : z = y := by simpa using hy
          exact hys z List.mem_cons_self
      · rcases List.mem_append.mp hy with hy | hy
        · exact (hys y hy).ne
        rcases List.mem_cons.mp hy with rfl | hy
        · exact hlt.1.ne
        rcases List.mem_cons.mp hy with rfl | hy
        · exact hlt.2.ne'
        · exact (hlt.2.trans_le (hbz y hy)).ne'
  · rintro (hlast | ⟨hfirst, hne⟩)
    · exact .inl ⟨hclear xs fun a ha => ⟨ha, hlast a ha⟩, hlast⟩
    · by_cases hlater : ∃ a ∈ xs, e.toNs < h.due a
      · obtain ⟨ws, b, zs, rfl, hws, hb⟩ := exists_first_later hne hlater
        -- The first timer is due earlier, so there is one before `b`.
        rcases List.eq_nil_or_concat ws with rfl | ⟨ys, a, rfl⟩
        · exact absurd (hfirst b (by simp)) (not_lt.mpr hb.le)
        · rw [List.concat_eq_append] at *
          have ha := hws a (by simp)
          have hbz := (List.pairwise_cons.mp (List.pairwise_append.mp hxs).2.1).1
          refine .inr ⟨ys, a, b, zs, by simp, hclear _ fun c hc => ⟨?_, (hws c hc).le⟩,
            (hstop a (by simp) b (by simp)).mpr ⟨ha, hb⟩, ha.le,
            fun c hc => hb.le.trans (hbz c hc)⟩
          exact List.mem_append_left _ hc
      · push Not at hlater
        exact .inl ⟨hclear xs fun a ha => ⟨ha, hlater a ha⟩, hlater⟩

end Insert

/-! ### Runs whose insertions fit -/

section Run

variable {s s' : Queue} {A I A' I' : List Addr} {e : Label}

/-- **The step puts a timer on the active list only where it fits.** It does not delete a
timer of the inactive list, where `DeleteTimerQueueTimer` does not look, and does not begin
to take the queue apart. -/
def Fitting (s : Queue) : Label → Prop
  | .create _ tval dueTime _ =>
    ∀ A, Path s.heap.link s.activeHead A none →
      Fits (s.heap.stops (timespecAddMs (timespecGettimeofday tval) dueTime)) s.heap.due
        (timespecAddMs (timespecGettimeofday tval) dueTime).toNs A
  | .change timer tval dueTime _ =>
    ∀ A, Path s.heap.link s.activeHead A none →
      Fits (s.heap.stops (timespecAddMs (timespecGettimeofday tval) dueTime)) s.heap.due
        (timespecAddMs (timespecGettimeofday tval) dueTime).toNs (A.erase timer)
  | .turn =>
    ∀ now a t A, s.control = .firing now → Path s.heap.link s.activeHead (a :: A) none →
      s.heap a = some t → 0 ≤ timespecCompare now t.expirationTime → t.period ≠ 0 →
        Fits (s.heap.stops (timespecAddMs t.expirationTime t.period)) s.heap.due
          (timespecAddMs t.expirationTime t.period).toNs A
  | .delete timer => ∀ I, Path s.heap.link s.inactiveHead I none → timer ∉ I
  | .fire _ => True
  | .destroy => False

theorem InOrder.update {h h' : Heap} {a : Addr} {t : Option QueueTimer}
    (hA : InOrder h.due A) (hcore : h'.core = Function.update h.core a t) (ha : a ∉ A) :
    InOrder h'.due A := by
  refine (inOrder_congr fun b hb => Heap.due_congr ?_).mpr hA
  have hba : b ≠ a := by
    rintro rfl
    exact ha hb
  rw [hcore, Function.update_of_ne hba]

/-- Inserting a timer that fits, and that has just been written. -/
theorem InOrder.insert {h h' : Heap} {a : Addr} {t : QueueTimer} (hA : InOrder h.due A)
    (hcore : h'.core = Function.update h.core a (some t)) (ha : a ∉ A)
    (hfits : Fits (h.stops t.expirationTime) h.due t.expirationTime.toNs A) :
    InOrder h'.due (insertAt (h.stops t.expirationTime) a A) := by
  have hdue : h'.due a = t.expirationTime.toNs :=
    Heap.due_of_core (by rw [hcore, Function.update_self])
  refine (sorted_insertAt_iff (hA.update hcore ha)).mpr ?_
  rw [hdue]
  refine (fits_congr fun b hb => Heap.due_congr ?_).mpr hfits
  have hba : b ≠ a := by
    rintro rfl
    exact ha hb
  rw [hcore, Function.update_of_ne hba]

/-- **A step whose insertion fits keeps the active list in order.** -/
theorem Effect.inOrder (hq : Queued s A I) (he : Effect s A I e s' A' I') (hfit : Fitting s e)
    (hA : InOrder s.heap.due A) : InOrder s'.heap.due A' := by
  cases he with
  | create timer tval dueTime period h' p hidle hnew hcore =>
    exact hA.insert hcore (fun h => hnew (hq.live_of_active h).1) (hfit A hq.active)
  | change timer tval dueTime period t h' p q hidle hlive ht hcore =>
    exact InOrder.insert (hA.sublist List.erase_sublist) hcore hq.active.nodup.not_mem_erase
      (hfit A hq.active)
  | fire tval hidle => exact hA
  | rearm a B now t h' p hfiring hAB ht hexp hper hcore =>
    rw [hAB] at hA
    have hpath := hAB ▸ hq.active
    exact InOrder.insert (List.pairwise_cons.mp hA).2 hcore (List.nodup_cons.mp hpath.nodup).1
      (hfit now a t B hfiring hpath ht hexp hper)
  | spend a B now t h' p q hfiring hAB ht hexp hper hcore =>
    rw [hAB] at hA
    have hpath := hAB ▸ hq.active
    exact InOrder.update (List.pairwise_cons.mp hA).2 hcore (List.nodup_cons.mp hpath.nodup).1
  | finish now hfiring hend => exact hA
  | delete timer h' p hidle hlive hI hcore =>
    exact InOrder.update (hA.sublist List.erase_sublist) hcore hq.active.nodup.not_mem_erase

/-- **Along a run whose insertions fit, the active list is in order.** -/
theorem ordered_of_fitting (hs : ReachesIf step Fitting createTimerQueue s) :
    ∃ A I, Queued s A I ∧ Calm s ∧ InOrder s.heap.due A := by
  refine hs.invariant (P := fun s => ∃ A I, Queued s A I ∧ Calm s ∧ InOrder s.heap.due A)
    ⟨[], [], queued_createTimerQueue, Or.inl rfl, List.Pairwise.nil⟩ ?_
  rintro t t' e ⟨A, I, hq, hcalm, hA⟩ hfit hstep
  obtain ⟨A', I', hq', he⟩ := step_effect hq hcalm (by rintro rfl; exact hfit)
    (by rintro timer rfl; exact hfit I hq.inactive) hstep
  exact ⟨A', I', hq', he.calm, he.inOrder hq hfit hA⟩

/-- **Insertion keeps the order of expiration exactly where the timer fits.** For every list
in order and every timer not on it, `InsertTimerQueueTimer` keeps the order and puts the timer
on the list if and only if the timer fits; and in every run whose insertions all fit, the
first active timer is one that expires first. -/
theorem insertion_order {h : Heap} {head : Option Addr} {xs : List Addr} {timer : Addr}
    {t : QueueTimer} {fuel : ℕ} (hp : Path h.link head xs none) (hxs : InOrder h.due xs)
    (ht : h timer = some t) (hmem : timer ∉ xs) (hfuel : xs.length ≤ fuel) :
    (KeepsOrder fuel h head timer ↔
        Fits (h.stops t.expirationTime) h.due t.expirationTime.toNs xs) ∧
      ∀ s, ReachesIf step Fitting createTimerQueue s →
        ∃ A, Path s.heap.link s.activeHead A none ∧ InOrder s.heap.due A ∧
          ∀ a, s.activeHead = some a → ∀ b ∈ A, s.heap.due a ≤ s.heap.due b := by
  refine ⟨keepsOrder_iff hp hxs ht hmem hfuel, fun s hs => ?_⟩
  obtain ⟨A, I, hq, -, hA⟩ := ordered_of_fitting hs
  exact ⟨A, hq.active, hA, hA.first_le hq.active⟩

end Run

/-! ### A timer that expires first -/

/-- A timer that fires once, due `ms` milliseconds after midnight. -/
def onceAt (ms : UInt32) : QueueTimer :=
  freshTimer ms 0 (timespecAddMs (timespecGettimeofday midnight) ms)

/-- A timer due after `10` ms, and one that is due at another time. -/
def beside (ms : UInt32) : Heap := fun a =>
  if a = 0 then some (onceAt 10) else if a = 1 then some (onceAt ms) else none

theorem path_beside (ms : UInt32) : Path (beside ms).link (some 0) [0] none :=
  ⟨rfl, none, rfl, rfl⟩

/-- A timer due after `5` ms is put behind the one due after `10` ms. -/
theorem insertion_order_first :
    (Path (beside 5).link (some 0) [0] none ∧ InOrder (beside 5).due [0] ∧ 1 ∉ [0]) ∧
      ¬ KeepsOrder 1 (beside 5) (some 0) 1 := by
  refine ⟨⟨path_beside 5, List.pairwise_singleton _ _, by decide⟩, fun h => ?_⟩
  rw [keepsOrder_iff (path_beside 5) (List.pairwise_singleton _ _)
    (show beside 5 1 = some (onceAt 5) from rfl) (by decide) (Nat.le_refl 1),
    fits_iff_of_near (path_beside 5) (List.pairwise_singleton _ _)] at h
  · rcases h with h | ⟨h, -⟩
    · exact absurd (h 0 (by decide)) (by decide +kernel)
    · exact absurd (h 0 (by decide)) (by decide +kernel)
  · intro a ha x hx
    rw [List.mem_singleton.mp ha] at hx
    obtain rfl := Option.some.inj hx
    decide +kernel

/-- Three timers in order, due after `10`, `20` and `30` ms, and one due after `25`. -/
def inOrder : Heap := fun a =>
  match a with
  | 0 => some { onceAt 10 with next := some 1 }
  | 1 => some { onceAt 20 with next := some 2 }
  | 2 => some (onceAt 30)
  | 3 => some (onceAt 25)
  | _ => none

/-- The last of them is put behind the second. -/
theorem insertion_order_between : KeepsOrder 3 inOrder (some 0) 3 := by
  have hpath : Path inOrder.link (some 0) [0, 1, 2] none := by decide +kernel
  have horder : InOrder inOrder.due [0, 1, 2] := by
    unfold InOrder
    decide +kernel
  refine (insertion_order hpath horder (show inOrder 3 = some (onceAt 25) from rfl) (by decide)
    (Nat.le_refl 3)).1.mpr (.inr ⟨[0], 1, 2, [], rfl, ?_⟩)
  exact ⟨by decide +kernel, by decide +kernel, by decide +kernel, by decide⟩

end Timer

end Libuzi
