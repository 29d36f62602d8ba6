import Libuzi.Timer.TimerDeletion

/-!
# What `DeleteTimerQueueEx` releases

Before a queue is freed its timers are: the active ones are moved to the inactive list, and
that list is freed from its head on. The first loop goes along the active list by the
`next` field of the timer it has just moved, and moving a timer writes that field. So
after the first timer the loop is somewhere else:

* at the end, if the timer was appended to the inactive list; the other active timers are
  then never moved, and never freed;
* in the middle of the inactive list, if the timer was put there in the place of another;
  that other one is then on no list, and no pointer that is still followed leads to it.

`Timer.Releases` is a run of the two loops with the timers it frees. A list that is freed
from its head on is freed exactly once, timer by timer (`Timer.releases_free`); and what is
freed stays inside any set that no pointer leads out of (`Timer.Releases.mem`). The section
therefore does what it should exactly when there is at most one active timer, and the
inactive list has no two neighbours between which that one goes (`Timer.release_iff`).
-/

namespace Libuzi

open Runs Chain

namespace Timer

/-! ### Runs of the two loops -/

/-- The timer that the next turn frees. -/
def freedBy (s : Queue) : List Addr :=
  match s.control with
  | .freeing (some node) => [node]
  | _ => []

/-- **Some turns of the loops of `DeleteTimerQueueEx`**, with the timers they free. -/
inductive Releases : Queue → List Addr → Queue → Prop
  /-- No turn. -/
  | refl (s : Queue) : Releases s [] s
  /-- A turn, and more. -/
  | turn {s s' s'' : Queue} {xs : List Addr} : step s .turn = some s' → Releases s' xs s'' →
      Releases s (freedBy s ++ xs) s''

/-- The queue when `DeleteTimerQueueEx` comes to its loops. -/
def startsMoving (s : Queue) : Queue := { s with control := .moving s.activeHead }

/-- **The section releases each of the timers `X` once**: it comes to its end, no turn having
touched a timer that is no longer there, and has then freed each of them exactly once. -/
def ReleasesOnce (s : Queue) (X : List Addr) : Prop :=
  ∃ freed s', Releases (startsMoving s) freed s' ∧ s'.control = .destroyed ∧
    ∀ a ∈ X, freed.count a = 1

section Release

variable {s s' : Queue} {A I X : List Addr} {a : Addr} {p : Option Addr}

/-- **The second loop frees a list from its head on.** -/
theorem releases_free (hp : Path s.heap.link p X none) (hc : s.control = .freeing p) :
    ∃ s', Releases s X s' ∧ s'.control = .destroyed := by
  -- one turn of the loop for each timer that is left
  induction X generalizing s p with
  | nil =>
    obtain rfl : p = none := hp
    have hstep : step s .turn =
        some { s with inactiveHead := none, control := .destroyed } := by
      simp only [step, hc, freeTurn, Queue.settle]
    have hfreed : freedBy s = [] := by rw [freedBy, hc]
    have hrun := Releases.turn hstep (.refl _)
    rw [hfreed] at hrun
    exact ⟨_, hrun, rfl⟩
  | cons x X ih =>
    have hx : x ∉ X := (List.nodup_cons.mp hp.nodup).1
    obtain ⟨rfl, r, hr, hX⟩ := hp
    obtain ⟨t, ht, rfl⟩ := Heap.link_eq_some hr
    have hstep : step s .turn =
        some { s with heap := Function.update s.heap x none, control := .freeing t.next } := by
      simp only [step, hc, freeTurn, Heap.load_of_eq ht, bind, Except.bind, Queue.settle]
    have hfreed : freedBy s = [x] := by rw [freedBy, hc]
    obtain ⟨s', hrest, hend⟩ := ih (s := { s with
      heap := Function.update s.heap x none, control := .freeing t.next })
      (path_update hX hx none) rfl
    have hrun := Releases.turn hstep hrest
    rw [hfreed] at hrun
    exact ⟨s', hrun, hend⟩

/-- When the first loop is over, the inactive list is freed. -/
theorem releases_move_none (hp : Path s.heap.link s.inactiveHead X none)
    (hc : s.control = .moving none) : ∃ s', Releases s X s' ∧ s'.control = .destroyed := by
  have hstep : step s .turn =
      some { s with activeHead := none, control := .freeing s.inactiveHead } := by
    simp only [step, hc, moveTurn, Queue.settle]
  have hfreed : freedBy s = [] := by rw [freedBy, hc]
  obtain ⟨s', hrest, hend⟩ :=
    releases_free (s := { s with activeHead := none, control := .freeing s.inactiveHead }) hp rfl
  have hrun := Releases.turn hstep hrest
  rw [hfreed] at hrun
  exact ⟨s', hrun, hend⟩

/-- **What is freed is inside**, when no pointer leads out. -/
theorem Releases.mem {S : Set Addr} {freed : List Addr} (hrun : Releases s freed s')
    (hS : Closing S s) : ∀ a ∈ freed, a ∈ S := by
  induction hrun with
  | refl s => simp
  | @turn s s₁ s₂ xs hstep _ ih =>
    intro a ha
    rcases List.mem_append.mp ha with ha | ha
    · have hcontrol := hS.control
      rw [freedBy] at ha
      split at ha
      next node hc =>
        obtain rfl := List.mem_singleton.mp ha
        rw [hc] at hcontrol
        exact hcontrol a rfl
      next => cases ha
    · exact ih (hS.step hstep) a ha

/-! ### The first turn -/

/-- **The first active timer is moved**: it is put on the inactive list, the other active
timers are left as they are, and the loop goes on from the link just written. -/
theorem first_move (hq : Queued s (a :: A) I) {t : QueueTimer} (ht : s.heap a = some t) :
    ∃ h' q nd, step (startsMoving s) .turn =
        some { s with heap := h', inactiveHead := q, control := .moving nd.next } ∧
      h' a = some nd ∧ Path h'.link q (insertAt (s.heap.stops t.expirationTime) a I) none ∧
      Path h'.link t.next A none := by
  obtain ⟨hhead, r, hr, hA⟩ := hq.active
  obtain ⟨u, hu, rfl⟩ := Heap.link_eq_some hr
  obtain rfl := Option.some.inj (ht.symm.trans hu)
  obtain ⟨haA, haI⟩ := hq.head_notMem
  have hdis : I.Disjoint A := fun b hbI hbA => hq.disjoint (List.mem_cons_of_mem a hbA) hbI
  obtain ⟨h', q, hins, hI', hA', hcore⟩ :=
    insert_pair hq.inactive hA hdis ht haI haA hq.inactive_length_le
  obtain ⟨nd, hnd, -⟩ := Heap.exists_of_core hcore ht
  refine ⟨h', q, nd, ?_, hnd, hI', hA'⟩
  simp only [step, startsMoving, hhead, moveTurn, hins, bind, Except.bind, Heap.load_of_eq hnd,
    Queue.settle]

/-- A timer that was appended has no successor. -/
theorem next_eq_none_of_append {h : Heap} {nd : QueueTimer} (hp : Path h.link p (X ++ [a]) none)
    (hnd : h a = some nd) : nd.next = none := by
  obtain ⟨-, r, hr, hnone⟩ := path_append_cons.mp hp
  rw [Heap.link_of_eq hnd] at hr
  exact (Option.some.inj hr).trans hnone

/-! ### When everything is released -/

/-- The only active timer, if there is one, is appended to the inactive list. -/
def OnlyAppended (s : Queue) (A I : List Addr) : Prop :=
  A = [] ∨ ∃ a t, A = [a] ∧ s.heap a = some t ∧ Clear (s.heap.stops t.expirationTime) I

theorem releasesOnce_of_onlyAppended (hq : Queued s A I) (h : OnlyAppended s A I) :
    ReleasesOnce s (A ++ I) := by
  obtain rfl | ⟨a, t, rfl, ht, hclear⟩ := h
  · have hnone : s.activeHead = none := hq.active
    have hc : (startsMoving s).control = .moving none := by rw [startsMoving, hnone]
    obtain ⟨s', hrun, hend⟩ := releases_move_none (s := startsMoving s) hq.inactive hc
    refine ⟨I, s', hrun, hend, fun b hb => ?_⟩
    exact List.count_eq_one_of_mem hq.inactive.nodup hb
  · obtain ⟨h', q, nd, hstep, hnd, hI', -⟩ := first_move hq ht
    rw [insertAt_of_clear hclear] at hI'
    have hnone := next_eq_none_of_append hI' hnd
    rw [hnone] at hstep
    obtain ⟨s', hrun, hend⟩ := releases_move_none
      (s := { s with heap := h', inactiveHead := q, control := .moving none }) hI' rfl
    refine ⟨_, s', .turn hstep hrun, hend, fun b hb => ?_⟩
    have hmem : b ∈ I ++ [a] := by simpa [or_comm] using hb
    have hfreed : freedBy (startsMoving s) = [] := rfl
    rw [hfreed, List.nil_append]
    exact List.count_eq_one_of_mem hI'.nodup hmem

/-- The section goes on after its first turn, freeing nothing in it. -/
theorem Releases.after_first {freed : List Addr} {s₁ : Queue}
    (hrun : Releases (startsMoving s) freed s') (hend : s'.control = .destroyed)
    (hstep : step (startsMoving s) .turn = some s₁) : Releases s₁ freed s' := by
  generalize hs₀ : startsMoving s = s₀ at hrun hstep
  cases hrun with
  | refl =>
    rw [← hs₀] at hend
    cases hend
  | @turn _ s₂ _ xs hstep' hrest =>
    have hfreed : freedBy s₀ = [] := by rw [← hs₀]; rfl
    obtain rfl := Option.some.inj (hstep.symm.trans hstep')
    rw [hfreed, List.nil_append]
    exact hrest

/-- **A timer that no pointer leads to after the first turn is not released.** -/
theorem not_releasesOnce {S : Set Addr} {s₁ : Queue} (hstep : step (startsMoving s) .turn = some s₁)
    (hS : Closing S s₁) (ha : a ∈ X) (haS : a ∉ S) : ¬ ReleasesOnce s X := by
  rintro ⟨freed, s', hrun, hend, hcount⟩
  have hnot : a ∉ freed := fun hmem => haS ((hrun.after_first hend hstep).mem hS a hmem)
  have hzero := List.count_eq_zero.mpr hnot
  have hone := hcount a ha
  omega

/-- **The second active timer is not released**, when the first one was appended: the loop is
over, and the other active timers are left. -/
theorem not_releasesOnce_of_appended {b : Addr} {t : QueueTimer} (hq : Queued s (a :: b :: A) I)
    (ht : s.heap a = some t) (hclear : Clear (s.heap.stops t.expirationTime) I) :
    ¬ReleasesOnce s (a :: b :: A ++ I) := by
  obtain ⟨h', q, nd, hstep, hnd, hI', -⟩ := first_move hq ht
  rw [insertAt_of_clear hclear] at hI'
  have hba : b ≠ a := by
    rintro rfl
    exact hq.head_notMem.1 List.mem_cons_self
  have hbI : b ∉ I := fun hb => hq.disjoint (by simp) hb
  refine not_releasesOnce (S := {x | x ∈ I ++ [a]}) hstep ?_ (a := b) (by simp)
    (by simp [hbI, hba])
  refine ⟨fenced_of_path hI', ?_, fun x hx => ?_, ?_, fun x hx hxS => ?_⟩
  · have hhead : s.activeHead = some a := hq.active.1
    exact hhead ▸ within_some (by simp)
  · exact hI'.reachable_iff.mp ⟨[], hx⟩
  · exact fenced_of_path hI' a (by simp) nd hnd
  · rcases List.mem_append.mp hxS with hxI | hxa
    · exact (hq.live_of_inactive hxI).2 hx
    · obtain rfl := List.mem_singleton.mp hxa
      exact (hq.live_of_active List.mem_cons_self).2 hx

/-- **A timer whose place the first active one has taken is not released**: no pointer leads to
it any more. -/
theorem not_releasesOnce_of_replaced {c d : Addr} {ys zs : List Addr} {t : QueueTimer}
    (hq : Queued s (a :: A) (ys ++ c :: d :: zs)) (ht : s.heap a = some t)
    (heq : insertAt (s.heap.stops t.expirationTime) a (ys ++ c :: d :: zs) = ys ++ c :: a :: zs) :
    ¬ReleasesOnce s (a :: A ++ (ys ++ c :: d :: zs)) := by
  obtain ⟨h', q, nd, hstep, hnd, hI', hA'⟩ := first_move hq ht
  rw [heq] at hI'
  have hdA : d ∉ a :: A := fun hd => hq.disjoint hd (by simp)
  rw [List.mem_cons, not_or] at hdA
  have hdI : d ∉ ys ++ c :: a :: zs := by
    obtain ⟨hbefore, hafter⟩ := hq.inactive.notMem_before
    rw [List.append_cons, List.mem_append, List.mem_cons, not_or, not_or]
    exact ⟨hbefore, hdA.1, hafter⟩
  -- The loops stay on the two lists as they are now, and `d` is on neither.
  refine not_releasesOnce (S := {x | x ∈ A ∨ x ∈ ys ++ c :: a :: zs}) hstep ?_ (a := d) (by simp)
    (by rintro (hx | hx); exacts [hdA.2 hx, hdI hx])
  have hleft : ∀ p, Within {x | x ∈ A} p → Within {x | x ∈ A ∨ x ∈ ys ++ c :: a :: zs} p :=
    fun p hp x hx => .inl (hp x hx)
  have hright : ∀ p, Within {x | x ∈ ys ++ c :: a :: zs} p →
      Within {x | x ∈ A ∨ x ∈ ys ++ c :: a :: zs} p := fun p hp x hx => .inr (hp x hx)
  refine ⟨?_, ?_, fun x hx => .inr (hI'.reachable_iff.mp ⟨[], hx⟩), ?_, ?_⟩
  · rintro b (hb | hb) u hu
    · exact hleft _ (fenced_of_path hA' b hb u hu)
    · exact hright _ (fenced_of_path hI' b hb u hu)
  · have hhead : s.activeHead = some a := hq.active.1
    exact hhead ▸ within_some (.inr (by simp))
  · exact hright _ (fenced_of_path hI' a (by simp) nd hnd)
  · rintro x hx (hxS | hxS)
    · exact (hq.live_of_active (List.mem_cons_of_mem a hxS)).2 hx
    · rcases mem_of_mem_insertAt (heq ▸ hxS) with rfl | hxI
      · exact (hq.live_of_active List.mem_cons_self).2 hx
      · exact (hq.live_of_inactive hxI).2 hx

theorem onlyAppended_of_releasesOnce (hq : Queued s A I) (h : ReleasesOnce s (A ++ I)) :
    OnlyAppended s A I := by
  cases A with
  | nil => exact .inl rfl
  | cons a A =>
    obtain ⟨r, hr⟩ := hq.active.link_eq_some (a := a) List.mem_cons_self
    obtain ⟨t, ht, -⟩ := Heap.link_eq_some hr
    rcases insertAt_cases (s.heap.stops t.expirationTime) a I with
      ⟨hclear, -⟩ | ⟨ys, c, d, zs, rfl, -, heq⟩
    · refine .inr ⟨a, t, ?_, ht, hclear⟩
      cases A with
      | nil => rfl
      | cons b A => exact absurd h (not_releasesOnce_of_appended hq ht hclear)
    · exact absurd h (not_releasesOnce_of_replaced hq ht heq)

/-- **`DeleteTimerQueueEx` releases every timer once exactly when the only active timer, if
there is one, is appended to the inactive list.** With two active timers or more, or with two
neighbours on the inactive list between which the loop of `InsertTimerQueueTimer` stops, the
section ends with a timer that is not freed, or does not end. -/
theorem release_iff (hq : Queued s A I) :
    ReleasesOnce s (A ++ I) ↔
      A = [] ∨ ∃ a t, A = [a] ∧ s.heap a = some t ∧ Clear (s.heap.stops t.expirationTime) I :=
  ⟨onlyAppended_of_releasesOnce hq, releasesOnce_of_onlyAppended hq⟩

end Release

/-! ### Two active timers, and one -/

/-- Two timers created in the order in which they are due are both active, and the second is
not freed. -/
theorem release_createInOrder :
    Queued (final step createTimerQueue createInOrder) [0, 1] [] ∧
      ¬ ReleasesOnce (final step createTimerQueue createInOrder) ([0, 1] ++ []) := by
  have hq : Queued (final step createTimerQueue createInOrder) [0, 1] [] := by
    refine queued_of_run (by simp [createInOrder, DeletesActive]) (by decide +kernel)
      (.inl (by decide +kernel)) ?_ (path_nil.mpr (by decide +kernel))
    exact ⟨by decide +kernel, some 1, by decide +kernel, rfl, none, by decide +kernel, rfl⟩
  refine ⟨hq, fun h => ?_⟩
  obtain hnil | ⟨a, t, hone, -⟩ := onlyAppended_of_releasesOnce hq h
  · cases hnil
  · cases hone

/-- Two timers fire once, and are on the inactive list when a third one is created. -/
def createThird : List Label :=
  [.create 0 midnight 1 0, .create 1 midnight 2 0, .fire ⟨0, 3000, by decide⟩, .turn, .turn, .turn,
    .create 2 midnight 10 0]

/-- All three are freed. -/
theorem release_createThird :
    ReleasesOnce (final step createTimerQueue createThird) ([2] ++ [0, 1]) := by
  have hq : Queued (final step createTimerQueue createThird) [2] [0, 1] :=
    queued_of_run (by simp [createThird, DeletesActive]) (by decide +kernel)
      (.inl (by decide +kernel)) (by decide +kernel) (by decide +kernel)
  obtain ⟨r, hr⟩ := hq.active.link_eq_some (a := 2) (by simp)
  obtain ⟨t, ht, -⟩ := Heap.link_eq_some hr
  have hclear : ∀ t ∈ (final step createTimerQueue createThird).heap 2,
      Clear ((final step createTimerQueue createThird).heap.stops t.expirationTime) [0, 1] := by
    decide +kernel
  exact (release_iff hq).mpr (.inr ⟨2, t, rfl, ht, hclear t ht⟩)

end Timer

end Libuzi
