import Libuzi.Timer.TimerSteps

/-!
# Timers that are lost

Without deletions every timer of a queue should stay on one of its two lists. The
invariant is that the lists hold exactly the timers created
(`Timer.complete_of_gentle`); what can break it is `InsertTimerQueueTimer`, which puts
the new timer in the place of the one it should have gone before. So a timer is lost
exactly when an insertion does not go to the end of its list, and a step keeps all
timers if and only if it appends (`Timer.Appends`, `Timer.conservation`).

Three calls of `CreateTimerQueueTimer` are enough to lose a timer
(`Timer.conservation_createBetween`).
-/

namespace Libuzi

open Runs Chain

namespace Timer

/-- **Every timer created is on exactly one of the lists, once.** -/
def Conserved (s : Queue) : Prop :=
  ∃ A I, Path s.heap.link s.activeHead A none ∧ Path s.heap.link s.inactiveHead I none ∧
    ∀ t ∈ s.allocated, A.count t + I.count t = 1

/-- The step deletes nothing. -/
def Label.keeps : Label → Bool
  | .delete _ | .destroy => false
  | _ => true

/-- **The insertion that a step makes goes to the end of its list**: there are no two
neighbours `a`, `b` on the list such that the timer inserted compares as later than `a`
and as earlier than `b`. -/
def Appends (s : Queue) : Label → Prop
  | .create _ tval dueTime _ =>
    ∀ A, Path s.heap.link s.activeHead A none →
      Clear (s.heap.stops (timespecAddMs (timespecGettimeofday tval) dueTime)) A
  | .change timer tval dueTime _ =>
    ∀ A, Path s.heap.link s.activeHead A none →
      Clear (s.heap.stops (timespecAddMs (timespecGettimeofday tval) dueTime)) (A.erase timer)
  | .turn =>
    ∀ now a t A I, s.control = .firing now → Path s.heap.link s.activeHead (a :: A) none →
      Path s.heap.link s.inactiveHead I none → s.heap a = some t →
      0 ≤ timespecCompare now t.expirationTime →
      if t.period = 0 then Clear (s.heap.stops t.expirationTime) I
      else Clear (s.heap.stops (timespecAddMs t.expirationTime t.period)) A
  | _ => True

/-- The steps that neither delete nor insert before the end of a list. -/
def Gentle (s : Queue) (e : Label) : Prop := e.keeps = true ∧ Appends s e

/-! ### Counting -/

section Counting

variable {s s' : Queue} {A I A' I' : List Addr}

theorem length_insertAt_of_clear {α : Type*} {stop : α → α → Bool} {t : α} {xs : List α} :
    Clear stop xs ↔ xs.length < (insertAt stop t xs).length := by
  rcases insertAt_cases stop t xs with ⟨hclear, heq⟩ | ⟨ys, a, b, zs, rfl, hab, heq⟩
  · refine iff_of_true hclear ?_
    rw [heq, List.length_append]
    exact Nat.lt_succ_self _
  · refine iff_of_false (fun hclear => ?_) ?_
    · rw [hclear ys a b zs rfl] at hab
      cases hab
    · rw [heq]
      simp

/-- Lists that hold exactly the timers created hold each of them once. -/
theorem Queued.conserved (hq : Queued s A I) (hperm : (A ++ I).Perm s.allocated) :
    Conserved s := by
  refine ⟨A, I, hq.active, hq.inactive, fun t ht => ?_⟩
  rw [← List.count_append, hperm.count_eq]
  exact List.count_eq_one_of_mem hq.nodup ht

/-- Lists that hold every timer created are at least as many. -/
theorem Queued.length_le_of_conserved (hq : Queued s A I) (hc : Conserved s) :
    s.allocated.length ≤ A.length + I.length := by
  obtain ⟨B, J, hB, hJ, hcount⟩ := hc
  obtain rfl := hB.unique hq.active
  obtain rfl := hJ.unique hq.inactive
  rw [← List.length_append]
  refine (hq.nodup.subperm fun t ht => ?_).length_le
  refine List.count_pos_iff.mp ?_
  rw [List.count_append, hcount t ht]
  exact Nat.one_pos

/-- Taking a timer off the list it is on, and appending it to the first. -/
theorem perm_erase_append {t : Addr} (hdis : A.Disjoint I) (ht : t ∈ A ++ I) :
    (A.erase t ++ [t] ++ I.erase t).Perm (A ++ I) := by
  have herase : A.erase t ++ I.erase t = (A ++ I).erase t := by
    rw [List.erase_append]
    split
    next htA => rw [List.erase_of_not_mem fun htI => hdis htA htI]
    next htA => rw [List.erase_of_not_mem htA]
  have hfront : (A.erase t ++ [t] ++ I.erase t).Perm (t :: (A.erase t ++ I.erase t)) := by
    rw [List.append_assoc]
    exact List.perm_middle
  rw [herase] at hfront
  exact hfront.trans (List.perm_cons_erase ht).symm

end Counting

/-! ### One step, and a run -/

section Run

variable {s s' : Queue} {A I A' I' : List Addr} {e : Label}

/-- **A step that appends keeps the lists complete.** -/
theorem Effect.perm_of_appends (hq : Queued s A I) (he : Effect s A I e s' A' I')
    (hkeeps : e.keeps = true) (happ : Appends s e) (hperm : (A ++ I).Perm s.allocated) :
    (A' ++ I').Perm s'.allocated := by
  cases he with
  | create timer tval dueTime period h' p hidle hnew hcore =>
    rw [insertAt_of_clear (happ A hq.active), List.append_assoc]
    exact List.perm_middle.trans (hperm.cons timer)
  | change timer tval dueTime period t h' p q hidle hlive ht hcore =>
    rw [insertAt_of_clear (happ A hq.active)]
    exact (perm_erase_append hq.disjoint (hperm.mem_iff.mpr hlive.1)).trans hperm
  | fire tval hidle => exact hperm
  | rearm a A' now t h' p hfiring hA ht hexpired hperiod hcore =>
    subst hA
    have hclear := happ now a t A' I hfiring hq.active hq.inactive ht hexpired
    rw [if_neg hperiod] at hclear
    rw [insertAt_of_clear hclear, List.append_assoc]
    exact List.perm_middle.trans hperm
  | spend a A' now t h' p q hfiring hA ht hexpired hperiod hcore =>
    subst hA
    have hclear := happ now a t A' I hfiring hq.active hq.inactive ht hexpired
    rw [if_pos hperiod] at hclear
    rw [insertAt_of_clear hclear, ← List.append_assoc]
    exact (List.perm_append_singleton a (A' ++ I)).trans hperm
  | finish now hfiring hend => exact hperm
  | delete => cases hkeeps

/-- **A step that keeps all timers appends**: otherwise the lists do not get longer when
they should. -/
theorem Effect.appends_of_conserved (hq : Queued s A I) (hq' : Queued s' A' I')
    (he : Effect s A I e s' A' I') (hperm : (A ++ I).Perm s.allocated) (hc : Conserved s') :
    Appends s e := by
  have hlen := hq'.length_le_of_conserved hc
  have hlen₀ := hperm.length_eq
  rw [List.length_append] at hlen₀
  cases he with
  | create timer tval dueTime period h' p hidle hnew hcore =>
    intro B hB
    obtain rfl := hB.unique hq.active
    refine (length_insertAt_of_clear (t := timer)).mpr ?_
    change s.allocated.length + 1 ≤ _ at hlen
    omega
  | change timer tval dueTime period t h' p q hidle hlive ht hcore =>
    intro B hB
    obtain rfl := hB.unique hq.active
    refine (length_insertAt_of_clear (t := timer)).mpr ?_
    change s.allocated.length ≤ _ at hlen
    have hone := (perm_erase_append hq.disjoint (hperm.mem_iff.mpr hlive.1)).length_eq
    simp only [List.length_append, List.length_singleton] at hone
    omega
  | fire tval hidle => trivial
  | rearm a A' now t h' p hfiring hA ht hexpired hperiod hcore =>
    intro now' b u B J _ hB _ hu _
    obtain ⟨rfl, rfl⟩ := List.cons.inj ((hB.unique hq.active).trans hA)
    obtain rfl := Option.some.inj (ht.symm.trans hu)
    rw [if_neg hperiod]
    refine (length_insertAt_of_clear (t := b)).mpr ?_
    change s.allocated.length ≤ _ at hlen
    rw [hA, List.length_cons] at hlen₀
    omega
  | spend a A' now t h' p q hfiring hA ht hexpired hperiod hcore =>
    intro now' b u B J _ hB hJ hu _
    obtain ⟨rfl, rfl⟩ := List.cons.inj ((hB.unique hq.active).trans hA)
    obtain rfl := Option.some.inj (ht.symm.trans hu)
    obtain rfl := hJ.unique hq.inactive
    rw [if_pos hperiod]
    refine (length_insertAt_of_clear (t := b)).mpr ?_
    change s.allocated.length ≤ _ at hlen
    rw [hA, List.length_cons] at hlen₀
    omega
  | finish now hfiring hend =>
    intro now' b u B J hfiring' hB _ hu hexpired
    obtain rfl : now = now' := by
      rw [hfiring] at hfiring'
      exact Control.firing.inj hfiring'
    have := hend b B u (hq.active.unique hB) hu
    omega
  | delete => trivial

theorem ne_destroy_of_keeps (h : e.keeps = true) : e ≠ .destroy := by
  rintro rfl
  cases h

theorem ne_delete_of_keeps (h : e.keeps = true) (timer : Addr) : e ≠ .delete timer := by
  rintro rfl
  cases h

/-- **The lists are complete along every run whose steps all append.** -/
theorem complete_of_gentle (hs : ReachesIf step Gentle createTimerQueue s) :
    ∃ A I, Queued s A I ∧ Calm s ∧ (A ++ I).Perm s.allocated := by
  refine hs.invariant (P := fun s => ∃ A I, Queued s A I ∧ Calm s ∧ (A ++ I).Perm s.allocated)
    ⟨[], [], queued_createTimerQueue, Or.inl rfl, List.Perm.refl _⟩ ?_
  rintro t t' e ⟨A, I, hq, hcalm, hperm⟩ ⟨hkeeps, happ⟩ hstep
  obtain ⟨A', I', hq', he⟩ := step_effect hq hcalm (ne_destroy_of_keeps hkeeps)
    (fun timer h => absurd h (ne_delete_of_keeps hkeeps timer)) hstep
  exact ⟨A', I', hq', he.calm, he.perm_of_appends hq hkeeps happ hperm⟩

/-- **Timers are conserved exactly as long as insertions append.** In every run without
deletions whose insertions all go to the end of their list, every timer created is on
exactly one list, once; and the next step of such a run keeps it so if and only if it
appends too. -/
theorem conservation (hs : ReachesIf step Gentle createTimerQueue s) :
    Conserved s ∧
      ∀ e s', e.keeps = true → step s e = some s' → (Conserved s' ↔ Appends s e) := by
  obtain ⟨A, I, hq, hcalm, hperm⟩ := complete_of_gentle hs
  refine ⟨hq.conserved hperm, fun e s' hkeeps hstep => ?_⟩
  obtain ⟨A', I', hq', he⟩ := step_effect hq hcalm (ne_destroy_of_keeps hkeeps)
    (fun timer h => absurd h (ne_delete_of_keeps hkeeps timer)) hstep
  constructor
  · exact he.appends_of_conserved hq hq' hperm
  · intro happ
    exact hq'.conserved (he.perm_of_appends hq hkeeps happ hperm)

end Run

/-! ### A timer lost, and a timer kept -/

/-- Midnight, by the clock of the examples. -/
def midnight : Timeval := ⟨0, 0, by decide⟩

/-- Timers due after `10`, `30` and `20` ms: the third belongs between the other two. -/
def createBetween : List Label :=
  [.create 0 midnight 10 0, .create 1 midnight 30 0, .create 2 midnight 20 0]

/-- The second timer is then on neither list. -/
theorem conservation_createBetween :
    ¬∀ s, ReachesIf step (fun _ e => e.keeps = true) createTimerQueue s → Conserved s := by
  intro hall
  have hkeeps : ∀ e ∈ createBetween, e.keeps = true := by decide
  obtain ⟨A, I, hA, hI, hcount⟩ := hall (final step createTimerQueue createBetween)
    (reachesIf_of_run createBetween (allMeet_of_forall fun e he _ => hkeeps e he)
      (run_eq_final (by decide +kernel)))
  have hA' : Path (final step createTimerQueue createBetween).heap.link
      (final step createTimerQueue createBetween).activeHead [0, 2] none :=
    ⟨by decide +kernel, some 2, by decide +kernel, rfl, none, by decide +kernel, rfl⟩
  have hI' : Path (final step createTimerQueue createBetween).heap.link
      (final step createTimerQueue createBetween).inactiveHead [] none :=
    path_nil.mpr (by decide +kernel)
  obtain rfl := hA.unique hA'
  obtain rfl := hI.unique hI'
  exact absurd (hcount 1 (by decide +kernel)) (by decide)

/-- Two timers created in the order in which they are due. -/
def createInOrder : List Label := [.create 0 midnight 10 0, .create 1 midnight 30 0]

theorem conservation_createInOrder :
    Conserved (final step createTimerQueue createInOrder) := by
  refine (conservation (reachesIf_of_run createInOrder ⟨⟨rfl, ?_⟩, ?_⟩
    (run_eq_final (by decide +kernel)))).1
  · intro A hA
    obtain rfl : [] = A := Path.unique (path_nil.mpr rfl) hA
    exact clear_of_length_le_one (Nat.zero_le 1)
  · intro s hs
    obtain rfl : final step createTimerQueue [.create 0 midnight 10 0] = s :=
      Option.some.inj ((run_eq_final (by decide +kernel)).symm.trans
        (by rw [run_cons, Option.mem_def.mp hs]; rfl))
    refine ⟨⟨rfl, fun A hA => ?_⟩, fun _ _ => trivial⟩
    have hA' : Path (final step createTimerQueue [.create 0 midnight 10 0]).heap.link
        (final step createTimerQueue [.create 0 midnight 10 0]).activeHead [0] none :=
      ⟨by decide +kernel, none, by decide +kernel, rfl⟩
    obtain rfl := hA'.unique hA
    exact clear_of_length_le_one (Nat.le_refl 1)

end Timer

end Libuzi
