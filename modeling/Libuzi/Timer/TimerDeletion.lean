import Libuzi.Timer.TimerConservation

/-!
# Deleted timers that are still on a list

`DeleteTimerQueueTimer` takes the timer off the active list and frees it; it does not
look at the inactive list, where a timer that fires once is put when it has fired.
A timer that is deleted there leaves a dangling pointer behind, and the next timer that
fires once walks into it (`Timer.deletion_deleteFired`).

Otherwise deletion is what it should be (`Timer.deletion`): in every run in which no
timer is deleted while it is on the inactive list, a deleted timer is reachable from
neither head, and no later call touches it. That includes `DeleteTimerQueueEx`, which
rearranges the lists in a way that need not leave them lists; for it the invariant is
only that no pointer leads out of what was on the lists when it was called
(`Timer.Fenced`).
-/

namespace Libuzi

open Runs Chain

namespace Timer

/-- **Deleted timers are reachable from neither head.** -/
def Unlinked (s : Queue) : Prop :=
  ∀ a ∈ s.deleted, ¬Reachable s.heap.link s.activeHead a ∧
    ¬Reachable s.heap.link s.inactiveHead a

/-- **No call has touched a deleted timer.** -/
def Unvisited (s : Queue) : Prop := ∀ a ∈ s.deleted, s.control ≠ .faulted (.freed a)

/-- A deletion is of a timer that is not on the inactive list. -/
def DeletesActive (s : Queue) : Label → Prop
  | .delete timer => ¬Reachable s.heap.link s.inactiveHead timer
  | _ => True

/-! ### No pointer leads out -/

section Fence

variable {S : Set Addr} {h h' : Heap} {a b : Addr} {p q : Option Addr} {t : QueueTimer}

/-- The pointer is null or leads into `S`. -/
def Within (S : Set Addr) (p : Option Addr) : Prop := ∀ a, p = some a → a ∈ S

/-- No link leads out of `S`. -/
def Fenced (S : Set Addr) (h : Heap) : Prop := ∀ a ∈ S, ∀ t, h a = some t → Within S t.next

theorem within_none : Within S none := fun _ h => by cases h

theorem within_some (ha : a ∈ S) : Within S (some a) := by
  rintro b ⟨⟩
  exact ha

theorem Fenced.setNext (hS : Fenced S h) (hp : Within S p) : Fenced S (h.setNext a p) := by
  intro b hb u hu
  rcases eq_or_ne b a with rfl | hba
  · rw [Heap.setNext, Heap.modify, Function.update_self, Option.map_eq_some_iff] at hu
    obtain ⟨t, -, rfl⟩ := hu
    exact hp
  · rw [Heap.setNext_of_ne hba] at hu
    exact hS b hb u hu

/-- What is reachable from inside is inside. -/
theorem Fenced.mem_of_reachable (hS : Fenced S h) (hp : Within S p) (hr : Reachable h.link p a) :
    a ∈ S := by
  obtain ⟨xs, hxs⟩ := hr
  induction xs generalizing p with
  | nil => exact hp a hxs
  | cons b xs ih =>
    obtain ⟨rfl, r, hr, hxs⟩ := hxs
    obtain ⟨t, ht, rfl⟩ := Heap.link_eq_some hr
    exact ih (hS b (hp b rfl) t ht) hxs

/-- The links of a list lead along the list. -/
theorem fenced_of_path {xs : List Addr} (hp : Path h.link p xs none) : Fenced {b | b ∈ xs} h := by
  intro b hb t ht c hc
  obtain ⟨ys, hys⟩ := hp.reachable_iff.mpr hb
  refine hp.reachable_iff.mp ⟨ys ++ [b], path_append_cons.mpr ⟨hys, t.next, ?_, hc⟩⟩
  exact Heap.link_of_eq ht

/-- What a computation that touches only `S` may end with. -/
def Inside {β : Type} (S : Set Addr) (P : β → Prop) : Except Fault β → Prop
  | .ok b => P b
  | .error (.freed a) => a ∈ S
  | .error .hung => True

theorem Inside.bind {β γ : Type} {P : β → Prop} {Q : γ → Prop} {x : Except Fault β}
    {f : β → Except Fault γ} (hx : Inside S P x) (hf : ∀ b, P b → Inside S Q (f b)) :
    Inside S Q (x >>= f) := by
  rcases x with (a | _) | b
  · exact hx
  · trivial
  · exact hf b hx

theorem inside_load (ha : a ∈ S) : Inside S (fun t => h a = some t) (h.load a) := by
  rw [Heap.load]
  cases hh : h a with
  | none => exact ha
  | some t => rfl

/-- The loop of `InsertTimerQueueTimer` does not leave `S`. -/
theorem inside_insertLoop (hS : Fenced S h) (e : Timespec) (n : ℕ) (ha : a ∈ S) :
    Inside S (· ∈ S) (insertLoop h e n a) := by
  induction n generalizing a with
  | zero => trivial
  | succ n ih =>
    refine (inside_load ha).bind fun nd hnd => ?_
    have hnext := hS a ha nd hnd
    cases hn : nd.next with
    | none => exact ha
    | some b =>
      have hb : b ∈ S := hnext b hn
      dsimp only
      split
      · refine (inside_load hb).bind fun nn _ => ?_
        split
        · exact ha
        · exact ih hb
      · exact ih hb

/-- `InsertTimerQueueTimer` touches only `S`, and leads no pointer out of it. -/
theorem inside_insertTimerQueueTimer (hS : Fenced S h) (hp : Within S p) (ha : a ∈ S) (n : ℕ) :
    Inside S (fun r => Fenced S r.1 ∧ Within S r.2) (insertTimerQueueTimer n h p a) := by
  refine (inside_load ha).bind fun t _ => ?_
  cases p with
  | none => exact ⟨hS.setNext within_none, within_some ha⟩
  | some first =>
    refine (inside_insertLoop hS _ n (hp first rfl)).bind fun node hnode => ?_
    refine (inside_load hnode).bind fun nd hnd => ?_
    cases hn : nd.next with
    | none => exact ⟨(hS.setNext (within_some ha)).setNext within_none, hp⟩
    | some b =>
      have hb : b ∈ S := hS node hnode nd hnd b hn
      refine (inside_load hb).bind fun nn hnn => ?_
      exact ⟨(hS.setNext (hS b hb nn hnn)).setNext (within_some ha), hp⟩

end Fence

/-! ### Taking the queue apart -/

section Closing

variable {s s' : Queue} {S : Set Addr}

/-- Where `DeleteTimerQueueEx` may stand. -/
def Control.Closes (S : Set Addr) : Control → Prop
  | .moving node | .freeing node => Within S node
  | .destroyed | .faulted .hung => True
  | .faulted (.freed a) => a ∈ S
  | .idle | .firing _ => False

/-- **The queue is being taken apart**, and no pointer leads out of `S`, where no timer is a
deleted one. -/
structure Closing (S : Set Addr) (s : Queue) : Prop where
  /-- No link leads out. -/
  fenced : Fenced S s.heap
  /-- The head of the active list is inside. -/
  active : Within S s.activeHead
  /-- The head of the inactive list is inside. -/
  inactive : Within S s.inactiveHead
  /-- So is the node the loop under way has got to. -/
  control : s.control.Closes S
  /-- No deleted timer is inside. -/
  deleted : ∀ a ∈ s.deleted, a ∉ S

theorem Closing.settle (h : Closing S s) {x : Except Fault Queue}
    (hx : Inside S (Closing S) x) : Closing S (s.settle x) := by
  rcases x with (a | _) | s'
  · exact ⟨h.fenced, h.active, h.inactive, hx, h.deleted⟩
  · exact ⟨h.fenced, h.active, h.inactive, trivial, h.deleted⟩
  · exact hx

theorem Closing.moveTurn (h : Closing S s) {p : Option Addr} (hp : Within S p) :
    Inside S (Closing S) (moveTurn s p) := by
  cases p with
  | none => exact ⟨h.fenced, within_none, h.inactive, h.inactive, h.deleted⟩
  | some node =>
    have hnode : node ∈ S := hp node rfl
    refine (inside_insertTimerQueueTimer h.fenced h.inactive hnode _).bind fun r hr => ?_
    refine (inside_load hnode).bind fun nd hnd => ?_
    exact ⟨hr.1, h.active, hr.2, hr.1 node hnode nd hnd, h.deleted⟩

theorem Closing.freeTurn (h : Closing S s) {p : Option Addr} (hp : Within S p) :
    Inside S (Closing S) (freeTurn s p) := by
  cases p with
  | none => exact ⟨h.fenced, h.active, within_none, trivial, h.deleted⟩
  | some node =>
    have hnode : node ∈ S := hp node rfl
    refine (inside_load hnode).bind fun nd hnd => ?_
    refine ⟨fun b hb u hu => ?_, h.active, h.inactive, h.fenced node hnode nd hnd, h.deleted⟩
    change Function.update s.heap node none b = some u at hu
    rcases eq_or_ne b node with rfl | hbn
    · rw [Function.update_self] at hu
      cases hu
    · rw [Function.update_of_ne hbn] at hu
      exact h.fenced b hb u hu

/-- **Every step of `DeleteTimerQueueEx` keeps inside.** -/
theorem Closing.step (h : Closing S s) {e : Label} (hs : step s e = some s') : Closing S s' := by
  have hidle : s.control ≠ .idle := by
    intro hidle
    have := h.control
    rw [hidle] at this
    exact this
  cases e with
  | create => simp [Timer.step, hidle] at hs
  | change => simp [Timer.step, hidle] at hs
  | fire => simp [Timer.step, hidle] at hs
  | delete => simp [Timer.step, hidle] at hs
  | destroy => simp [Timer.step, hidle] at hs
  | turn =>
    have hcontrol := h.control
    cases hc : s.control with
    | idle => exact absurd hc hidle
    | firing now =>
      rw [hc] at hcontrol
      exact hcontrol.elim
    | moving p =>
      rw [hc] at hcontrol
      simp only [Timer.step, hc] at hs
      obtain rfl := Option.some.inj hs
      exact h.settle (h.moveTurn hcontrol)
    | freeing p =>
      rw [hc] at hcontrol
      simp only [Timer.step, hc] at hs
      obtain rfl := Option.some.inj hs
      exact h.settle (h.freeTurn hcontrol)
    | destroyed => simp [Timer.step, hc] at hs
    | faulted f => simp [Timer.step, hc] at hs

theorem Closing.unlinked (h : Closing S s) : Unlinked s := by
  intro a ha
  refine ⟨fun hr => h.deleted a ha ?_, fun hr => h.deleted a ha ?_⟩
  · exact h.fenced.mem_of_reachable h.active hr
  · exact h.fenced.mem_of_reachable h.inactive hr

theorem Closing.unvisited (h : Closing S s) : Unvisited s := by
  intro a ha hc
  have hcontrol := h.control
  rw [hc] at hcontrol
  exact h.deleted a ha hcontrol

end Closing

/-! ### Runs -/

section Run

variable {s s' : Queue} {A I : List Addr}

theorem Queued.unlinked (hq : Queued s A I) : Unlinked s := by
  intro a ha
  constructor
  · intro hr
    exact (hq.live_of_active (hq.active.reachable_iff.mp hr)).2 ha
  · intro hr
    exact (hq.live_of_inactive (hq.inactive.reachable_iff.mp hr)).2 ha

theorem Calm.unvisited (h : Calm s) : Unvisited s := by
  intro a _ hc
  rcases h with hidle | ⟨now, hfiring⟩
  · rw [hc] at hidle
    cases hidle
  · rw [hc] at hfiring
    cases hfiring

/-- `DeleteTimerQueueEx` begins with sound lists. -/
theorem Queued.closing (hq : Queued s A I) :
    Closing {a | a ∈ A ∨ a ∈ I} { s with control := .moving s.activeHead } := by
  have hactive : Within {a | a ∈ A ∨ a ∈ I} s.activeHead := fun a ha =>
    Or.inl (hq.active.reachable_iff.mp ⟨[], ha⟩)
  have hinactive : Within {a | a ∈ A ∨ a ∈ I} s.inactiveHead := fun a ha =>
    Or.inr (hq.inactive.reachable_iff.mp ⟨[], ha⟩)
  refine ⟨?_, hactive, hinactive, hactive, ?_⟩
  · rintro a (ha | ha) t ht b hb
    · exact Or.inl (fenced_of_path hq.active a ha t ht b hb)
    · exact Or.inr (fenced_of_path hq.inactive a ha t ht b hb)
  · rintro a hdel (ha | ha)
    · exact (hq.live_of_active ha).2 hdel
    · exact (hq.live_of_inactive ha).2 hdel

/-- **The queue is sound, or is being taken apart from a sound state**, in every run that
deletes no timer from the inactive list. -/
theorem sound_or_closing (hs : ReachesIf step DeletesActive createTimerQueue s) :
    (∃ A I, Queued s A I ∧ Calm s) ∨ ∃ S, Closing S s := by
  refine hs.invariant (P := fun s => (∃ A I, Queued s A I ∧ Calm s) ∨ ∃ S, Closing S s)
    (Or.inl ⟨[], [], queued_createTimerQueue, Or.inl rfl⟩) ?_
  rintro t t' e (⟨A, I, hq, hcalm⟩ | ⟨S, hS⟩) hok hstep
  · by_cases hdestroy : e = .destroy
    · subst hdestroy
      simp only [step] at hstep
      split at hstep
      · obtain rfl := Option.some.inj hstep
        exact Or.inr ⟨_, hq.closing⟩
      · cases hstep
    · have hdelete : ∀ timer, e = .delete timer → timer ∉ I := by
        rintro timer rfl htimer
        exact hok (hq.inactive.reachable_iff.mpr htimer)
      obtain ⟨A', I', hq', he⟩ := step_effect hq hcalm hdestroy hdelete hstep
      exact Or.inl ⟨A', I', hq', he.calm⟩
  · exact Or.inr ⟨S, hS.step hstep⟩

/-- After a run that deletes no timer from the inactive list, and is not in the middle of
taking the queue apart, the two lists are sound. -/
theorem queued_of_run {es : List Label} (hes : ∀ e ∈ es, ∀ s, DeletesActive s e)
    (hrun : (run step createTimerQueue es).isSome)
    (hcalm : Calm (final step createTimerQueue es))
    (hA : Path (final step createTimerQueue es).heap.link
      (final step createTimerQueue es).activeHead A none)
    (hI : Path (final step createTimerQueue es).heap.link
      (final step createTimerQueue es).inactiveHead I none) :
    Queued (final step createTimerQueue es) A I := by
  have hreach : ReachesIf step DeletesActive createTimerQueue (final step createTimerQueue es) :=
    reachesIf_of_run es (allMeet_of_forall hes) (run_eq_final hrun)
  obtain ⟨A', I', hq, -⟩ | ⟨S, hS⟩ := sound_or_closing hreach
  · rwa [hA.unique hq.active, hI.unique hq.inactive]
  · have hcontrol := hS.control
    rcases hcalm with hidle | ⟨now, hfiring⟩
    · rw [hidle] at hcontrol
      exact hcontrol.elim
    · rw [hfiring] at hcontrol
      exact hcontrol.elim

/-- A timer deleted from the inactive list stays reachable along it. -/
theorem reachable_of_delete_inactive (hq : Queued s A I) {timer : Addr} (hI : timer ∈ I)
    (hs : step s (.delete timer) = some s') :
    Reachable s'.heap.link s'.inactiveHead timer := by
  obtain ⟨h', p', hrem, -, hinactive, -⟩ :=
    remove_pair timer hq.active hq.inactive hq.disjoint hq.active_length_le
  simp only [step, deleteTimerQueueTimer_of_remove hrem] at hs
  split at hs
  · obtain rfl := Option.some.inj hs
    obtain ⟨ys, zs, rfl⟩ := List.append_of_mem hI
    refine ⟨ys, (path_append_cons.mp hinactive).1.congr fun a ha => ?_⟩
    have hat : a ≠ timer := ne_of_mem_of_not_mem ha hq.inactive.notMem.1
    change Heap.link (Function.update h' timer none) a = h'.link a
    rw [Heap.link, Function.update_of_ne hat, Heap.link]
  · cases hs

/-- **Deletion unlinks exactly the timers that are not on the inactive list.** In every run
in which no timer is deleted while it is on the inactive list, deleted timers are
reachable from neither head and no call touches one; and a further deletion leaves its
timer unreachable if and only if the timer is not on the inactive list. -/
theorem deletion (hs : ReachesIf step DeletesActive createTimerQueue s) :
    Unlinked s ∧ Unvisited s ∧
      ∀ timer s', step s (.delete timer) = some s' →
        (¬Reachable s'.heap.link s'.activeHead timer ∧
            ¬Reachable s'.heap.link s'.inactiveHead timer ↔
          ¬Reachable s.heap.link s.inactiveHead timer) := by
  rcases sound_or_closing hs with ⟨A, I, hq, hcalm⟩ | ⟨S, hS⟩
  · refine ⟨hq.unlinked, hcalm.unvisited, fun timer s' hstep => ?_⟩
    rw [hq.inactive.reachable_iff]
    constructor
    · intro hgone hI
      exact hgone.2 (reachable_of_delete_inactive hq hI hstep)
    · intro hI
      obtain ⟨A', I', hq', he⟩ := step_effect hq hcalm (e := .delete timer) nofun
        (fun _ h => Label.delete.inj h ▸ hI) hstep
      cases he
      exact hq'.unlinked timer List.mem_cons_self
  · refine ⟨hS.unlinked, hS.unvisited, fun timer s' hstep => ?_⟩
    -- nothing is deleted from a queue that is being taken apart
    have hidle : s.control = .idle := by
      simp only [step] at hstep
      split at hstep
      next hok => exact hok.1
      next => cases hstep
    have hcontrol := hS.control
    rw [hidle] at hcontrol
    exact hcontrol.elim

end Run

/-- A timer fires once and is deleted; then another one fires once. -/
def deleteFired : List Label :=
  [.create 0 midnight 0 0, .fire midnight, .turn, .turn, .delete 0,
    .create 1 midnight 0 0, .fire midnight, .turn]

/-- The second timer is put on the inactive list after the first one, which has been
freed. -/
theorem deletion_deleteFired :
    ¬∀ s, ReachesIf step (fun _ e => e ≠ .destroy) createTimerQueue s →
      Unlinked s ∧ Unvisited s := by
  intro hall
  have hlabels : ∀ e ∈ deleteFired, e ≠ .destroy := by decide
  obtain ⟨-, hunvisited⟩ := hall (final step createTimerQueue deleteFired)
    (reachesIf_of_run deleteFired (allMeet_of_forall fun e he _ => hlabels e he)
      (run_eq_final (by decide +kernel)))
  exact hunvisited 0 (by decide +kernel) (by decide +kernel)

/-- The step deletes no timer that is on the inactive list, which is the one given with it. -/
def DeletesOff (s : Queue) (x : List Addr × Label) : Prop :=
  Path s.heap.link s.inactiveHead x.1 none ∧ ∀ timer ∈ x.1, x.2 ≠ .delete timer

instance (s : Queue) (x : List Addr × Label) : Decidable (DeletesOff s x) :=
  inferInstanceAs (Decidable (_ ∧ _))

theorem DeletesOff.deletesActive {s : Queue} {x : List Addr × Label} (h : DeletesOff s x) :
    DeletesActive s x.2 := by
  obtain ⟨I, e⟩ := x
  obtain ⟨hI, hoff⟩ := h
  cases e with
  | delete timer =>
    intro hr
    exact hoff timer (hI.reachable_iff.mp hr) rfl
  | _ => trivial

/-- A timer fires once. Of three others the second, which is periodic, is deleted, and the other
two fire; with each step the inactive list that it finds. -/
def deleteBetween : List (List Addr × Label) :=
  [([], .create 0 midnight 1 0), ([], .fire ⟨0, 2000, by decide⟩), ([], .turn), ([0], .turn),
    ([0], .create 1 midnight 10 0), ([0], .create 2 midnight 20 5), ([0], .create 3 midnight 30 0),
    ([0], .delete 2), ([0], .fire ⟨0, 40000, by decide⟩), ([0], .turn), ([0, 1], .turn),
    ([0, 1, 3], .turn)]

theorem deletion_deleteBetween :
    ∃ s, run step createTimerQueue (deleteBetween.map Prod.snd) = some s ∧ s.deleted = [2] ∧
      s.fired = [3, 1, 0] ∧ Unlinked s ∧ Unvisited s := by
  have hrun : run (checkedStep step DeletesOff Prod.snd) createTimerQueue deleteBetween =
      some (final _ _ _) := run_eq_final (by decide +kernel)
  obtain ⟨hunlinked, hunvisited, -⟩ :=
    deletion (reachesIf_of_checked (fun _ _ h => h.deletesActive) deleteBetween hrun)
  exact ⟨_, run_of_checked deleteBetween hrun, by decide +kernel, by decide +kernel, hunlinked,
    hunvisited⟩

end Timer

end Libuzi
