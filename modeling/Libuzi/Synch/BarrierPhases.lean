import Libuzi.Synch.BarrierProtocol

/-!
# The phases of a synchronization barrier

The invariant of the barrier, at phase `g`, the number of phases that have been
closed by a switch of the events. Between two switches the barrier is in one of two
regimes.

* `Barrier.Gathering`: the threads of phase `g` come in one by one, while threads
  of phase `g - 1` may still be on their way out. The counter is the number of
  threads that have not yet come.
* `Barrier.Switching`: all have come, the last one is between its decrement and its
  switch, and everybody else waits for the event of phase `g`.

The events alternate (`Barrier.event`), so the event of phase `g + 1` is the event of
phase `g - 1`, which slow threads of that phase may still be waiting for. What
excludes the ABA is that the last thread of phase `g` resets that event only in the
second regime, when no thread of phase `g - 1` is left.

Beside the regimes there is the account of the winners: each phase that has been
closed has exactly one thread whose call has returned `TRUE` or is about to.

`Barrier.Gathering.step` and `Barrier.Switching.step` say what one step does to a
phase, and `Barrier.phased_of_reaches` is the invariant in every reachable state.
-/

namespace Libuzi

open Runs Threads

namespace Barrier

/-! ### The two events -/

/-- The event of phase `g`, of the two that alternate. -/
def event (h₀ h₁ g : ℕ) : ℕ := if g % 2 = 0 then h₀ else h₁

section Event

variable {h₀ h₁ : ℕ}

theorem event_ne (hne : h₀ ≠ h₁) (g : ℕ) : event h₀ h₁ g ≠ event h₀ h₁ (g + 1) := by
  unfold event
  rcases Nat.mod_two_eq_zero_or_one g with hg | hg
  · rw [if_pos hg, if_neg (by omega)]
    exact hne
  · rw [if_neg (by omega), if_pos (by omega)]
    exact hne.symm

theorem event_add_two (g : ℕ) : event h₀ h₁ (g + 1 + 1) = event h₀ h₁ g := by
  unfold event
  rw [show (g + 1 + 1) % 2 = g % 2 by omega]

theorem event_ne_zero (h : h₀ ≠ 0) (h' : h₁ ≠ 0) (g : ℕ) : event h₀ h₁ g ≠ 0 := by
  unfold event
  split
  · exact h
  · exact h'

end Event

/-! ### The accounts of a thread -/

/-- The thread waits for its phase to be closed. -/
def Stage.isWaiting : Stage → Bool
  | .waiting _ => true
  | _ => false

/-- The thread has closed its phase, and is about to return `TRUE`. -/
def Stage.isSignalling : Stage → Bool
  | .signalling _ => true
  | _ => false

/-- The thread has come to phase `g`, and waits for the others. -/
def View.Arrived (g : ℕ) (v : View) : Prop := v.stage.isWaiting = true ∧ v.results.length = g

instance (g : ℕ) (v : View) : Decidable (v.Arrived g) :=
  inferInstanceAs (Decidable (v.stage.isWaiting = true ∧ v.results.length = g))

/-- The thread is the winner of phase `k`: its call has returned `TRUE`, or is about
to. -/
def View.Wins (k : ℕ) (v : View) : Prop :=
  v.results[k]? = some true ∨ v.stage.isSignalling = true ∧ v.results.length = k

instance (k : ℕ) (v : View) : Decidable (v.Wins k) :=
  inferInstanceAs
    (Decidable (v.results[k]? = some true ∨ v.stage.isSignalling = true ∧ v.results.length = k))

/-- One for a thread that has come to phase `g`. -/
def arrivedWeight (g : ℕ) (l : Local) : ℤ := if l.view.Arrived g then 1 else 0

/-- One for the winner of phase `k`. -/
def winWeight (k : ℕ) (l : Local) : ℤ := if l.view.Wins k then 1 else 0

theorem arrivedWeight_of_not {g : ℕ} {l : Local} (h : ¬l.view.Arrived g) :
    arrivedWeight g l = 0 :=
  if_neg h

theorem arrivedWeight_le_one (g : ℕ) (l : Local) : arrivedWeight g l ≤ 1 := by
  unfold arrivedWeight
  split <;> decide

theorem arrivedWeight_nonneg (g : ℕ) (l : Local) : 0 ≤ arrivedWeight g l := by
  unfold arrivedWeight
  split <;> decide

theorem winWeight_of {k : ℕ} {l : Local} (h : l.view.Wins k) : winWeight k l = 1 := if_pos h

theorem winWeight_of_not {k : ℕ} {l : Local} (h : ¬l.view.Wins k) : winWeight k l = 0 := if_neg h

theorem winWeight_nonneg (k : ℕ) (l : Local) : 0 ≤ winWeight k l := by
  unfold winWeight
  split <;> decide

theorem winWeight_congr {k : ℕ} {l l' : Local} (h : l'.view.Wins k ↔ l.view.Wins k) :
    winWeight k l' = winWeight k l := by
  unfold winWeight
  simp only [h]

/-- What a list of results says after one more. -/
theorem getElem?_concat_eq_true {r : List Bool} {b : Bool} {k : ℕ} :
    (r ++ [b])[k]? = some true ↔ r[k]? = some true ∨ r.length = k ∧ b = true := by
  rcases lt_trichotomy k r.length with hk | rfl | hk
  · rw [List.getElem?_append_left hk]
    simp [hk.ne']
  · simp
  · rw [List.getElem?_eq_none (by simpa using Nat.succ_le_of_lt hk), List.getElem?_eq_none hk.le]
    simp [hk.ne]

/-- The winner of a phase is made by the switch, and by nothing else. -/
theorem Protocol.wins_iff {s s' : Shared} {r : List Bool} {st : Stage} {v' : View}
    (hp : Protocol s r st s' v') (hst : ∀ hc hd, st ≠ .switching hc hd) (k : ℕ) :
    v'.Wins k ↔ (⟨st, r⟩ : View).Wins k := by
  cases hp with
  | switch hc hd => exact absurd rfl (hst hc hd)
  | leaveSpin | leaveWait | signal =>
    simp [View.Wins, Stage.isSignalling, getElem?_concat_eq_true]
  | _ => simp [View.Wins, Stage.isSignalling]

/-- The deletion goes on, once it is past its loop. -/
theorem Protocol.gone_of_gone {s s' : Shared} {r : List Bool} {v' : View}
    (hp : Protocol s r .gone s' v') : v'.stage = .gone := by
  cases hp
  rfl

/-- The number of threads is not written before that. -/
theorem Protocol.reserved2_eq {s s' : Shared} {r : List Bool} {st : Stage} {v' : View}
    (hp : Protocol s r st s' v') (hst : st ≠ .gone) : s'.reserved2 = s.reserved2 := by
  cases hp with
  | destroy => exact absurd rfl hst
  | _ => rfl

/-! ### The two regimes -/

/-- Where a thread may stand while phase `g` gathers. -/
def View.Gathers (h₀ h₁ g : ℕ) (v : View) : Prop :=
  match v.stage with
  | .out => v.results.length = g
  | .copied hc => v.results.length = g ∧ hc = event h₀ h₁ g
  | .ready hc hd => v.results.length = g ∧ hc = event h₀ h₁ g ∧ hd = event h₀ h₁ (g + 1)
  | .waiting hc =>
    v.results.length = g ∧ hc = event h₀ h₁ g ∨
      v.results.length + 1 = g ∧ hc = event h₀ h₁ (g + 1)
  | .signalling hc => v.results.length + 1 = g ∧ hc = event h₀ h₁ (g + 1)
  | _ => False

/-- Where the last thread of phase `g`, of `n`, stands before it switches the events,
and what it has done by then. -/
def View.Switches (h₀ h₁ g : ℕ) (n : ℤ) (s : Shared) (v : View) : Prop :=
  v.results.length = g ∧
  match v.stage with
  | .resetting hc hd => hc = event h₀ h₁ g ∧ hd = event h₀ h₁ (g + 1)
  | .loading hc hd =>
    hc = event h₀ h₁ g ∧ hd = event h₀ h₁ (g + 1) ∧ s.signalled (event h₀ h₁ (g + 1)) = false
  | .restoring hc hd v =>
    hc = event h₀ h₁ g ∧ hd = event h₀ h₁ (g + 1) ∧
      s.signalled (event h₀ h₁ (g + 1)) = false ∧ v = n
  | .parking hc hd =>
    hc = event h₀ h₁ g ∧ hd = event h₀ h₁ (g + 1) ∧
      s.signalled (event h₀ h₁ (g + 1)) = false ∧ s.reserved1 = n
  | .switching hc hd =>
    hc = event h₀ h₁ g ∧ hd = event h₀ h₁ (g + 1) ∧
      s.signalled (event h₀ h₁ (g + 1)) = false ∧ s.reserved1 = n ∧
      s.dormant = event h₀ h₁ g
  | _ => False

section Invariant

variable {ι : Type*} [Fintype ι]

/-- **Phase `g` gathers.** -/
structure Gathering (h₀ h₁ g : ℕ) (c : Config ι Shared Local) : Prop where
  /-- Every thread is on its way into phase `g`, or on its way out of the last one. -/
  places : ∀ i, (c.locals i).view.Gathers h₀ h₁ g
  /-- The counter is the number of threads that have not yet come. -/
  count : c.shared.reserved1 = Fintype.card ι - total (arrivedWeight g) c.locals
  /-- The current event is that of phase `g`. -/
  current : c.shared.current = event h₀ h₁ g
  /-- The dormant event is the other one. -/
  dormant : c.shared.dormant = event h₀ h₁ (g + 1)
  /-- Nobody has signalled the event of phase `g`. -/
  pending : c.shared.signalled (event h₀ h₁ g) = false
  /-- The event of the phase before is signalled, or is about to be. -/
  released : g = 0 ∨ c.shared.signalled (event h₀ h₁ (g + 1)) = true ∨
    ∃ i, (c.locals i).view.stage.isSignalling = true

/-- **Phase `g` is complete, and thread `w` is switching the events.** -/
structure Switching (h₀ h₁ g : ℕ) (w : ι) (c : Config ι Shared Local) : Prop where
  /-- Everybody else waits for the event of phase `g`. -/
  others : ∀ i, i ≠ w →
    (c.locals i).view.stage = .waiting (event h₀ h₁ g) ∧ (c.locals i).view.results.length = g
  /-- How far the last thread has come. -/
  winner : (c.locals w).view.Switches h₀ h₁ g (Fintype.card ι) c.shared
  /-- The current event is that of phase `g`. -/
  current : c.shared.current = event h₀ h₁ g
  /-- Nobody has signalled the event of phase `g`. -/
  pending : c.shared.signalled (event h₀ h₁ g) = false

/-- **The invariant of a barrier that is not being taken apart.** -/
structure Phase (h₀ h₁ g : ℕ) (c : Config ι Shared Local) : Prop where
  /-- The number of threads. -/
  total : c.shared.reserved2 = Fintype.card ι
  /-- Every phase that is closed has one winner, the others none. -/
  wins : ∀ k, Threads.total (winWeight k) c.locals = if k < g then 1 else 0
  /-- The phase gathers, or is being closed. -/
  regime : Gathering h₀ h₁ g c ∨ ∃ w, Switching h₀ h₁ g w c

/-- The barrier is in some phase, or is being taken apart. -/
def Phased (h₀ h₁ : ℕ) (c : Config ι Shared Local) : Prop :=
  (∃ i, (c.locals i).pc.stage = .gone) ∨ ∃ g, Phase h₀ h₁ g c

/-! ### What one step does to the phase -/

section Step

variable {h₀ h₁ g : ℕ} {c : Config ι Shared Local} {i w : ι} {s : Shared} {l : Local}

/-- The counter, as a count of the threads that are missing. -/
theorem Gathering.missing (h : Gathering h₀ h₁ g c) :
    c.shared.reserved1 = total (fun l => 1 - arrivedWeight g l) c.locals := by
  rw [h.count]
  simp [total, Finset.sum_sub_distrib]

/-- While a thread has not come, the counter is positive. -/
theorem Gathering.reserved1_pos (h : Gathering h₀ h₁ g c)
    (hi : ¬(c.locals i).view.Arrived g) : 0 < c.shared.reserved1 := by
  have hone := le_total (f := c.locals) (w := fun l => 1 - arrivedWeight g l)
    (fun l => sub_nonneg.mpr (arrivedWeight_le_one g l)) i
  rw [← h.missing, arrivedWeight_of_not hi] at hone
  omega

/-- When the counter is about to reach zero, everybody else has come. -/
theorem Gathering.arrived_of_last (h : Gathering h₀ h₁ g c) (hr : c.shared.reserved1 - 1 = 0)
    (hi : ¬(c.locals i).view.Arrived g) {j : ι} (hj : j ≠ i) : (c.locals j).view.Arrived g := by
  by_contra hja
  have htwo := add_le_total (f := c.locals) (w := fun l => 1 - arrivedWeight g l)
    (fun l => sub_nonneg.mpr (arrivedWeight_le_one g l)) hj
  rw [← h.missing, arrivedWeight_of_not hi, arrivedWeight_of_not hja] at htwo
  omega

/-- After the switch the next phase gathers: nobody has come to it yet, and everybody is
on the way out of the one before. -/
theorem gathering_of_switch {r : List Bool}
    (hothers : ∀ j, j ≠ w → (c.locals j).view.stage = .waiting (event h₀ h₁ g) ∧
      (c.locals j).view.results.length = g)
    (hlen : r.length = g) (hv : (c.locals w).view = ⟨.signalling (event h₀ h₁ g), r⟩)
    (hr : c.shared.reserved1 = Fintype.card ι) (hcur : c.shared.current = event h₀ h₁ (g + 1))
    (hdor : c.shared.dormant = event h₀ h₁ g)
    (hsig : c.shared.signalled (event h₀ h₁ (g + 1)) = false) : Gathering h₀ h₁ (g + 1) c where
  places j := by
    rcases eq_or_ne j w with rfl | hj
    · rw [hv]
      exact ⟨congrArg (· + 1) hlen, (event_add_two g).symm⟩
    · obtain ⟨hst, hlenj⟩ := hothers j hj
      rw [View.Gathers, hst]
      exact Or.inr ⟨congrArg (· + 1) hlenj, (event_add_two g).symm⟩
  count := by
    have hzero : total (arrivedWeight (g + 1)) c.locals = 0 := by
      refine total_eq_zero fun j => arrivedWeight_of_not ?_
      rintro ⟨-, hlenj⟩
      rcases eq_or_ne j w with rfl | hj
      · rw [hv] at hlenj
        exact absurd (hlen.symm.trans hlenj) (by omega)
      · exact absurd ((hothers j hj).2.symm.trans hlenj) (by omega)
    rw [hr, hzero, sub_zero]
  current := hcur
  dormant := hdor.trans (event_add_two g).symm
  pending := hsig
  released := Or.inr (Or.inr ⟨w, by rw [hv]; rfl⟩)

variable [DecidableEq ι]

/-- A step that neither closes the phase nor disturbs the events keeps phase `g`
gathering. -/
theorem Gathering.move (h : Gathering h₀ h₁ g c) (hplace : l.view.Gathers h₀ h₁ g)
    (hcount : s.reserved1 + arrivedWeight g l = c.shared.reserved1 + arrivedWeight g (c.locals i))
    (hcur : s.current = c.shared.current) (hdor : s.dormant = c.shared.dormant)
    (hpend : s.signalled (event h₀ h₁ g) = false)
    (hrel : s.signalled (event h₀ h₁ (g + 1)) = true ∨
      s.signalled = c.shared.signalled ∧ (c.locals i).view.stage.isSignalling = false) :
    Gathering h₀ h₁ g (c.move i s l) where
  places := Config.forall_move (P := fun _ (l : Local) => l.view.Gathers h₀ h₁ g) hplace
    fun j _ => h.places j
  count := by
    rw [Config.move_shared, total_move]
    have := h.count
    omega
  current := hcur.trans h.current
  dormant := hdor.trans h.dormant
  pending := hpend
  released := by
    rcases hrel with hs | ⟨hs, hi⟩
    · exact Or.inr (Or.inl hs)
    rcases h.released with hg | hsig | ⟨j, hj⟩
    · exact Or.inl hg
    · exact Or.inr (Or.inl (hs ▸ hsig))
    · -- the thread that is about to signal is not the one that moved
      have hji : j ≠ i := by
        rintro rfl
        rw [hi] at hj
        cases hj
      exact Or.inr (Or.inr ⟨j, by rwa [Config.move_of_ne _ _ _ hji]⟩)

/-- A step that only looks keeps phase `g` gathering. -/
theorem Gathering.look (h : Gathering h₀ h₁ g c) {st : Stage} {r : List Bool} {v' : View}
    (hv : (c.locals i).view = ⟨st, r⟩) (hv' : l.view = v') (hplace : v'.Gathers h₀ h₁ g)
    (harr : v'.Arrived g ↔ (⟨st, r⟩ : View).Arrived g) (hsig : st.isSignalling = false) :
    Gathering h₀ h₁ g (c.move i c.shared l) := by
  refine h.move (hv' ▸ hplace) ?_ rfl rfl h.pending (Or.inr ⟨rfl, ?_⟩)
  · rw [arrivedWeight, arrivedWeight, hv, hv']
    simp only [harr]
  · rwa [hv]

/-- A thread that leaves its wait while phase `g` gathers is one of the phase before. -/
theorem Gathering.leave (h : Gathering h₀ h₁ g c) {hc : ℕ} {r : List Bool}
    (hv : (c.locals i).view = ⟨.waiting hc, r⟩) (hv' : l.view = ⟨.out, r ++ [false]⟩)
    (hhc : hc ≠ event h₀ h₁ g) : Gathering h₀ h₁ g (c.move i c.shared l) := by
  have hplace := h.places i
  rw [hv] at hplace
  obtain ⟨-, hcur⟩ | ⟨hlen, -⟩ : r.length = g ∧ hc = _ ∨ r.length + 1 = g ∧ hc = _ := hplace
  · exact absurd hcur hhc
  · refine h.look hv hv' ?_ ?_ rfl
    · rw [View.Gathers, List.length_append]
      exact hlen
    · simp only [View.Arrived, Stage.isWaiting, Bool.false_eq_true, false_and, true_and,
        false_iff]
      omega

/-- A thread of which phase `g` says that it has come waits for the event of phase
`g`. -/
theorem View.Gathers.waiting_of_arrived {v : View} (h : v.Gathers h₀ h₁ g) (ha : v.Arrived g) :
    v.stage = .waiting (event h₀ h₁ g) := by
  obtain ⟨st, r⟩ := v
  obtain ⟨hw, hlen⟩ := ha
  cases st with
  | waiting hc =>
    obtain ⟨-, rfl⟩ | ⟨hlen', -⟩ := h
    · rfl
    · exact absurd hlen (by simp only at hlen' ⊢; omega)
  | _ => cases hw

/-- **A step while phase `g` gathers**: it goes on, or the last thread has come, or the
barrier is being taken apart. -/
theorem Gathering.step (hne : h₀ ≠ h₁) (h : Gathering h₀ h₁ g c) {st : Stage} {r : List Bool}
    {v' : View} (hv : (c.locals i).view = ⟨st, r⟩) (hv' : l.view = v')
    (hp : Protocol c.shared r st s v') :
    v'.stage = .gone ∨ Gathering h₀ h₁ g (c.move i s l) ∨
      Switching h₀ h₁ g i (c.move i s l) := by
  have hplace := h.places i
  rw [hv] at hplace
  cases hp with
  | stayOut | stayWaiting => exact Or.inr (Or.inl (h.look hv hv' hplace Iff.rfl rfl))
  | copy => exact Or.inr (Or.inl (h.look hv hv' ⟨hplace, h.current⟩ Iff.rfl rfl))
  | copyDormant hc =>
    exact Or.inr (Or.inl (h.look hv hv' ⟨hplace.1, hplace.2, h.dormant⟩ Iff.rfl rfl))
  | arrive hc hd hr =>
    obtain ⟨hlen, hhc, -⟩ := hplace
    refine Or.inr (Or.inl (h.move (hv' ▸ Or.inl ⟨hlen, hhc⟩) ?_ rfl rfl h.pending
      (Or.inr ⟨rfl, ?_⟩)))
    · rw [arrivedWeight, arrivedWeight, hv, hv']
      simp [View.Arrived, Stage.isWaiting, hlen]
    · rw [hv]
      rfl
  | arriveLast hc hd hr =>
    -- everybody else is counted, so everybody else waits for this phase
    obtain ⟨hlen, hhc, hhd⟩ := hplace
    have hi : ¬(c.locals i).view.Arrived g := by
      rw [hv]
      simp [View.Arrived, Stage.isWaiting]
    refine Or.inr (Or.inr ⟨fun j hj => ?_, ?_, h.current, h.pending⟩)
    · rw [Config.move_of_ne _ _ _ hj]
      have hj' := h.arrived_of_last hr hi hj
      exact ⟨(h.places j).waiting_of_arrived hj', hj'.2⟩
    · rw [Config.move_self, hv']
      exact ⟨hlen, hhc, hhd⟩
  | fail hc hd hr =>
    have hi : ¬(c.locals i).view.Arrived g := by
      rw [hv]
      simp [View.Arrived, Stage.isWaiting]
    have := h.reserved1_pos hi
    omega
  | leaveSpin hc hcur =>
    exact Or.inr (Or.inl (h.leave hv hv' fun hc' => hcur (h.current.trans hc'.symm)))
  | leaveWait hc hs =>
    refine Or.inr (Or.inl (h.leave hv hv' ?_))
    rintro rfl
    rw [h.pending] at hs
    cases hs
  | signal hc =>
    -- the winner of the phase before: its event is the dormant one
    obtain ⟨hlen, rfl⟩ := hplace
    refine Or.inr (Or.inl (h.move ?_ ?_ rfl rfl ?_ (Or.inl (Function.update_self ..))))
    · rw [hv', View.Gathers, List.length_append]
      exact hlen
    · rw [arrivedWeight, arrivedWeight, hv, hv']
      simp [View.Arrived, Stage.isWaiting]
    · rw [← h.pending]
      exact Function.update_of_ne (event_ne hne g) ..
  | pass => exact Or.inl rfl
  | reset | load | restore | park | switch | destroy => exact hplace.elim

/-- **A step while thread `w` switches the events**: it goes on, or the next phase
begins to gather. -/
theorem Switching.step (hne : h₀ ≠ h₁) (h : Switching h₀ h₁ g w c)
    (htotal : c.shared.reserved2 = Fintype.card ι) {st : Stage} {r : List Bool} {v' : View}
    (hv : (c.locals i).view = ⟨st, r⟩) (hv' : l.view = v') (hp : Protocol c.shared r st s v') :
    ((∀ hc hd, st ≠ .switching hc hd) ∧ Switching h₀ h₁ g w (c.move i s l)) ∨
      (∃ hc hd, st = .switching hc hd) ∧ r.length = g ∧
        v' = ⟨.signalling (event h₀ h₁ g), r⟩ ∧ Gathering h₀ h₁ (g + 1) (c.move i s l) := by
  rcases eq_or_ne i w with rfl | hiw
  · have hwin := h.winner
    rw [hv] at hwin
    have hothers : ∀ j, j ≠ i → ((c.move i s l).locals j).view.stage = .waiting (event h₀ h₁ g) ∧
        ((c.move i s l).locals j).view.results.length = g := by
      intro j hj
      rw [Config.move_of_ne _ _ _ hj]
      exact h.others j hj
    cases hp with
    | reset hc hd =>
      obtain ⟨hlen, rfl, rfl⟩ := hwin
      refine Or.inl ⟨by simp, hothers, ?_, h.current, ?_⟩
      · rw [Config.move_self, hv']
        exact ⟨hlen, rfl, rfl, Function.update_self ..⟩
      · rw [← h.pending]
        exact Function.update_of_ne (event_ne hne g) ..
    | load hc hd =>
      obtain ⟨hlen, hhc, hhd, hsig⟩ := hwin
      refine Or.inl ⟨by simp, hothers, ?_, h.current, h.pending⟩
      rw [Config.move_self, hv']
      exact ⟨hlen, hhc, hhd, hsig, htotal⟩
    | restore hc hd v =>
      obtain ⟨hlen, hhc, hhd, hsig, rfl⟩ := hwin
      refine Or.inl ⟨by simp, hothers, ?_, h.current, h.pending⟩
      rw [Config.move_self, hv']
      exact ⟨hlen, hhc, hhd, hsig, rfl⟩
    | park hc hd =>
      obtain ⟨hlen, hhc, hhd, hsig, hr⟩ := hwin
      refine Or.inl ⟨by simp, hothers, ?_, h.current, h.pending⟩
      rw [Config.move_self, hv']
      exact ⟨hlen, hhc, hhd, hsig, hr, hhc⟩
    | switch hc hd =>
      obtain ⟨hlen, rfl, rfl, hsig, hr, hdor⟩ := hwin
      exact Or.inr ⟨⟨_, _, rfl⟩, hlen, rfl, gathering_of_switch hothers hlen
        (by rw [Config.move_self, hv']) hr rfl hdor hsig⟩
    | _ => exact hwin.2.elim
  · -- a thread that waits can only look again: its event is current, and not signalled
    obtain ⟨hst, hlen⟩ := h.others i hiw
    rw [hv] at hst hlen
    subst hst
    cases hp with
    | stayWaiting hc =>
      refine Or.inl ⟨by simp, ?_, ?_, h.current, h.pending⟩
      · refine Config.forall_move (P := fun j (l : Local) => j ≠ w →
          l.view.stage = .waiting (event h₀ h₁ g) ∧ l.view.results.length = g) ?_ ?_
        · intro _
          rw [hv']
          exact ⟨rfl, hlen⟩
        · intro j _ hj
          exact h.others j hj
      · rw [Config.move_of_ne _ _ _ hiw.symm]
        exact h.winner
    | leaveSpin hc hcur => exact absurd h.current hcur
    | leaveWait hc hs =>
      rw [h.pending] at hs
      cases hs

/-- A step that makes no winner leaves the winners as they are. -/
theorem total_winWeight_move {k : ℕ} (h : l.view.Wins k ↔ (c.locals i).view.Wins k) :
    total (winWeight k) (c.move i s l).locals = total (winWeight k) c.locals := by
  rw [total_move, winWeight_congr h]
  ring

/-- The switch makes the winner of its phase, and no other. -/
theorem total_winWeight_switch {r : List Bool} (hr : r.length = g) {hc hd hc' : ℕ}
    (hv : (c.locals i).view = ⟨.switching hc hd, r⟩) (hv' : l.view = ⟨.signalling hc', r⟩)
    (hwins : ∀ k, total (winWeight k) c.locals = if k < g then 1 else 0) (k : ℕ) :
    total (winWeight k) (c.move i s l).locals = if k < g + 1 then 1 else 0 := by
  rcases eq_or_ne k g with rfl | hk
  · have hbefore : ¬(c.locals i).view.Wins k := by
      rw [hv]
      simp [View.Wins, Stage.isSignalling, hr]
    have hafter : l.view.Wins k := by
      rw [hv']
      exact Or.inr ⟨rfl, hr⟩
    rw [total_move, hwins, winWeight_of_not hbefore, winWeight_of hafter]
    simp
  · have hsame : l.view.Wins k ↔ (c.locals i).view.Wins k := by
      rw [hv, hv']
      simp [View.Wins, Stage.isSignalling, hr, hk.symm]
    rw [total_winWeight_move hsame, hwins]
    exact if_congr (by omega) rfl rfl

/-- **Every step keeps the invariant.** -/
theorem Phased.step (hne : h₀ ≠ h₁) (h : Phased h₀ h₁ c)
    (hp : Protocol c.shared (c.locals i).results (c.locals i).pc.stage s l.view) :
    Phased h₀ h₁ (c.move i s l) := by
  obtain ⟨j, hj⟩ | ⟨g, htotal, hwins, hregime⟩ := h
  · -- the barrier is being taken apart, and goes on being so
    rcases eq_or_ne j i with rfl | hji
    · rw [hj] at hp
      exact Or.inl ⟨j, by rw [Config.move_self]; exact hp.gone_of_gone⟩
    · exact Or.inl ⟨j, by rwa [Config.move_of_ne _ _ _ hji]⟩
  by_cases hgone : (c.locals i).pc.stage = .gone
  · rw [hgone] at hp
    exact Or.inl ⟨i, by rw [Config.move_self]; exact hp.gone_of_gone⟩
  have htotal' := (hp.reserved2_eq hgone).trans htotal
  rcases hregime with hgather | ⟨w, hswitch⟩
  · have hst : ∀ hc hd, (c.locals i).pc.stage ≠ .switching hc hd := by
      intro hc hd hst
      have hplace := hgather.places i
      rw [View.Gathers, show (c.locals i).view.stage = .switching hc hd from hst] at hplace
      exact hplace
    have hwins' := fun k => (total_winWeight_move (s := s) (hp.wins_iff hst k)).trans (hwins k)
    rcases hgather.step hne rfl rfl hp with hg | hg | hg
    · exact Or.inl ⟨i, by rw [Config.move_self]; exact hg⟩
    · exact Or.inr ⟨g, htotal', hwins', Or.inl hg⟩
    · exact Or.inr ⟨g, htotal', hwins', Or.inr ⟨i, hg⟩⟩
  · rcases hswitch.step hne htotal rfl rfl hp with ⟨hst, hg⟩ | ⟨⟨hc, hd, hst⟩, hlen, hv', hg⟩
    · have hwins' := fun k => (total_winWeight_move (s := s) (hp.wins_iff hst k)).trans (hwins k)
      exact Or.inr ⟨g, htotal', hwins', Or.inr ⟨w, hg⟩⟩
    · have hv : (c.locals i).view = ⟨.switching hc hd, (c.locals i).results⟩ := by
        rw [Local.view, hst]
      exact Or.inr ⟨g + 1, htotal', total_winWeight_switch hlen hv hv' hwins, Or.inl hg⟩

end Step

/-- **A `LONG` can count the threads**: where one of them is about to count itself in, the
decrement does not go round. -/
theorem Phase.long_reserved1 {h₀ h₁ g : ℕ} {c : Config ι Shared Local} {i : ι} {hc hd : ℕ}
    (h : Phase h₀ h₁ g c) (hcard : Fintype.card ι < 2 ^ 31)
    (hi : (c.locals i).view.stage = .ready hc hd) :
    long (c.shared.reserved1 - 1) = id (c.shared.reserved1 - 1) := by
  rcases h.regime with hgather | ⟨w, hswitch⟩
  · have hpos := hgather.reserved1_pos (i := i) (by simp [View.Arrived, hi, Stage.isWaiting])
    have hnn := total_nonneg (f := c.locals) (arrivedWeight_nonneg g)
    have hcount := hgather.count
    exact long_eq_self_iff.mpr ⟨by omega, by omega⟩
  · -- nobody is about to: one thread is switching the events, and the others wait
    rcases eq_or_ne i w with rfl | hiw
    · have hwin := hswitch.winner.2
      rw [hi] at hwin
      exact hwin.elim
    · have hwaits := (hswitch.others i hiw).1
      rw [hi] at hwaits
      cases hwaits

section Reachable

variable [DecidableEq ι] {client : Client ι} {dwNumberOfProcessors h₀ h₁ : ℕ} {lSpinCount : ℤ}
  {s : Shared} {c : Config ι Shared Local}

omit [Fintype ι] [DecidableEq ι] in
/-- What a successful initialisation leaves behind. -/
theorem initializeSynchronizationBarrier_eq_some {lTotalThreads : ℤ}
    (h : initializeSynchronizationBarrier dwNumberOfProcessors h₀ h₁ lTotalThreads lSpinCount =
      some s) :
    h₀ ≠ 0 ∧ h₁ ≠ 0 ∧ s.reserved1 = lTotalThreads ∧ s.reserved2 = lTotalThreads ∧
      s.current = h₀ ∧ s.dormant = h₁ ∧ (∀ h, s.signalled h = false) ∧ s.closed = [] := by
  unfold initializeSynchronizationBarrier at h
  split at h
  · cases h
  split at h
  · cases h
  split at h
  · cases h
  next hz hz' =>
    obtain rfl := Option.some.inj h
    exact ⟨hz, hz', rfl, rfl, rfl, rfl, fun _ => rfl, rfl⟩

omit [DecidableEq ι] in
/-- A fresh barrier gathers its phase `0`. -/
theorem phase_start
    (hinit : initializeSynchronizationBarrier dwNumberOfProcessors h₀ h₁ (Fintype.card ι)
      lSpinCount = some s) : Phase h₀ h₁ 0 (start ι s) := by
  obtain ⟨-, -, hr1, hr2, hcur, hdor, hsig, -⟩ := initializeSynchronizationBarrier_eq_some hinit
  refine ⟨hr2, fun k => ?_, Or.inl ⟨fun i => rfl, ?_, hcur, hdor, hsig _, Or.inl rfl⟩⟩
  · rw [if_neg (Nat.not_lt_zero k)]
    exact total_eq_zero fun i => winWeight_of_not (by simp [View.Wins, start, Local.view,
      Pc.stage, Stage.isSignalling])
  · rw [total_eq_zero fun i => arrivedWeight_of_not (by simp [View.Arrived, start, Local.view,
      Pc.stage, Stage.isWaiting]), sub_zero]
    exact hr1

/-- **The invariant, in every reachable state.** -/
theorem phased_of_reaches {ok : Config ι Shared Local → ι × Choice → Prop}
    (hinit : initializeSynchronizationBarrier dwNumberOfProcessors h₀ h₁ (Fintype.card ι)
      lSpinCount = some s) (hne : h₀ ≠ h₁)
    (hc : ReachesIf (threadStep (next client)) ok (start ι s) c) : Phased h₀ h₁ c := by
  refine Threads.invariant hc (Or.inr ⟨0, phase_start hinit⟩) ?_
  intro d i a s' l hd _ hn
  exact hd.step hne (protocol_of_next hn)

end Reachable

end Invariant

end Barrier

end Libuzi
