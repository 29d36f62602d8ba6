import Libuzi.Synch.BarrierPhases

/-!
# Reusing a synchronization barrier

What the phases say about a barrier that the same threads enter again and again:

* `Barrier.phase_separation`: nobody returns from a call before everybody has begun
  that call, one call of each phase returns `TRUE` and the others return `FALSE`, and
  the assertion in `winpr_EnterSynchronizationBarrier` never fails;
* `Barrier.never_stranded`: a thread whose phase has been closed, and whose winner has
  returned, is free to go – and stays so, whatever the faster threads do to the two
  events in the meantime.
-/

namespace Libuzi

open Runs Threads

namespace Barrier

/-! ### What the phase says to one thread -/

section View

variable {h₀ h₁ g : ℕ}

theorem View.Gathers.length_le {v : View} (h : v.Gathers h₀ h₁ g) : v.results.length ≤ g := by
  obtain ⟨st, r⟩ := v
  cases st <;> simp only [View.Gathers] at h ⊢ <;> omega

/-- Whoever is about to signal closed the last phase. -/
theorem View.Gathers.length_of_signalling {v : View} (h : v.Gathers h₀ h₁ g)
    (hs : v.stage.isSignalling = true) : v.results.length + 1 = g := by
  obtain ⟨st, r⟩ := v
  cases st with
  | signalling hc => exact h.1
  | _ => cases hs

/-- Whoever has not returned from the last closed phase is still in its call. -/
theorem View.Gathers.le_begun {l : Local} (h : l.view.Gathers h₀ h₁ g) : g ≤ l.begun := by
  obtain ⟨pc, r⟩ := l
  cases pc with
  | idle => exact h.ge
  | entering p =>
    change g ≤ r.length + 1
    cases p <;> simp only [View.Gathers, Local.view, Pc.stage, EnterPc.stage] at h <;> omega
  | deleting p =>
    cases p <;> first | exact h.ge | exact h.elim
  | done => exact h.elim

theorem le_begun (l : Local) : l.results.length ≤ l.begun := by
  unfold Local.begun
  split <;> omega

end View

section Runs

variable {ι : Type*} [DecidableEq ι] {client : Client ι} {c c' : Config ι Shared Local}
  {ok : Config ι Shared Local → ι × Choice → Prop}

/-- Where nobody deletes, every thread is between two calls or in one. -/
theorem entering_or_idle_of_forever {s : Shared}
    (hc : ReachesIf (threadStep (next .forever)) ok (start ι s) c) (i : ι) :
    (c.locals i).pc = .idle ∨ ∃ p, (c.locals i).pc = .entering p := by
  refine Threads.invariant
    (P := fun d => ∀ i, (d.locals i).pc = .idle ∨ ∃ p, (d.locals i).pc = .entering p) hc
    (fun _ => Or.inl rfl) ?_ i
  intro d j a s' l hd _ hn
  refine Config.forall_move (P := fun _ (l : Local) => l.pc = .idle ∨ ∃ p, l.pc = .entering p) ?_
    fun k _ => hd k
  obtain ⟨-, f, -, -, -, rfl⟩ | ⟨-, -, hmay, -⟩ | ⟨p, q, -, -, -, rfl⟩ | ⟨p, q, hpc, -⟩ :=
    next_cases hn
  · exact Or.inr ⟨_, rfl⟩
  · cases hmay
  · rcases q with p' | b
    · exact Or.inr ⟨p', rfl⟩
    · exact Or.inl rfl
  · rcases hd j with hj | ⟨p', hj⟩ <;> rw [hpc] at hj <;> cases hj

/-- A step adds at most one result. -/
theorem next_results_mono {i : ι} {a : Choice} {s s' : Shared} {l l' : Local}
    (h : next client i a s l = some (s', l')) : l.results <+: l'.results := by
  obtain ⟨-, f, -, -, -, rfl⟩ | ⟨-, -, -, -, rfl⟩ | ⟨p, q, -, -, -, rfl⟩ | ⟨p, q, -, -, -, rfl⟩ :=
    next_cases h
  · exact List.prefix_refl _
  · exact List.prefix_refl _
  · rcases q with p' | b
    · exact List.prefix_refl _
    · exact List.prefix_append _ _
  · rcases q with _ | p' <;> exact List.prefix_refl _

/-- The results of a thread are only added to. -/
theorem results_mono (hc : ReachesIf (threadStep (next client)) ok c c') (i : ι) :
    (c.locals i).results <+: (c'.locals i).results := by
  refine Threads.invariant (P := fun d => (c.locals i).results <+: (d.locals i).results) hc
    (List.prefix_refl _) ?_
  intro d j a s l hd _ hn
  rcases eq_or_ne i j with rfl | hij
  · rw [Config.move_self]
    exact hd.trans (next_results_mono hn)
  · rwa [Config.move_of_ne _ _ _ hij]

end Runs

/-! ### Phases are separated, and have one winner -/

section Separation

variable {ι : Type*}

/-- **What a reused barrier is for**, in one state of a run. -/
structure Separated (c : Config ι Shared Local) : Prop where
  /-- Nobody has returned from a call that somebody has not begun. -/
  begun : ∀ i j, (c.locals i).results.length ≤ (c.locals j).begun
  /-- When all have returned from their call `k`, one has got `TRUE` and the others
  `FALSE`. -/
  winner : ∀ k, (∀ i, k < (c.locals i).results.length) →
    ∃ w, (c.locals w).results[k]? = some true ∧
      ∀ j, j ≠ w → (c.locals j).results[k]? = some false
  /-- At no time have two threads got `TRUE` from the same call. -/
  unique : ∀ (k : ℕ) (i j : ι), (c.locals i).results[k]? = some true →
    (c.locals j).results[k]? = some true → i = j
  /-- The assertion has not failed. -/
  asserted : ∀ i, (c.locals i).pc ≠ .entering .aborted

variable [Fintype ι] {h₀ h₁ g : ℕ} {c : Config ι Shared Local}

/-- A closed phase has a winner. -/
theorem Phase.exists_wins (h : Phase h₀ h₁ g c) {k : ℕ} (hk : k < g) :
    ∃ w, (c.locals w).view.Wins k := by
  by_contra hno
  rw [not_exists] at hno
  have hone := h.wins k
  rw [if_pos hk, total_eq_zero fun i => winWeight_of_not (hno i)] at hone
  exact absurd hone (by decide)

/-- No phase has two winners. -/
theorem Phase.wins_unique (h : Phase h₀ h₁ g c) {k : ℕ} {i j : ι}
    (hi : (c.locals i).view.Wins k) (hj : (c.locals j).view.Wins k) : i = j := by
  by_contra hij
  have htwo := add_le_total (f := c.locals) (winWeight_nonneg k) hij
  rw [h.wins, winWeight_of hi, winWeight_of hj] at htwo
  split at htwo <;> omega

/-- Nobody has returned from more calls than there are closed phases, and everybody has
begun as many. -/
theorem Phase.length_le_and_le_begun (h : Phase h₀ h₁ g c) (i : ι) :
    (c.locals i).results.length ≤ g ∧ g ≤ (c.locals i).begun := by
  rcases h.regime with hgather | ⟨w, hswitch⟩
  · exact ⟨(hgather.places i).length_le, (hgather.places i).le_begun⟩
  · have hlen : (c.locals i).results.length = g := by
      rcases eq_or_ne i w with rfl | hiw
      · exact hswitch.winner.1
      · exact (hswitch.others i hiw).2
    exact ⟨hlen.le, hlen ▸ le_begun _⟩

theorem Phase.stage_ne_aborted (h : Phase h₀ h₁ g c) (i : ι) :
    (c.locals i).view.stage ≠ .aborted := by
  intro hst
  rcases h.regime with hgather | ⟨w, hswitch⟩
  · have hplace := hgather.places i
    rw [View.Gathers, hst] at hplace
    exact hplace
  · rcases eq_or_ne i w with rfl | hiw
    · have hwin := hswitch.winner.2
      rw [hst] at hwin
      exact hwin
    · rw [(hswitch.others i hiw).1] at hst
      cases hst

theorem Phase.separated [Nonempty ι] (h : Phase h₀ h₁ g c) : Separated c where
  begun i j := (h.length_le_and_le_begun i).1.trans (h.length_le_and_le_begun j).2
  winner k hk := by
    have hkg : k < g := (hk (Classical.arbitrary ι)).trans_le (h.length_le_and_le_begun _).1
    obtain ⟨w, hw⟩ := h.exists_wins hkg
    have hw' : (c.locals w).results[k]? = some true := by
      rcases hw with hw | ⟨-, hlen⟩
      · exact hw
      · exact absurd (hk w) (by rw [← hlen]; exact lt_irrefl _)
    refine ⟨w, hw', fun j hj => ?_⟩
    rcases hb : (c.locals j).results[k]? with _ | _ | _
    · exact absurd (hk j) (by simpa using hb)
    · rfl
    · exact absurd (h.wins_unique (Or.inl hb) (Or.inl hw')) hj
  unique k i j hi hj := h.wins_unique (Or.inl hi) (Or.inl hj)
  asserted i hi := h.stage_ne_aborted i (by rw [Local.view, hi]; rfl)

variable [DecidableEq ι] {dwNumberOfProcessors : ℕ} {lSpinCount : ℤ} {s : Shared}

/-- A barrier that nobody deletes is in some phase. -/
theorem phase_of_reaches
    (hinit : initializeSynchronizationBarrier dwNumberOfProcessors h₀ h₁ (Fintype.card ι)
      lSpinCount = some s) (hne : h₀ ≠ h₁)
    (hc : Reaches (threadStep (next .forever)) (start ι s) c) : ∃ g, Phase h₀ h₁ g c := by
  obtain ⟨i, hi⟩ | hphase := phased_of_reaches hinit hne hc
  · rcases entering_or_idle_of_forever hc i with hpc | ⟨p, hpc⟩
    · rw [hpc] at hi
      cases hi
    · rw [hpc] at hi
      cases p <;> cases hi
  · exact hphase

/-- **Phases are separated, and each has one winner**: in every state that threads
entering again and again can reach, with any flags, on a barrier initialised for as
many threads as there are. -/
theorem phase_separation
    (hinit : initializeSynchronizationBarrier dwNumberOfProcessors h₀ h₁ (Fintype.card ι)
      lSpinCount = some s) (hne : h₀ ≠ h₁)
    (hc : Reaches (threadStep (next .forever)) (start ι s) c) : Separated c := by
  have : Nonempty ι := by
    by_contra hempty
    rw [not_nonempty_iff] at hempty
    rw [Fintype.card_eq_zero] at hinit
    cases hinit
  obtain ⟨g, hg⟩ := phase_of_reaches hinit hne hc
  exact hg.separated

/-- A barrier for two threads on a machine with four processors. -/
def twoThreads : Shared :=
  { reserved1 := 2, reserved2 := 2, current := 1, dormant := 2, reserved4 := 4, reserved5 := 1,
    signalled := fun _ => false, closed := [] }

/-- Thread `0` comes and spins; thread `1` comes last, switches, signals, returns `TRUE`
and is on its way into the next phase when thread `0` sees the switch. -/
def onePhase : List (Fin 2 × Choice) :=
  [(0, .enter 0), (0, .go), (0, .go), (0, .go), (0, .go), (0, .go), (0, .go),
    (1, .enter 2), (1, .go), (1, .go), (1, .go), (1, .go), (1, .go), (1, .go), (1, .go), (1, .go),
    (1, .go), (1, .enter 1), (1, .go), (1, .go), (1, .go), (0, .go)]

theorem phase_separation_onePhase :
    Separated (final (threadStep (next .forever)) (start (Fin 2) twoThreads) onePhase) ∧
      (final (threadStep (next .forever)) (start (Fin 2) twoThreads) onePhase).locals 0 =
        { pc := .idle, results := [false] } :=
  ⟨phase_separation (show initializeSynchronizationBarrier 4 1 2 (Fintype.card (Fin 2)) 1 =
    some twoThreads from rfl)
    (by decide) (reaches_of_run onePhase (run_eq_final (by decide +kernel))), by decide +kernel⟩

end Separation

/-! ### Nobody is stranded -/

section Stranded

variable {ι : Type*} [Fintype ι] {h₀ h₁ g : ℕ} {c c' : Config ι Shared Local}

/-- The thread blocks on event `h`, or spins on it. -/
def Local.WaitsFor (l : Local) (h : ℕ) : Prop :=
  l.pc = .entering (.wait h) ∨ ∃ f n sp, l.pc = .entering (.spin f h n sp)

theorem Local.WaitsFor.stage_eq {l : Local} {h : ℕ} (hl : l.WaitsFor h) :
    l.view.stage = .waiting h := by
  obtain hpc | ⟨f, n, sp, hpc⟩ := hl <;> rw [Local.view, hpc] <;> rfl

/-- A thread that waits although the winner of its phase has returned is free to go, both
ways. -/
theorem Phase.released (hne : h₀ ≠ h₁) (hg : Phase h₀ h₁ g c) {i w : ι} {h : ℕ}
    (hi : (c.locals i).view.stage = .waiting h)
    (hw : (c.locals w).results[(c.locals i).results.length]? = some true) :
    c.shared.signalled h = true ∧ c.shared.current ≠ h := by
  have hlt : (c.locals i).results.length < (c.locals w).results.length :=
    (List.getElem?_eq_some_iff.mp hw).1
  have hwlen := (hg.length_le_and_le_begun w).1
  rcases hg.regime with hgather | ⟨v, hswitch⟩
  · have hplace := hgather.places i
    rw [View.Gathers, hi] at hplace
    obtain ⟨hlen, -⟩ | ⟨hlen, rfl⟩ :
      (c.locals i).results.length = g ∧ _ ∨ (c.locals i).results.length + 1 = g ∧ _ := hplace
    · omega
    refine ⟨?_, hgather.current ▸ event_ne hne g⟩
    rcases hgather.released with rfl | hsig | ⟨j, hj⟩
    · omega
    · exact hsig
    · -- whoever is about to signal is the winner, and has not returned
      have hjlen : (c.locals j).results.length + 1 = g :=
        (hgather.places j).length_of_signalling hj
      have hji : (c.locals j).results.length = (c.locals i).results.length := by omega
      obtain rfl : j = w := hg.wins_unique (Or.inr ⟨hj, hji⟩) (Or.inl hw)
      omega
  · exfalso
    rcases eq_or_ne i v with rfl | hiv
    · have := hswitch.winner.2
      rw [hi] at this
      exact this
    · have hlen : (c.locals i).results.length = g := (hswitch.others i hiv).2
      omega

variable [DecidableEq ι] {dwNumberOfProcessors : ℕ} {lSpinCount : ℤ} {s : Shared}

/-- **Nobody is stranded**: once the last thread of phase `k` has returned from its
call – the one whose call returns `TRUE` – every thread that still blocks on its event
or spins on it in phase `k` finds the event set and `Reserved3[0]` changed, at once and
in every state that may follow while it has not left that phase. -/
theorem never_stranded
    (hinit : initializeSynchronizationBarrier dwNumberOfProcessors h₀ h₁ (Fintype.card ι)
      lSpinCount = some s) (hne : h₀ ≠ h₁)
    (hc : Reaches (threadStep (next .forever)) (start ι s) c) {i w : ι} {k h : ℕ}
    (hw : (c.locals w).results[k]? = some true)
    (hc' : Reaches (threadStep (next .forever)) c c') (hk : (c'.locals i).results.length = k)
    (hi : (c'.locals i).WaitsFor h) :
    c'.shared.signalled h = true ∧ c'.shared.current ≠ h := by
  obtain ⟨g, hg⟩ := phase_of_reaches hinit hne (hc.trans hc')
  refine hg.released hne hi.stage_eq (w := w) ?_
  -- the winner's result is still there
  obtain ⟨t, ht⟩ := results_mono hc' w
  rw [hk, ← ht, List.getElem?_append_left (List.getElem?_eq_some_iff.mp hw).1]
  exact hw

/-- Thread `0` blocks on event `1`; thread `1` closes the phase and returns `TRUE`. -/
def blockAndClose : List (Fin 2 × Choice) :=
  [(0, .enter 2), (0, .go), (0, .go), (0, .go), (0, .go),
    (1, .enter 2), (1, .go), (1, .go), (1, .go), (1, .go), (1, .go), (1, .go), (1, .go), (1, .go),
    (1, .go)]

/-- Thread `1` is the first to come to the next phase, and spins there. -/
def comeAgain : List (Fin 2 × Choice) :=
  [(1, .enter 1), (1, .go), (1, .go), (1, .go), (1, .go), (1, .go), (1, .go)]

theorem never_stranded_blockAndClose :
    (final (threadStep (next .forever))
      (final (threadStep (next .forever)) (start (Fin 2) twoThreads) blockAndClose)
      comeAgain).shared.signalled 1 = true ∧
    (final (threadStep (next .forever))
      (final (threadStep (next .forever)) (start (Fin 2) twoThreads) blockAndClose)
      comeAgain).shared.current ≠ 1 :=
  never_stranded (show initializeSynchronizationBarrier 4 1 2 (Fintype.card (Fin 2)) 1 =
      some twoThreads from rfl) (by decide)
    (reaches_of_run blockAndClose (run_eq_final (by decide +kernel)))
    (i := 0) (w := 1) (k := 0) (h := 1) (by decide +kernel)
    (reaches_of_run comeAgain (run_eq_final (by decide +kernel))) (by decide +kernel)
    (Or.inl (by decide +kernel))

end Stranded

end Barrier

end Libuzi
