import Libuzi.Synch.BarrierReuse

/-!
# Deleting a synchronization barrier

Threads enter a barrier `K` times each, without
`SYNCHRONIZATION_BARRIER_FLAGS_NO_DELETE`, and one of them, the deleter, calls
`winpr_DeleteSynchronizationBarrier` after its last call. The loop of the deletion
waits for `Reserved1 == Reserved2`. That is the state of the counter *before* a phase:
the last thread of a phase restores it several steps before it switches the events and
signals, and the threads it releases return later still. So the loop waits for nothing
that matters, and `Barrier.delete_closesUnderWaiter` is a run in which the event is
closed under a thread that is about to wait for it.

The deletion is safe exactly when the deleter calls it with nobody else inside
`winpr_EnterSynchronizationBarrier` (`Barrier.delete_safe_iff`). Until then the barrier
is in use (`Barrier.InUse`); after such a call nobody comes back
(`Barrier.Abandoned`); and after any other call the deleter can run ahead of the
others to its first `CloseHandle` (`Barrier.exists_closed`).
-/

namespace Libuzi

open Runs Threads

namespace Barrier

/-- The call may be followed by a deletion: it does not promise that there is none. -/
def Choice.deletable : Choice → Bool
  | .enter f => !hasFlag f noDeleteFlag
  | _ => true

/-- The thread is in `winpr_EnterSynchronizationBarrier`: every place there has an access to
`Reserved3`, a wait or a `SetEvent` before it. -/
def Local.Inside (l : Local) : Prop := ∃ p, l.pc = .entering p

section Delete

variable {ι : Type*} {K : ℕ} {d : ι} {c c' : Config ι Shared Local}

/-- An event has been closed, or the barrier zeroed. -/
def Dismantled (d : ι) (c : Config ι Shared Local) : Prop :=
  c.shared.closed ≠ [] ∨ (c.locals d).pc = .done

/-- The runs of the threads: no call promises that the barrier will not be deleted. -/
def Deletable (_ : Config ι Shared Local) (e : ι × Choice) : Prop := e.2.deletable = true

/-- Nobody but the deleter is inside the barrier. -/
def Deserted (d : ι) (c : Config ι Shared Local) : Prop := ∀ j, j ≠ d → ¬(c.locals j).Inside

/-- The deletion has not been called. -/
structure InUse (K : ℕ) (c : Config ι Shared Local) : Prop where
  /-- A thread is outside, or in one of its `K` calls. -/
  places : ∀ j, (c.locals j).pc = .idle ∨
    ∃ p, (c.locals j).pc = .entering p ∧ (c.locals j).results.length < K
  /-- No event has been closed. -/
  closed : c.shared.closed = []

/-- The deleter is in its deletion, or has finished it. -/
def Deleting (d : ι) (c : Config ι Shared Local) : Prop :=
  (∃ p, (c.locals d).pc = .deleting p) ∨ (c.locals d).pc = .done

/-- The deletion has been called, and everybody else has gone for good. -/
structure Abandoned (K : ℕ) (d : ι) (c : Config ι Shared Local) : Prop where
  /-- Everybody else has made its calls. -/
  others : ∀ j, j ≠ d → (c.locals j).pc = .idle ∧ (c.locals j).results.length = K
  /-- The deletion has been called. -/
  deleting : Deleting d c

theorem Abandoned.deserted (h : Abandoned K d c) : Deserted d c := by
  rintro j hj ⟨p, hp⟩
  rw [(h.others j hj).1] at hp
  cases hp

theorem InUse.not_dismantled (h : InUse K c) : ¬Dismantled d c := by
  rintro (hclosed | hdone)
  · exact hclosed h.closed
  · rcases h.places d with hpc | ⟨p, hpc, -⟩ <;> rw [hdone] at hpc <;> cases hpc

theorem InUse.stage_ne_gone (h : InUse K c) (j : ι) : (c.locals j).pc.stage ≠ .gone := by
  rcases h.places j with hpc | ⟨p, hpc, -⟩ <;> rw [hpc]
  · exact nofun
  · cases p <;> exact nofun

/-- Entering closes no event. -/
theorem enter_closed_eq {s s' : Shared} {p : EnterPc} {q : EnterPc ⊕ Bool}
    (h : enterSynchronizationBarrier s p = some (s', q)) : s'.closed = s.closed := by
  cases p with
  | spin f hc n sp =>
    simp only [enterSynchronizationBarrier] at h
    split at h
    · split at h <;> obtain ⟨rfl, -⟩ := Prod.mk.inj (Option.some.inj h) <;> rfl
    · obtain ⟨rfl, -⟩ := Prod.mk.inj (Option.some.inj h)
      rfl
  | wait hc =>
    simp only [enterSynchronizationBarrier] at h
    split at h
    · obtain ⟨rfl, -⟩ := Prod.mk.inj (Option.some.inj h)
      rfl
    · cases h
  | aborted => cases h
  | _ =>
    obtain ⟨rfl, -⟩ := Prod.mk.inj (Option.some.inj h)
    rfl

/-! ### Until the deletion, and after it -/

variable [DecidableEq ι] {i : ι} {a : Choice} {s : Shared} {l : Local}

omit [DecidableEq ι] in
theorem mayEnter_thenDelete {r : ℕ} :
    (Client.thenDelete K d).mayEnter r = true ↔ r < K := decide_eq_true_iff

theorem mayDelete_thenDelete {r : ℕ} :
    (Client.thenDelete K d).mayDelete i r = true ↔ i = d ∧ r = K := decide_eq_true_iff

/-- What a call of the deletion is. -/
theorem next_delete {s s' : Shared} {l l' : Local}
    (h : next (.thenDelete K d) i .delete s l = some (s', l')) :
    l.pc = .idle ∧ l.results.length = K ∧ s' = s ∧
      l' = { l with pc := .deleting .loadRemaining } := by
  obtain ⟨-, f, ha, -⟩ | ⟨hpc, -, hmay, hs, hl⟩ | ⟨p, q, -, ha, -⟩ | ⟨p, q, -, ha, -⟩ :=
    next_cases h
  · cases ha
  · exact ⟨hpc, (mayDelete_thenDelete.mp hmay).2, hs, hl⟩
  · cases ha
  · cases ha

/-- **The barrier stays in use until the deleter calls the deletion.** -/
theorem InUse.step (h : InUse K c)
    (hn : next (.thenDelete K d) i a c.shared (c.locals i) = some (s, l)) :
    InUse K (c.move i s l) ∨
      i = d ∧ a = .delete ∧ ((c.locals d).pc = .idle ∧ (c.locals d).results.length = K) ∧
        s = c.shared ∧ l = { c.locals d with pc := .deleting .loadRemaining } := by
  have hkeep : (l.pc = .idle ∨ ∃ p, l.pc = .entering p ∧ l.results.length < K) →
      s.closed = c.shared.closed → InUse K (c.move i s l) := by
    intro hl hclosed
    refine ⟨?_, hclosed.trans h.closed⟩
    exact Config.forall_move (P := fun _ (l : Local) => l.pc = .idle ∨
      ∃ p, l.pc = .entering p ∧ l.results.length < K) hl fun j _ => h.places j
  obtain ⟨-, f, -, hmay, rfl, rfl⟩ | ⟨hpc, rfl, hmay, rfl, rfl⟩ |
    ⟨p, q, hpc, -, he, rfl⟩ | ⟨p, q, hpc, -⟩ := next_cases hn
  · exact Or.inl (hkeep (Or.inr ⟨_, rfl, mayEnter_thenDelete.mp hmay⟩) rfl)
  · obtain ⟨rfl, hlen⟩ := mayDelete_thenDelete.mp hmay
    exact Or.inr ⟨rfl, rfl, ⟨hpc, hlen⟩, rfl, rfl⟩
  · have hlen : (c.locals i).results.length < K := by
      rcases h.places i with hidle | ⟨p', -, hlen⟩
      · rw [hpc] at hidle
        cases hidle
      · exact hlen
    rcases q with p' | b
    · exact Or.inl (hkeep (Or.inr ⟨p', rfl, hlen⟩) (enter_closed_eq he))
    · exact Or.inl (hkeep (Or.inl rfl) (enter_closed_eq he))
  · rcases h.places i with hidle | ⟨p', hp', -⟩
    · rw [hpc] at hidle
      cases hidle
    · rw [hpc] at hp'
      cases hp'

/-- The deletion is the last thing the deleter does. -/
theorem Deleting.step {client : Client ι} (h : Deleting d c)
    (hn : next client i a c.shared (c.locals i) = some (s, l)) : Deleting d (c.move i s l) := by
  rcases eq_or_ne d i with rfl | hdi
  · unfold Deleting
    rw [Config.move_self]
    obtain ⟨hpc, -⟩ | ⟨hpc, -⟩ | ⟨p, q, hpc, -⟩ | ⟨p, q, -, -, -, rfl⟩ := next_cases hn
    · obtain ⟨p', hp'⟩ | hp' := h <;> rw [hpc] at hp' <;> cases hp'
    · obtain ⟨p', hp'⟩ | hp' := h <;> rw [hpc] at hp' <;> cases hp'
    · obtain ⟨p', hp'⟩ | hp' := h <;> rw [hpc] at hp' <;> cases hp'
    · rcases q with _ | p'
      · exact Or.inr rfl
      · exact Or.inl ⟨p', rfl⟩
  · unfold Deleting
    rwa [Config.move_of_ne _ _ _ hdi]

/-- **Nobody comes back to an abandoned barrier.** -/
theorem Abandoned.step (h : Abandoned K d c)
    (hn : next (.thenDelete K d) i a c.shared (c.locals i) = some (s, l)) :
    Abandoned K d (c.move i s l) := by
  refine ⟨fun j hj => ?_, h.deleting.step hn⟩
  have hji : j ≠ i := by
    -- a thread that has made its calls, and does not delete, has no step left
    rintro rfl
    obtain ⟨hidle, hlen⟩ := h.others j hj
    obtain ⟨-, f, -, hmay, -⟩ | ⟨-, -, hmay, -⟩ | ⟨p, q, hpc, -⟩ | ⟨p, q, hpc, -⟩ := next_cases hn
    · exact absurd (mayEnter_thenDelete.mp hmay) (by omega)
    · exact hj (mayDelete_thenDelete.mp hmay).1
    · rw [hidle] at hpc
      cases hpc
    · rw [hidle] at hpc
      cases hpc
  rw [Config.move_of_ne _ _ _ hji]
  exact h.others j hj

omit [DecidableEq ι] in
theorem inUse_start (hs : s.closed = []) : InUse K (start ι s) := ⟨fun _ => Or.inl rfl, hs⟩

/-! ### The moment of the call -/

section Call

variable [Fintype ι] {h₀ h₁ : ℕ}

omit [DecidableEq ι] in
/-- When the deleter is outside after its last call, the phase after that one gathers. -/
theorem InUse.gathering (h : InUse K c) (hphased : Phased h₀ h₁ c)
    (hd : (c.locals d).pc = .idle) (hlen : (c.locals d).results.length = K) :
    c.shared.reserved2 = Fintype.card ι ∧ Gathering h₀ h₁ K c := by
  obtain ⟨j, hj⟩ | ⟨g, hg⟩ := hphased
  · exact absurd hj (h.stage_ne_gone j)
  have hst : (c.locals d).view.stage = .out := by
    rw [Local.view, hd]
    rfl
  rcases hg.regime with hgather | ⟨w, hswitch⟩
  · have hplace := hgather.places d
    rw [View.Gathers, hst] at hplace
    obtain rfl : K = g := hlen.symm.trans hplace
    exact ⟨hg.total, hgather⟩
  · exfalso
    rcases eq_or_ne d w with rfl | hdw
    · have hwin := hswitch.winner.2
      rw [hst] at hwin
      exact hwin
    · rw [(hswitch.others d hdw).1] at hst
      cases hst

omit [DecidableEq ι] in
/-- Nobody has come to that phase, and nobody will: the loop of the deletion does not
wait. -/
theorem InUse.reserved1_eq (h : InUse K c) (htotal : c.shared.reserved2 = Fintype.card ι)
    (hgather : Gathering h₀ h₁ K c) : c.shared.reserved1 = c.shared.reserved2 := by
  have hnone : total (arrivedWeight K) c.locals = 0 := by
    refine total_eq_zero fun j => arrivedWeight_of_not ?_
    rintro ⟨hwait, hlen⟩
    change (c.locals j).results.length = K at hlen
    rcases h.places j with hidle | ⟨p, -, hlt⟩
    · rw [Local.view, hidle] at hwait
      cases hwait
    · omega
  rw [hgather.count, hnone, sub_zero, htotal]

/-- A deletion called with nobody else inside finds the others gone for good. -/
theorem InUse.abandoned (h : InUse K c) (hgather : Gathering h₀ h₁ K c) (hdes : Deserted d c) :
    Abandoned K d (c.move d c.shared { c.locals d with pc := .deleting .loadRemaining }) := by
  refine ⟨fun j hj => ?_, Or.inl ⟨.loadRemaining, by rw [Config.move_self]⟩⟩
  rw [Config.move_of_ne _ _ _ hj]
  have hidle : (c.locals j).pc = .idle := by
    rcases h.places j with hidle | ⟨p, hp, -⟩
    · exact hidle
    · exact absurd ⟨p, hp⟩ (hdes j hj)
  have hplace := hgather.places j
  rw [Local.view, hidle] at hplace
  exact ⟨hidle, hplace⟩

end Call

/-! ### Running ahead -/

section Solo

/-- The deleter, moving alone from `c`, can get to the memory `s` and the place `p` of its
deletion. -/
def Solo (K : ℕ) (d : ι) (c : Config ι Shared Local) (s : Shared) (p : DeletePc) : Prop :=
  ∃ c', ReachesIf (threadStep (next (.thenDelete K d))) Deletable c c' ∧ c'.shared = s ∧
    (c'.locals d).pc = .deleting p ∧ ∀ j, j ≠ d → c'.locals j = c.locals j

theorem Solo.go {s s' : Shared} {p p' : DeletePc} (h : Solo K d c s p)
    (hp : deleteSynchronizationBarrier s p = (s', some p')) : Solo K d c s' p' := by
  obtain ⟨c', hreach, rfl, hpc, hothers⟩ := h
  have hnext : next (.thenDelete K d) d .go c'.shared (c'.locals d) =
      some (s', { c'.locals d with pc := .deleting p' }) := by
    simp only [next, hpc, hp]
  have hok : Deletable c' (d, Choice.go) := rfl
  refine ⟨_, reachesIf_move hreach hok hnext, rfl, ?_, ?_⟩
  · rw [Config.move_self]
  · intro j hj
    rw [Config.move_of_ne _ _ _ hj]
    exact hothers j hj

/-- **With the counter restored, the deleter gets to its first `CloseHandle` on its
own.** -/
theorem exists_closed (hpc : (c.locals d).pc = .deleting .loadRemaining)
    (hr : c.shared.reserved1 = c.shared.reserved2) (hcur : c.shared.current ≠ 0) :
    ∃ c', ReachesIf (threadStep (next (.thenDelete K d))) Deletable c c' ∧ c'.shared.closed ≠ [] ∧
      ∀ j, j ≠ d → c'.locals j = c.locals j := by
  have h₁ : Solo K d c c.shared .loadRemaining := ⟨c, .refl, rfl, hpc, fun _ _ => rfl⟩
  have h₂ : Solo K d c c.shared (.loadTotal c.shared.reserved1) := h₁.go rfl
  have h₃ : Solo K d c c.shared .testCurrent := h₂.go (by
    rw [deleteSynchronizationBarrier, if_neg (not_not.mpr hr)])
  have h₄ : Solo K d c c.shared .loadCurrent := h₃.go (by
    rw [deleteSynchronizationBarrier, if_pos hcur])
  have h₅ : Solo K d c c.shared (.closeCurrent c.shared.current) := h₄.go rfl
  have h₆ : Solo K d c
      { c.shared with closed := c.shared.current :: c.shared.closed } .testDormant :=
    h₅.go rfl
  obtain ⟨c', hreach, hs, -, hothers⟩ := h₆
  exact ⟨c', hreach, by rw [hs]; exact List.cons_ne_nil _ _, hothers⟩

end Solo

/-! ### When the deletion is safe -/

variable [Fintype ι] {dwNumberOfProcessors h₀ h₁ : ℕ} {lSpinCount : ℤ}

/-- The same, and the deletion is called with nobody else inside. -/
def DeletableDeserted (d : ι) (c : Config ι Shared Local) (e : ι × Choice) : Prop :=
  e.2.deletable = true ∧ (e.2 = .delete → Deserted d c)

omit [Fintype ι] in
/-- The barrier is in use until its deletion is called. -/
theorem inUse_or_deleting {ok : Config ι Shared Local → ι × Choice → Prop} (hs : s.closed = [])
    (hc : ReachesIf (threadStep (next (.thenDelete K d))) ok (start ι s) c) :
    InUse K c ∨ Deleting d c := by
  refine Threads.invariant (P := fun t => InUse K t ∨ Deleting d t) hc
    (Or.inl (inUse_start hs)) ?_
  rintro t i a s' l (hin | hdel) - hn
  · rcases hin.step hn with hin' | ⟨rfl, -, -, -, rfl⟩
    · exact Or.inl hin'
    · exact Or.inr (Or.inl ⟨.loadRemaining, by rw [Config.move_self]⟩)
  · exact Or.inr (hdel.step hn)

omit [Fintype ι] in
/-- An abandoned barrier stays abandoned. -/
theorem abandoned_of_reaches {ok : Config ι Shared Local → ι × Choice → Prop}
    (h : Abandoned K d c) (hc : ReachesIf (threadStep (next (.thenDelete K d))) ok c c') :
    Abandoned K d c' :=
  Threads.invariant hc h fun _ _ _ _ _ ht _ hn => ht.step hn

/-- With the deletion called only when nobody else is inside, the barrier is in use, or
abandoned. -/
theorem inUse_or_abandoned
    (hinit : initializeSynchronizationBarrier dwNumberOfProcessors h₀ h₁ (Fintype.card ι)
      lSpinCount = some s) (hne : h₀ ≠ h₁)
    (hc : ReachesIf (threadStep (next (.thenDelete K d))) (DeletableDeserted d) (start ι s) c) :
    InUse K c ∨ Abandoned K d c := by
  have hclosed : s.closed = [] :=
    (initializeSynchronizationBarrier_eq_some hinit).2.2.2.2.2.2.2
  induction hc with
  | refl => exact Or.inl (inUse_start hclosed)
  | tail hreach hok hs ih =>
    obtain ⟨s', l, hn, rfl⟩ := threadStep_eq_some.mp hs
    rcases ih with hin | hab
    · rcases hin.step hn with hin' | ⟨hid, hdel, ⟨hidle, hlen⟩, rfl, rfl⟩
      · exact Or.inl hin'
      · have hgather := (hin.gathering (phased_of_reaches hinit hne hreach) hidle hlen).2
        rw [hid]
        exact Or.inr (hin.abandoned hgather (hok.2 hdel))
    · exact Or.inr (hab.step hn)

/-- **Deleting is safe exactly when nobody else is inside.** In every run in which the
deletion is called with nobody else inside, no event is closed while somebody is; and in
any run, from a call of the deletion on, nobody will be inside a barrier that has been
taken apart if and only if nobody else was inside at the call. -/
theorem delete_safe_iff
    (hinit : initializeSynchronizationBarrier dwNumberOfProcessors h₀ h₁ (Fintype.card ι)
      lSpinCount = some s) (hne : h₀ ≠ h₁) :
    (∀ c, ReachesIf (threadStep (next (.thenDelete K d))) (DeletableDeserted d) (start ι s) c →
      Dismantled d c → Deserted d c) ∧
    (∀ c c₁, ReachesIf (threadStep (next (.thenDelete K d))) Deletable (start ι s) c →
      threadStep (next (.thenDelete K d)) c (d, .delete) = some c₁ →
      ((∀ c', ReachesIf (threadStep (next (.thenDelete K d))) Deletable c₁ c' →
        Dismantled d c' → Deserted d c') ↔ Deserted d c)) := by
  obtain ⟨hz₀, hz₁, -, -, -, -, -, hclosed⟩ := initializeSynchronizationBarrier_eq_some hinit
  constructor
  · intro c hc hdis
    rcases inUse_or_abandoned hinit hne hc with hin | hab
    · exact absurd hdis hin.not_dismantled
    · exact hab.deserted
  intro c c₁ hc hcall
  obtain ⟨s', l, hn, rfl⟩ := threadStep_eq_some.mp hcall
  obtain ⟨hidle, hlen, rfl, rfl⟩ := next_delete hn
  have hin : InUse K c := by
    rcases inUse_or_deleting hclosed hc with hin | ⟨p, hp⟩ | hdone
    · exact hin
    · rw [hidle] at hp
      cases hp
    · rw [hidle] at hdone
      cases hdone
  obtain ⟨htotal, hgather⟩ := hin.gathering (phased_of_reaches hinit hne hc) hidle hlen
  constructor
  · -- the deleter runs ahead, and the others stay where they are
    intro hsafe j hj hinside
    obtain ⟨c', hreach, hclosed', hothers⟩ := exists_closed (K := K) (d := d)
      (c := c.move d c.shared { c.locals d with pc := .deleting .loadRemaining })
      (by rw [Config.move_self]) (hin.reserved1_eq htotal hgather)
      (hgather.current ▸ event_ne_zero hz₀ hz₁ K)
    refine hsafe c' hreach (Or.inl hclosed') j hj ?_
    rwa [hothers j hj, Config.move_of_ne _ _ _ hj]
  · intro hdes c' hreach _
    exact (abandoned_of_reaches (hin.abandoned hgather hdes) hreach).deserted

/-- Thread `0` comes to a barrier for two threads and is about to block; thread `1` comes
last and returns `TRUE`. -/
def closeAndReturn : List (Fin 2 × Choice) :=
  [(0, .enter 2), (0, .go), (0, .go), (0, .go), (0, .go),
    (1, .enter 2), (1, .go), (1, .go), (1, .go), (1, .go), (1, .go), (1, .go), (1, .go), (1, .go),
    (1, .go)]

/-- Thread `1` deletes the barrier, up to its first `CloseHandle`. -/
def runAhead : List (Fin 2 × Choice) :=
  [(1, .delete), (1, .go), (1, .go), (1, .go), (1, .go), (1, .go)]

/-- The deletion closes the event that thread `0` is about to wait for. -/
theorem delete_closesUnderWaiter :
    ¬∀ c, ReachesIf (threadStep (next (.thenDelete 1 1))) Deletable (start (Fin 2) twoThreads) c →
      Dismantled 1 c → Deserted 1 c := by
  intro hsafe
  have hflags : ∀ e ∈ closeAndReturn ++ runAhead, e.2.deletable = true := by decide
  have hreach : ReachesIf (threadStep (next (.thenDelete 1 1))) Deletable
      (start (Fin 2) twoThreads) (final (threadStep (next (.thenDelete 1 1)))
        (start (Fin 2) twoThreads) (closeAndReturn ++ runAhead)) :=
    reachesIf_of_run _ (allMeet_of_forall fun e he _ => hflags e he)
      (run_eq_final (by decide +kernel))
  have hwait : (final (threadStep (next (.thenDelete 1 1))) (start (Fin 2) twoThreads)
      (closeAndReturn ++ runAhead)).locals 0 = { pc := .entering (.wait 1), results := [] } := by
    decide +kernel
  exact hsafe _ hreach (Or.inl (by decide +kernel)) 0 (by decide) ⟨.wait 1, by rw [hwait]⟩

/-- The state after the phase, when thread `0` has left its wait. -/
def afterPhase : Config (Fin 2) Shared Local :=
  final (threadStep (next (.thenDelete 1 1))) (start (Fin 2) twoThreads)
    (closeAndReturn ++ [(0, .go)])

/-- The state in which thread `1` has then called the deletion. -/
def afterCall : Config (Fin 2) Shared Local :=
  final (threadStep (next (.thenDelete 1 1))) afterPhase [(1, .delete)]

/-- The deletion is safe there. -/
theorem delete_safe_iff_afterPhase :
    Dismantled 1 (final (threadStep (next (.thenDelete 1 1))) afterCall
      (List.replicate 5 (1, .go))) ∧
    Deserted 1 (final (threadStep (next (.thenDelete 1 1))) afterCall
      (List.replicate 5 (1, .go))) := by
  have hflags : ∀ e ∈ closeAndReturn ++ [(0, .go)], e.2.deletable = true := by decide
  have hreach : ReachesIf (threadStep (next (.thenDelete 1 1))) Deletable
      (start (Fin 2) twoThreads) afterPhase :=
    reachesIf_of_run _ (allMeet_of_forall fun e he _ => hflags e he)
      (run_eq_final (by decide +kernel))
  have hcall : threadStep (next (.thenDelete 1 1)) afterPhase (1, .delete) = some afterCall :=
    step_eq_final (by decide +kernel)
  have hdes : Deserted 1 afterPhase := by
    intro j hj
    obtain rfl : j = 0 := by omega
    have hidle : afterPhase.locals 0 = { pc := .idle, results := [false] } := by decide +kernel
    rintro ⟨p, hp⟩
    rw [hidle] at hp
    cases hp
  have hdis : Dismantled 1 (final (threadStep (next (.thenDelete 1 1))) afterCall
      (List.replicate 5 (1, .go))) := Or.inl (by decide +kernel)
  refine ⟨hdis, ((delete_safe_iff (show initializeSynchronizationBarrier 4 1 2
    (Fintype.card (Fin 2)) 1 = some twoThreads from rfl) (by decide)).2 _ _ hreach hcall).mpr hdes _
    ?_ hdis⟩
  have hgo : ∀ e ∈ List.replicate 5 ((1 : Fin 2), Choice.go), e.2.deletable = true := by decide
  exact reachesIf_of_run _ (allMeet_of_forall fun e he _ => hgo e he)
    (run_eq_final (by decide +kernel))

end Delete

end Barrier

end Libuzi
