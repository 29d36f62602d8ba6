import Mathlib.Data.List.Basic

/-!
# Runs of a transition function

A machine is a partial transition function `step : σ → α → Option σ`: in state
`s` the label `e` leads to `step s e`, and `none` says that the label is not
enabled there. A run is a list of labels, and nothing is asked of the list: the
labels carry every choice of the environment – which thread moves, what a call
is given, what the clock reads – so quantifying over lists of labels is
quantifying over all behaviours.

Two forms of a run are kept side by side.

* `Runs.run` computes. A concrete list of labels is evaluated by it, which is
  what a witness or a counterexample needs.
* `Runs.ReachesIf` is the inductive form, with a condition `ok` that every step
  of the run has to meet in the state it is taken from. Invariants are proved
  along it, one step at a time (`Runs.ReachesIf.invariant`).

`Runs.reaches_of_run` and `Runs.reachesIf_of_run` go from the first to the
second; so does `Runs.reachesIf_of_checked`, for a condition that takes evidence to
check.
-/

namespace Runs

variable {σ α : Type*}

/-- The state a list of labels leads to, if every label is enabled in turn. -/
def run (step : σ → α → Option σ) : σ → List α → Option σ
  | s, [] => some s
  | s, e :: es => (step s e).bind fun s' => run step s' es

/-- **The states reached by a run whose steps all meet `ok`**: the condition is
about the state a step is taken from and the label it is taken with. -/
inductive ReachesIf (step : σ → α → Option σ) (ok : σ → α → Prop) (s₀ : σ) : σ → Prop
  /-- The empty run. -/
  | refl : ReachesIf step ok s₀ s₀
  /-- One more step, which meets the condition. -/
  | tail {s s' : σ} {e : α} : ReachesIf step ok s₀ s → ok s e → step s e = some s' →
      ReachesIf step ok s₀ s'

/-- The states reached by a run, whatever its steps. -/
abbrev Reaches (step : σ → α → Option σ) (s₀ : σ) : σ → Prop :=
  ReachesIf step (fun _ _ => True) s₀

variable {step : σ → α → Option σ} {ok : σ → α → Prop} {s₀ s s' : σ}

@[simp] theorem run_nil : run step s [] = some s := rfl

@[simp] theorem run_cons (e : α) (es : List α) :
    run step s (e :: es) = (step s e).bind fun s' => run step s' es := rfl

/-- The state a run leads to, where it is known to lead to one: a closed term when
the run is a concrete one. -/
def final (step : σ → α → Option σ) (s : σ) (es : List α) : σ := (run step s es).getD s

theorem run_eq_final {es : List α} (h : (run step s es).isSome) :
    run step s es = some (final step s es) := by
  obtain ⟨t, ht⟩ := Option.isSome_iff_exists.mp h
  rw [final, ht, Option.getD_some]

theorem step_eq_final {e : α} (h : (step s e).isSome) : step s e = some (final step s [e]) := by
  obtain ⟨t, ht⟩ := Option.isSome_iff_exists.mp h
  rw [final, run_cons, ht]
  rfl

/-- **The invariant rule**: what holds at the start and is kept by every step
that meets the condition holds in every state reached. -/
theorem ReachesIf.invariant {P : σ → Prop} (h : ReachesIf step ok s₀ s) (h₀ : P s₀)
    (hstep : ∀ t t' e, P t → ok t e → step t e = some t' → P t') : P s := by
  induction h with
  | refl => exact h₀
  | tail _ hok hs ih => exact hstep _ _ _ ih hok hs

/-- An invariant may be asked of every state that a step is taken from. -/
theorem ReachesIf.and_invariant {P : σ → Prop} (h : ReachesIf step ok s₀ s) (h₀ : P s₀)
    (hstep : ∀ t t' e, P t → ok t e → step t e = some t' → P t') :
    ReachesIf step (fun t e => ok t e ∧ P t) s₀ s ∧ P s := by
  induction h with
  | refl => exact ⟨.refl, h₀⟩
  | tail _ hok hs ih => exact ⟨ih.1.tail ⟨hok, ih.2⟩ hs, hstep _ _ _ ih.2 hok hs⟩

theorem ReachesIf.mono {ok' : σ → α → Prop} (h : ReachesIf step ok s₀ s)
    (hok : ∀ t e, ok t e → ok' t e) : ReachesIf step ok' s₀ s := by
  induction h with
  | refl => exact .refl
  | tail _ he hs ih => exact ih.tail (hok _ _ he) hs

theorem ReachesIf.trans {t : σ} (h : ReachesIf step ok s₀ s) (h' : ReachesIf step ok s t) :
    ReachesIf step ok s₀ t := by
  induction h' with
  | refl => exact h
  | tail _ hok hs ih => exact ih.tail hok hs

/-- Every step of a list of labels meets the condition where it is taken. -/
def AllMeet (step : σ → α → Option σ) (ok : σ → α → Prop) : σ → List α → Prop
  | _, [] => True
  | s, e :: es => ok s e ∧ ∀ s' ∈ step s e, AllMeet step ok s' es

instance decidableAllMeet {step : σ → α → Option σ} {ok : σ → α → Prop}
    [∀ s e, Decidable (ok s e)] : (s : σ) → (es : List α) → Decidable (AllMeet step ok s es)
  | _, [] => inferInstanceAs (Decidable True)
  | s, e :: es =>
    have : ∀ s', Decidable (AllMeet step ok s' es) := fun s' => decidableAllMeet s' es
    inferInstanceAs (Decidable (ok s e ∧ ∀ s' ∈ step s e, AllMeet step ok s' es))

/-- A condition on the label alone is checked label by label. -/
theorem allMeet_of_forall {es : List α} (h : ∀ e ∈ es, ∀ t, ok t e) : AllMeet step ok s es := by
  induction es generalizing s with
  | nil => trivial
  | cons e es ih =>
    refine ⟨h e List.mem_cons_self s, fun s' _ => ih fun e' he' => ?_⟩
    exact h e' (List.mem_cons_of_mem e he')

/-- A condition on the label alone, checked along a run, is checked label by label. -/
theorem allMeet_iff_forall {ok : α → Prop} {es : List α} (hrun : run step s es = some s') :
    AllMeet step (fun _ e => ok e) s es ↔ ∀ e ∈ es, ok e := by
  refine ⟨fun h => ?_, fun h => allMeet_of_forall fun e he _ => h e he⟩
  induction es generalizing s with
  | nil => exact fun e he => absurd he List.not_mem_nil
  | cons e es ih =>
    rw [run_cons, Option.bind_eq_some_iff] at hrun
    obtain ⟨t, hst, ht⟩ := hrun
    exact List.forall_mem_cons.mpr ⟨h.1, ih ht (h.2 t hst)⟩

/-- **What each step loses or keeps by itself, the run loses or keeps as a whole**: if `P` holds
after a step exactly when it held before and the step meets the condition, then it holds after
a run exactly when it held before and every step of the run meets the condition. What is
known of every step anyway is `q`. -/
theorem run_iff_allMeet_of {P I : σ → Prop} {q : σ → α → Prop} {es : List α} (hI : I s)
    (hq : AllMeet step q s es)
    (hstep : ∀ t t' e, I t → q t e → step t e = some t' → I t' ∧ (P t' ↔ P t ∧ ok t e))
    (hrun : run step s es = some s') : I s' ∧ (P s' ↔ P s ∧ AllMeet step ok s es) := by
  induction es generalizing s with
  | nil =>
    obtain rfl : s = s' := Option.some.inj hrun
    exact ⟨hI, (and_iff_left trivial).symm⟩
  | cons e es ih =>
    rw [run_cons, Option.bind_eq_some_iff] at hrun
    obtain ⟨t, hst, ht⟩ := hrun
    obtain ⟨hIt, hPt⟩ := hstep s t e hI hq.1 hst
    have hmeet : AllMeet step ok s (e :: es) ↔ ok s e ∧ AllMeet step ok t es := by
      rw [AllMeet, hst]
      exact and_congr_right fun _ => ⟨fun h => h t rfl, fun h t' ht' => by
        obtain rfl := Option.some.inj ht'
        exact h⟩
    obtain ⟨hIs', hPs'⟩ := ih hIt (hq.2 t hst) ht
    exact ⟨hIs', by rw [hPs', hPt, hmeet, and_assoc]⟩

/-- The same where nothing is known of the steps beforehand. -/
theorem run_iff_allMeet {P I : σ → Prop} {es : List α} (hI : I s)
    (hstep : ∀ t t' e, I t → step t e = some t' → I t' ∧ (P t' ↔ P t ∧ ok t e))
    (hrun : run step s es = some s') : P s' ↔ P s ∧ AllMeet step ok s es := by
  have hq : AllMeet step (fun _ _ => True) s es := allMeet_of_forall fun _ _ _ => trivial
  exact (run_iff_allMeet_of hI hq (fun t t' e ht _ hs => hstep t t' e ht hs) hrun).2

/-- A machine whose every label is enabled, as long as an invariant holds, runs through every
list of labels. -/
theorem exists_run {I : σ → Prop} (hI : I s)
    (hstep : ∀ t e, I t → ∃ t', step t e = some t' ∧ I t') (es : List α) :
    ∃ s', run step s es = some s' := by
  induction es generalizing s with
  | nil => exact ⟨s, rfl⟩
  | cons e es ih =>
    obtain ⟨t, hst, hIt⟩ := hstep s e hI
    obtain ⟨s', hs'⟩ := ih hIt
    exact ⟨s', by rw [run_cons, hst, Option.bind_some, hs']⟩

theorem reachesIf_of_run (es : List α) (hok : AllMeet step ok s es)
    (h : run step s es = some s') : ReachesIf step ok s s' := by
  induction es generalizing s with
  | nil =>
    obtain rfl : s = s' := Option.some.inj h
    exact .refl
  | cons e es ih =>
    rw [run_cons, Option.bind_eq_some_iff] at h
    obtain ⟨t, hst, ht⟩ := h
    exact ReachesIf.trans (ReachesIf.refl.tail hok.1 hst) (ih (hok.2 t hst) ht)

theorem reaches_of_run (es : List α) (h : run step s es = some s') : Reaches step s s' :=
  reachesIf_of_run es (allMeet_of_forall fun _ _ _ => trivial) h

section Checked

variable {β : Type*} {check : σ → β → Prop} [∀ s x, Decidable (check s x)] {label : β → α}

/-- A step that brings the evidence for the condition it has to meet, and is checked. -/
def checkedStep (step : σ → α → Option σ) (check : σ → β → Prop) [∀ s x, Decidable (check s x)]
    (label : β → α) (s : σ) (x : β) : Option σ :=
  if check s x then step s (label x) else none

theorem run_of_checked (xs : List β) (h : run (checkedStep step check label) s xs = some s') :
    run step s (xs.map label) = some s' := by
  induction xs generalizing s with
  | nil => exact h
  | cons x xs ih =>
    rw [run_cons, Option.bind_eq_some_iff] at h
    obtain ⟨t, hst, ht⟩ := h
    obtain ⟨-, hs⟩ := Option.ite_none_right_eq_some.mp hst
    rw [List.map_cons, run_cons, hs, Option.bind_some, ih ht]

/-- **A run that brings the evidence for its condition**, where this cannot be decided from the
state and the label alone. -/
theorem reachesIf_of_checked (hcheck : ∀ s x, check s x → ok s (label x)) (xs : List β)
    (h : run (checkedStep step check label) s xs = some s') : ReachesIf step ok s s' := by
  refine (reaches_of_run xs h).invariant (P := ReachesIf step ok s) .refl ?_
  intro t t' x ht _ hstep
  obtain ⟨hx, hs⟩ := Option.ite_none_right_eq_some.mp hstep
  exact ht.tail (hcheck t x hx) hs

end Checked

end Runs
