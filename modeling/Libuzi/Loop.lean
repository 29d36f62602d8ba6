import Mathlib.Data.Nat.Notation

/-!
# While loops

The loop `while (guard) body`, as an imperative language has it: the body either goes
on with a new state or breaks out of the loop with a result, and a loop that is left
because its guard fails ends with the result `done`. `Loop.exec` runs such a loop for
at most `fuel` rounds, so that it computes; `Loop.whileLoop` gives it the value of a
*variant* of the state as fuel.

When every round decreases the variant (`Loop.Decreases`), the fuel is never what ends
the loop: `Loop.whileLoop_eq` is then the defining equation of the loop, in which fuel
does not occur. Proofs that follow a run round by round use its cases
`Loop.whileLoop_next` and `Loop.whileLoop_done`.
-/

namespace Loop

/-- How the body of a loop ends: it goes on, or it breaks out with a result. -/
inductive Flow (σ ρ : Type*) where
  | next (s : σ)
  | stop (s : σ) (r : ρ)

variable {σ ρ : Type*}

/-- At most `fuel` rounds of the loop. -/
def exec (guard : σ → Bool) (body : σ → Flow σ ρ) (done : ρ) : ℕ → σ → σ × ρ
  | 0, s => (s, done)
  | fuel + 1, s =>
    if guard s then
      match body s with
      | .next s' => exec guard body done fuel s'
      | .stop s' r => (s', r)
    else (s, done)

/-- **The loop**, with the value of a variant as fuel. -/
def whileLoop (guard : σ → Bool) (body : σ → Flow σ ρ) (done : ρ) (variant : σ → ℕ) (s : σ) :
    σ × ρ :=
  exec guard body done (variant s) s

/-- The variant is positive where the guard holds, and every round decreases it. -/
structure Decreases (guard : σ → Bool) (body : σ → Flow σ ρ) (variant : σ → ℕ) : Prop where
  pos : ∀ s, guard s = true → 0 < variant s
  lt : ∀ s s', guard s = true → body s = .next s' → variant s' < variant s

variable {guard : σ → Bool} {body : σ → Flow σ ρ} {done : ρ} {variant : σ → ℕ} {s s' : σ} {r : ρ}

/-- A loop that is left in its first round: 1 is a variant of it. -/
theorem decreases_of_stops (h : ∀ s, ∃ s' r, body s = .stop s' r) :
    Decreases guard body fun _ => 1 where
  pos := fun _ _ => Nat.one_pos
  lt := by
    intro s s' _ hb
    obtain ⟨t, r, ht⟩ := h s
    rw [ht] at hb
    cases hb

theorem exec_of_not_guard (hg : guard s = false) (fuel : ℕ) :
    exec guard body done fuel s = (s, done) := by
  cases fuel with
  | zero => rfl
  | succ fuel => rw [exec, if_neg (by rw [hg]; exact Bool.false_ne_true)]

/-- **Any amount of fuel from the variant on gives the same run.** -/
theorem exec_eq_exec (hd : Decreases guard body variant) {f g : ℕ} (hf : variant s ≤ f)
    (hg : variant s ≤ g) : exec guard body done f s = exec guard body done g s := by
  induction f generalizing g s with
  | zero =>
    -- Without fuel the variant is 0, so the guard fails.
    have hs : guard s = false := by
      cases h : guard s with
      | false => rfl
      | true => exact absurd (hd.pos s h) (by omega)
    rw [exec_of_not_guard hs, exec_of_not_guard hs]
  | succ f ih =>
    cases hs : guard s with
    | false => rw [exec_of_not_guard hs, exec_of_not_guard hs]
    | true =>
      have hpos : 0 < variant s := hd.pos s hs
      obtain ⟨g, rfl⟩ : ∃ k, g = k + 1 := ⟨g - 1, by omega⟩
      rw [exec, exec, if_pos hs, if_pos hs]
      cases hb : body s with
      | stop s' r => rfl
      | next s' =>
        have hlt : variant s' < variant s := hd.lt s s' hs hb
        exact ih (by omega) (by omega)

/-- **The defining equation of the loop.** -/
theorem whileLoop_eq (hd : Decreases guard body variant) (s : σ) :
    whileLoop guard body done variant s =
      if guard s then
        match body s with
        | .next s' => whileLoop guard body done variant s'
        | .stop s' r => (s', r)
      else (s, done) := by
  have hfuel : exec guard body done (variant s) s = exec guard body done (variant s + 1) s :=
    exec_eq_exec hd (Nat.le_refl _) (Nat.le_succ _)
  rw [whileLoop, hfuel, exec]
  cases hs : guard s with
  | false => rfl
  | true =>
    rw [if_pos rfl, if_pos rfl]
    cases hb : body s with
    | stop s' r => rfl
    | next s' => exact exec_eq_exec hd (Nat.le_of_lt (hd.lt s s' hs hb)) (Nat.le_refl _)

/-- The loop ends where its guard fails. -/
theorem whileLoop_done (hs : guard s = false) :
    whileLoop guard body done variant s = (s, done) :=
  exec_of_not_guard hs _

/-- A round that goes on. -/
theorem whileLoop_next (hd : Decreases guard body variant) (hs : guard s = true)
    (hb : body s = .next s') :
    whileLoop guard body done variant s = whileLoop guard body done variant s' := by
  rw [whileLoop_eq hd, if_pos hs, hb]

/-- A round that leaves the loop. -/
theorem whileLoop_stop (hd : Decreases guard body variant) (hs : guard s = true)
    (hb : body s = .stop s' r) : whileLoop guard body done variant s = (s', r) := by
  rw [whileLoop_eq hd, if_pos hs, hb]

/-- **The loop comes to an end**: from `s` it is left with the outcome `out` after finitely many
rounds. Nothing is said by it of a loop that goes on forever. -/
inductive Exits (guard : σ → Bool) (body : σ → Flow σ ρ) (done : ρ) : σ → σ × ρ → Prop
  /-- The guard fails. -/
  | done {s : σ} : guard s = false → Exits guard body done s (s, done)
  /-- A round that goes on. -/
  | next {s s' : σ} {out : σ × ρ} : guard s = true → body s = .next s' →
      Exits guard body done s' out → Exits guard body done s out
  /-- A round that leaves the loop. -/
  | stop {s s' : σ} {r : ρ} : guard s = true → body s = .stop s' r →
      Exits guard body done s (s', r)

/-- **A loop with a variant comes to an end**, with the outcome computed. -/
theorem exits_whileLoop (hd : Decreases guard body variant) (s : σ) :
    Exits guard body done s (whileLoop guard body done variant s) := by
  induction hm : variant s using Nat.strongRecOn generalizing s with
  | _ k ih =>
    cases hs : guard s with
    | false =>
      rw [whileLoop_done hs]
      exact .done hs
    | true =>
      cases hb : body s with
      | next s' =>
        rw [whileLoop_next hd hs hb]
        exact .next hs hb (ih _ (hm ▸ hd.lt s s' hs hb) s' rfl)
      | stop s' r =>
        rw [whileLoop_stop hd hs hb]
        exact .stop hs hb

/-- **The loop `for (index = i; index < i + k; index++)`**, whose body either goes on or leaves
with an outcome. -/
def forLoop {ε : Type*} (body : ℕ → σ → σ × Option ε) : ℕ → ℕ → σ → σ × Option ε
  | 0, _, s => (s, none)
  | k + 1, i, s =>
    match body i s with
    | (s', none) => forLoop body k (i + 1) s'
    | (s', some e) => (s', some e)

/-- A round of a `for` loop that goes on. -/
theorem forLoop_next {ε : Type*} {body : ℕ → σ → σ × Option ε} {i : ℕ}
    (hb : body i s = (s', none)) (k : ℕ) :
    forLoop body (k + 1) i s = forLoop body k (i + 1) s' := by
  rw [forLoop, hb]

/-- A round of a `for` loop that leaves it. -/
theorem forLoop_stop {ε : Type*} {body : ℕ → σ → σ × Option ε} {i : ℕ} {e : ε}
    (hb : body i s = (s', some e)) (k : ℕ) : forLoop body (k + 1) i s = (s', some e) := by
  rw [forLoop, hb]

/-- **The invariant rule for a `for` loop that runs through**: what holds before the loop, and is
kept by every round, holds when the index has reached its bound. -/
theorem forLoop_invariant {ε : Type*} {body : ℕ → σ → σ × Option ε} {P : ℕ → σ → Prop} {k i : ℕ}
    (h₀ : P i s) (hstep : ∀ j t, i ≤ j → j < i + k → P j t →
      ∃ t', body j t = (t', none) ∧ P (j + 1) t') :
    ∃ t, forLoop body k i s = (t, none) ∧ P (i + k) t := by
  induction k generalizing i s with
  | zero => exact ⟨s, rfl, h₀⟩
  | succ k ih =>
    obtain ⟨t, hb, ht⟩ := hstep i s (Nat.le_refl i) (by omega) h₀
    obtain ⟨u, hu, hP⟩ := ih ht fun j t hij hj => hstep j t (by omega) (by omega)
    rw [forLoop_next hb]
    exact ⟨u, hu, by rwa [Nat.add_right_comm, Nat.add_assoc] at hP⟩

/-- The body of a loop with its results renamed. -/
def Flow.map {ρ' : Type*} (f : ρ → ρ') : Flow σ ρ → Flow σ ρ'
  | .next s => .next s
  | .stop s r => .stop s (f r)

/-- **A loop whose body has renamed results goes the same way**; the two bodies are compared
only where the guard holds. -/
theorem whileLoop_map {ρ' : Type*} {f : ρ → ρ'} {body' : σ → Flow σ ρ'}
    (h : ∀ s, guard s = true → body' s = (body s).map f) (s : σ) :
    whileLoop guard body' (f done) variant s =
      ((whileLoop guard body done variant s).1, f (whileLoop guard body done variant s).2) := by
  rw [whileLoop, whileLoop]
  generalize variant s = fuel
  induction fuel generalizing s with
  | zero => rfl
  | succ fuel ih =>
    cases hs : guard s with
    | false => rw [exec_of_not_guard hs, exec_of_not_guard hs]
    | true =>
      rw [exec, exec, if_pos hs, if_pos hs, h s hs]
      cases body s with
      | next s' => exact ih s'
      | stop s' r => rfl

end Loop
