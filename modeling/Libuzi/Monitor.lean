import Libuzi.Linear

/-!
# Calls that are made under a lock

A call takes a lock, does its work in several accesses to the memory that the lock protects,
releases the lock and returns. What happens to the lock is the business of a program; this
file is about the rest, for every program whose threads stand at one of four *stages*
(`Monitor.Stage`) and whose steps are among the following (`Monitor.Move`).

| step | stage before | stage after |
|---|---|---|
| the call begins | idle | waiting |
| it has the lock | waiting | inside |
| an access to the memory | inside | inside |
| the last access | inside | done |
| it returns | done | idle |
| any step that concerns neither the memory nor the history | the same | the same |

The work of a call is given access by access (`Monitor.Code`), and it *implements* an operation
of an abstract object when it comes to an end on its own, leaving the memory and returning what
the operation says (`Monitor.Implements`).

If there is never more than one thread inside, such a program is linearizable: the calls take
effect at their last accesses (`Monitor.linearizable`). Nothing is asked of the accesses of a
call by themselves – in between the memory may stand for nothing at all.
-/

namespace Monitor

open Runs Threads Linear

variable {χ σ β O R A ι α S L : Type*}

/-! ### The work of a call -/

/-- **Code under a lock**: what one access leaves behind of the memory, and either the place of
the next access or the result, the environment having chosen `x`. There is none if the access
cannot be made, or not with this choice. -/
abbrev Code (χ β σ R : Type*) := χ → β → σ → Option (σ × (β ⊕ R))

/-- **The code comes to an end when it is alone**, whatever the environment chooses: from a place
or a result, and the memory `s`, to a memory and a result that meet `post`. -/
inductive Ends (code : Code χ β σ R) (post : σ → R → Prop) : β ⊕ R → σ → Prop
  /-- It has come to its end. -/
  | done {r : R} {s : σ} : post s r → Ends code post (.inr r) s
  /-- An access can be made, and every one that can leads on. -/
  | access {b : β} {s : σ} : (∃ x, (code x b s).isSome) →
      (∀ x s' y, code x b s = some (s', y) → Ends code post y s') → Ends code post (.inl b) s

variable {code : Code χ β σ R} {post post' : σ → R → Prop} {b : β} {y : β ⊕ R} {x : χ} {s s' t : σ}
  {r : R}

/-- The code is not stuck. -/
theorem Ends.isSome (h : Ends code post (.inl b) s) : ∃ x, (code x b s).isSome := by
  cases h with
  | access hsome _ => exact hsome

theorem Ends.after (h : Ends code post (.inl b) s) (hx : code x b s = some (s', y)) :
    Ends code post y s' := by
  cases h with
  | access _ hrest => exact hrest x s' y hx

theorem Ends.result (h : Ends code post (.inr r) s) : post s r := by
  cases h with
  | done hpost => exact hpost

/-- An access that leaves the environment no choice, and what comes after it. -/
theorem Ends.of_eq [Nonempty χ] (h : ∀ x, code x b s = some (t, y)) (hrest : Ends code post y t) :
    Ends code post (.inl b) s := by
  refine .access ⟨Classical.arbitrary χ, by rw [h]; rfl⟩ fun x t z hx => ?_
  rw [h] at hx
  cases hx
  exact hrest

theorem Ends.mono (h : Ends code post y s) (hpost : ∀ s r, post s r → post' s r) :
    Ends code post' y s := by
  induction h with
  | done h => exact .done (hpost _ _ h)
  | access hsome _ ih => exact .access hsome ih

/-- **The code implements the operations `apply`**, `rep` being what a memory stands for: from
the place where a call has the lock it comes to an end, and does what the operation does. -/
def Implements (code : Code χ β σ R) (entry : O → β) (apply : O → A → A × R) (rep : σ → A → Prop) :
    Prop :=
  ∀ op s a, rep s a →
    Ends code (fun s' r => r = (apply op a).2 ∧ rep s' (apply op a).1) (.inl (entry op)) s

/-! ### The stages of a call -/

/-- Where a thread stands in a call. -/
inductive Stage (O R β : Type*)
  /-- Outside. -/
  | idle
  /-- The call has begun, and has not got the lock. -/
  | waiting (start : ℕ) (op : O)
  /-- It has the lock, and stands at this place. -/
  | inside (start : ℕ) (op : O) (b : β)
  /-- It has made its last access, and is on its way out. -/
  | done (start : ℕ) (result : R)

/-- The thread has the lock for its call. -/
def Stage.Inside : Stage O R β → Prop
  | .inside _ _ _ => True
  | _ => False

/-- **What a step may be**, seen on the memory and the history, and on the stage of its thread. -/
inductive Move (code : Code χ β σ R) (entry : O → β) :
    Object σ O R → Stage O R β → Object σ O R → Stage O R β → Prop
  /-- The call begins. -/
  | call (m : Object σ O R) (op : O) :
      Move code entry m .idle { m with history := m.history ++ [.call op] }
        (.waiting m.history.length op)
  /-- It has the lock. -/
  | enter (m : Object σ O R) (k : ℕ) (op : O) :
      Move code entry m (.waiting k op) m (.inside k op (entry op))
  /-- An access. -/
  | access (m : Object σ O R) (k : ℕ) (op : O) {x : χ} {b b' : β} {s : σ}
      (h : code x b m.state = some (s, .inl b')) :
      Move code entry m (.inside k op b) { m with state := s } (.inside k op b')
  /-- The last access. -/
  | last (m : Object σ O R) (k : ℕ) (op : O) {x : χ} {b : β} {s : σ} {r : R}
      (h : code x b m.state = some (s, .inr r)) :
      Move code entry m (.inside k op b) { m with state := s } (.done k r)
  /-- The call returns. -/
  | ret (m : Object σ O R) (k : ℕ) (r : R) :
      Move code entry m (.done k r) { m with history := m.history ++ [.ret k r] } .idle
  /-- Something else. -/
  | other (m : Object σ O R) (g : Stage O R β) : Move code entry m g m g

/-! ### Only one thread inside -/

/-- The call of the atomic object that a stage stands for: the accesses so far are none. -/
def Stage.phase : Stage O R β → Phase O R
  | .idle => .idle
  | .waiting k op => .pending k op
  | .inside k op _ => .pending k op
  | .done k r => .applied k r

variable {entry : O → β} {apply : O → A → A × R} {rep : σ → A → Prop}

/-- **The memory and the abstract object**: with nobody inside the memory stands for the object.
Otherwise what is left to be done by the one inside brings it to what the object will be. -/
structure Agree (code : Code χ β σ R) (apply : O → A → A × R) (rep : σ → A → Prop)
    (m : Object σ O R) (stages : ι → Stage O R β) (d : Config ι (Object A O R) (Phase O R)) :
    Prop where
  /-- The histories are the same. -/
  history : d.shared.history = m.history
  /-- Each thread is in the call that its stage says. -/
  phase : ∀ i, d.locals i = (stages i).phase
  /-- With nobody inside. -/
  outside : (∀ i, ¬(stages i).Inside) → rep m.state d.shared.state
  /-- With somebody inside. -/
  inside : ∀ i k op b, stages i = .inside k op b →
    Ends code (fun s r => r = (apply op d.shared.state).2 ∧ rep s (apply op d.shared.state).1)
      (.inl b) m.state

variable [DecidableEq ι] {m m' : Object σ O R} {stages : ι → Stage O R β}
  {d : Config ι (Object A O R) (Phase O R)} {i : ι} {g g' : Stage O R β} {k : ℕ} {op : O}

/-- Only thread `i` has the lock. -/
def Alone (stages : ι → Stage O R β) (i : ι) : Prop := ∀ j, j ≠ i → ¬(stages j).Inside

omit [DecidableEq ι] in
theorem alone_of_inside (hone : ∀ j j', (stages j).Inside → (stages j').Inside → j = j')
    (hi : (stages i).Inside) : Alone stages i :=
  fun j hne hj => hne (hone j i hj hi)

theorem Alone.of_update (h : Alone (Function.update stages i g) i) : Alone stages i := by
  intro j hne
  have hj := h j hne
  rwa [Function.update_of_ne hne] at hj

/-- The other threads being outside, what is said of those inside is about thread `i`. -/
theorem Alone.forall_inside (h : Alone stages i) {P : ℕ → O → β → Prop}
    (hi : ∀ k op b, g = .inside k op b → P k op b) :
    ∀ j k op b, Function.update stages i g j = .inside k op b → P k op b := by
  intro j k op b hj
  rcases eq_or_ne j i with rfl | hne
  · rw [Function.update_self] at hj
    exact hi k op b hj
  · rw [Function.update_of_ne hne] at hj
    exact absurd (hj ▸ trivial) (h j hne)

theorem not_inside_update (hg : g'.Inside) : ¬∀ j, ¬(Function.update stages i g' j).Inside := by
  intro h
  have hi := h i
  rw [Function.update_self] at hi
  exact hi hg

/-- The phases after a step of both programs. -/
theorem Agree.phase_move (h : Agree code apply rep m stages d) (o : Object A O R) :
    ∀ j, (d.move i o g.phase).locals j = (Function.update stages i g j).phase := by
  intro j
  rcases eq_or_ne j i with rfl | hj
  · rw [Config.move_self, Function.update_self]
  · rw [Config.move_of_ne _ _ _ hj, Function.update_of_ne hj, h.phase]

/-- The phases after a step that the atomic object does not make. -/
theorem Agree.phase_stay (h : Agree code apply rep m stages d)
    (hg : g.phase = (stages i).phase) : ∀ j, d.locals j = (Function.update stages i g j).phase := by
  intro j
  rcases eq_or_ne j i with rfl | hj
  · rw [Function.update_self, hg, h.phase]
  · rw [Function.update_of_ne hj, h.phase]

/-- An event of the history does not concern the memory: a thread that is outside stays there. -/
theorem Agree.event (h : Agree code apply rep m stages d) (e : Event O R)
    (hi : ¬(stages i).Inside) (hg : ¬g.Inside) :
    Agree code apply rep { m with history := m.history ++ [e] } (Function.update stages i g)
      (d.move i { d.shared with history := d.shared.history ++ [e] } g.phase) := by
  refine ⟨?_, h.phase_move _, fun hno => h.outside fun j => ?_, fun j k op b hj => ?_⟩
  · rw [Config.move_shared, h.history]
  · rcases eq_or_ne j i with rfl | hne
    · exact hi
    · have hj := hno j
      rwa [Function.update_of_ne hne] at hj
  · rcases eq_or_ne j i with rfl | hne
    · rw [Function.update_self] at hj
      exact absurd (hj ▸ trivial) hg
    · rw [Function.update_of_ne hne] at hj
      exact h.inside j k op b hj

/-- A thread gets the lock: the memory stands for the object, and the code does the rest. -/
theorem Agree.enter (himpl : Implements code entry apply rep)
    (h : Agree code apply rep m stages d) (hi : stages i = .waiting k op)
    (halone : Alone stages i) :
    Agree code apply rep m (Function.update stages i (.inside k op (entry op))) d := by
  have hrep : rep m.state d.shared.state := by
    refine h.outside fun j => ?_
    rcases eq_or_ne j i with rfl | hne
    · rw [hi]
      exact id
    · exact halone j hne
  refine ⟨h.history, h.phase_stay (by rw [hi]; rfl), fun hno => ?_, ?_⟩
  · exact absurd hno (not_inside_update trivial)
  · refine halone.forall_inside fun k' op' b hb => ?_
    cases hb
    exact himpl op m.state d.shared.state hrep

/-- A thread makes an access. -/
theorem Agree.access (h : Agree code apply rep m stages d) (hi : stages i = .inside k op b)
    (halone : Alone stages i) {b' : β} (hcode : code x b m.state = some (s, .inl b')) :
    Agree code apply rep { m with state := s } (Function.update stages i (.inside k op b')) d := by
  refine ⟨h.history, h.phase_stay (by rw [hi]; rfl), fun hno => ?_, ?_⟩
  · exact absurd hno (not_inside_update trivial)
  · refine halone.forall_inside fun k' op' b'' hb => ?_
    cases hb
    exact (h.inside i k op b hi).after hcode

/-- **A thread makes its last access**, and this is when the call takes effect. -/
theorem Agree.last (h : Agree code apply rep m stages d) (hi : stages i = .inside k op b)
    (halone : Alone stages i) (hcode : code x b m.state = some (s, .inr r)) :
    r = (apply op d.shared.state).2 ∧
      Agree code apply rep { m with state := s } (Function.update stages i (.done k r))
        (d.move i { d.shared with state := (apply op d.shared.state).1 } (.applied k r)) := by
  obtain ⟨hr, hrep⟩ := ((h.inside i k op b hi).after hcode).result
  refine ⟨hr, h.history, h.phase_move (g := .done k r) _, fun _ => hrep, ?_⟩
  refine halone.forall_inside fun k' op' b'' hb => ?_
  cases hb

/-- **A step of the program is a step of the atomic object**, or none. -/
theorem Agree.step (himpl : Implements code entry apply rep)
    (h : Agree code apply rep m stages d) (hi : stages i = g) (hmove : Move code entry m g m' g')
    (hone : ∀ j j', (stages j).Inside → (stages j').Inside → j = j')
    (hone' : ∀ j j', (Function.update stages i g' j).Inside →
      (Function.update stages i g' j').Inside → j = j') :
    ∃ d', (d' = d ∨ ∃ a, threadStep (atomicStep apply) d (i, a) = some d') ∧
      Agree code apply rep m' (Function.update stages i g') d' := by
  have hphase : d.locals i = g.phase := hi ▸ h.phase i
  cases hmove with
  | call op =>
    refine ⟨_, .inr ⟨.call op, threadStep_eq_some.mpr ⟨_, _, ?_, rfl⟩⟩,
      h.event (.call op) (by rw [hi]; exact id) id⟩
    rw [hphase, ← h.history]
    rfl
  | enter k op =>
    have halone : Alone stages i :=
      (alone_of_inside hone' (by rw [Function.update_self]; trivial)).of_update
    exact ⟨d, .inl rfl, h.enter himpl hi halone⟩
  | access k op hcode =>
    exact ⟨d, .inl rfl, h.access hi (alone_of_inside hone (by rw [hi]; trivial)) hcode⟩
  | last k op hcode =>
    obtain ⟨rfl, hagree⟩ := h.last hi (alone_of_inside hone (by rw [hi]; trivial)) hcode
    refine ⟨_, .inr ⟨.go, threadStep_eq_some.mpr ⟨_, _, ?_, rfl⟩⟩, hagree⟩
    rw [hphase]
    rfl
  | ret k r =>
    refine ⟨_, .inr ⟨.go, threadStep_eq_some.mpr ⟨_, _, ?_, rfl⟩⟩,
      h.event (.ret k r) (by rw [hi]; exact id) id⟩
    rw [hphase]
    rfl
  | other =>
    rw [← hi, Function.update_eq_self]
    exact ⟨d, .inl rfl, h⟩

/-! ### Programs -/

variable {next : ι → α → S → L → Option (S × L)} {ok : Config ι S L → ι × α → Prop}
  {view : S → Object σ O R} {stage : L → Stage O R β} {c c₀ : Config ι S L} {a₀ : A}

/-- **What is known of a program in every state it reaches**: its history is linearizable, the
memory stands for the object when nobody is inside, and whoever is inside can go on. -/
structure Sound (code : Code χ β σ R) (apply : O → A → A × R) (rep : σ → A → Prop) (a₀ : A)
    (m : Object σ O R) (stages : ι → Stage O R β) : Prop where
  /-- The calls so far are the operations of the object in some order. -/
  linear : ∃ order a, IsLinearization apply a₀ m.history a order ∧ HasPoints m.history order ∧
    ((∀ i, ¬(stages i).Inside) → rep m.state a)
  /-- Whoever is inside comes to an end, and no access fails on the way. -/
  goes : ∀ i k op b, stages i = .inside k op b → Ends code (fun _ _ => True) (.inl b) m.state

/-- **A program whose threads are never inside together is linearizable.** -/
theorem linearizable (himpl : Implements code entry apply rep)
    (h : ReachesIf (threadStep next) ok c₀ c)
    (hhistory : (view c₀.shared).history = []) (hrep : rep (view c₀.shared).state a₀)
    (hidle : ∀ i, stage (c₀.locals i) = .idle)
    (hone : ∀ d, ReachesIf (threadStep next) ok c₀ d → ∀ i j, (stage (d.locals i)).Inside →
      (stage (d.locals j)).Inside → i = j)
    (hmove : ∀ (d : Config ι S L) i a s l, ok d (i, a) →
      next i a d.shared (d.locals i) = some (s, l) →
      Move code entry (view d.shared) (stage (d.locals i)) (view s) (stage l)) :
    Sound code apply rep a₀ (view c.shared) fun i => stage (c.locals i) := by
  have hagree : ∃ d, Reaches (threadStep (atomicStep apply)) (Linear.start ι a₀) d ∧
      Agree code apply rep (view c.shared) (fun i => stage (c.locals i)) d := by
    induction h with
    | refl =>
      refine ⟨_, .refl, hhistory.symm, fun i => ?_, fun _ => hrep, fun i k op b hi => ?_⟩
      · rw [hidle]
        rfl
      · rw [hidle] at hi
        cases hi
    | @tail c c' e hc hok hstep ih =>
      obtain ⟨d, hd, hagree⟩ := ih
      obtain ⟨i, a⟩ := e
      have hc' := hc.tail hok hstep
      obtain ⟨s, l, hn, rfl⟩ := threadStep_eq_some.mp hstep
      have hstages : (fun j => stage ((c.move i s l).locals j)) =
          Function.update (fun j => stage (c.locals j)) i (stage l) := by
        funext j
        rcases eq_or_ne j i with rfl | hne
        · rw [Config.move_self, Function.update_self]
        · rw [Config.move_of_ne _ _ _ hne, Function.update_of_ne hne]
      have hone' := hone _ hc'
      rw [hstages]
      obtain ⟨d', hstep', hagree'⟩ := hagree.step himpl rfl (hmove c i a s l hok hn)
        (hone c hc) (fun j j' => by
          rw [← congrFun hstages j, ← congrFun hstages j']
          exact hone' j j')
      refine ⟨d', ?_, hagree'⟩
      rcases hstep' with rfl | ⟨a', ha'⟩
      · exact hd
      · exact hd.tail trivial ha'
  obtain ⟨d, hd, hagree⟩ := hagree
  obtain ⟨order, hlin, hpoints⟩ := atomic_linearizable hd
  rw [hagree.history] at hlin hpoints
  refine ⟨⟨order, _, hlin, hpoints, hagree.outside⟩, fun i k op b hi => ?_⟩
  exact (hagree.inside i k op b hi).mono fun _ _ _ => trivial

end Monitor
