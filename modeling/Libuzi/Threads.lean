import Libuzi.Runs
import Mathlib.Algebra.BigOperators.Fin
import Mathlib.Algebra.BigOperators.Group.Finset.Piecewise
import Mathlib.Algebra.Order.BigOperators.Group.Finset
import Mathlib.Tactic.Ring

/-!
# Threads over a shared memory

A program for threads `ι` is given by what one thread may do in one atomic step:
`next i a s l` is the shared memory and the private state that thread `i` leaves
behind when it moves from the shared memory `s` and the private state `l`, the
environment having chosen `a`; `none` says that it cannot move – it is blocked,
or the choice does not concern it. A configuration holds one private state for
each thread, a step lets any one thread move, and a run is therefore an arbitrary
interleaving (`Threads.threadStep`).

An invariant of such a program is usually a relation between the shared memory
and *how many* threads stand where. `Threads.total` is that count: the sum over
all threads of a weight read off the private state. One step changes one private
state, so it changes a total by the difference of two weights
(`Threads.total_move`).
-/

namespace Threads

open Runs

variable {ι σ ℓ α : Type*}

/-- A configuration: the shared memory, and the private state of each thread. -/
@[ext] structure Config (ι σ ℓ : Type*) where
  /-- What every thread reads and writes. -/
  shared : σ
  /-- What each thread has to itself. -/
  locals : ι → ℓ

/-- Two threads, numbered `0` and `1`. -/
instance neZeroTwo : NeZero 2 := ⟨two_ne_zero⟩

/-- The steps of thread `i` alone. -/
def alone (next : ι → α → σ → ℓ → Option (σ × ℓ)) (i : ι) (p : σ × ℓ) (a : α) : Option (σ × ℓ) :=
  next i a p.1 p.2

section Step

variable [DecidableEq ι]

/-- The configuration after thread `i` has left behind the shared memory `s` and
the private state `l`. -/
def Config.move (c : Config ι σ ℓ) (i : ι) (s : σ) (l : ℓ) : Config ι σ ℓ where
  shared := s
  locals := Function.update c.locals i l

@[simp] theorem Config.move_shared (c : Config ι σ ℓ) (i : ι) (s : σ) (l : ℓ) :
    (c.move i s l).shared = s := rfl

theorem Config.move_locals (c : Config ι σ ℓ) (i : ι) (s : σ) (l : ℓ) :
    (c.move i s l).locals = Function.update c.locals i l := rfl

@[simp] theorem Config.move_self (c : Config ι σ ℓ) (i : ι) (s : σ) (l : ℓ) :
    (c.move i s l).locals i = l := Function.update_self ..

@[simp] theorem Config.move_of_ne (c : Config ι σ ℓ) {i j : ι} (s : σ) (l : ℓ) (h : j ≠ i) :
    (c.move i s l).locals j = c.locals j := Function.update_of_ne h ..

/-- What holds of every thread after a move holds of the thread that moved, and
of the others as they were. -/
theorem Config.forall_move {c : Config ι σ ℓ} {i : ι} {s : σ} {l : ℓ} {P : ι → ℓ → Prop}
    (hi : P i l) (h : ∀ j, j ≠ i → P j (c.locals j)) : ∀ j, P j ((c.move i s l).locals j) := by
  intro j
  rcases eq_or_ne j i with rfl | hj
  · rwa [Config.move_self]
  · rw [Config.move_of_ne _ _ _ hj]
    exact h j hj

/-- **One step of the whole program**: the thread named by the label moves. -/
def threadStep (next : ι → α → σ → ℓ → Option (σ × ℓ)) (c : Config ι σ ℓ) (e : ι × α) :
    Option (Config ι σ ℓ) :=
  (next e.1 e.2 c.shared (c.locals e.1)).map fun r => c.move e.1 r.1 r.2

variable {next : ι → α → σ → ℓ → Option (σ × ℓ)} {c c₀ c' : Config ι σ ℓ}

/-- What a step of the whole program is, read back. -/
theorem threadStep_eq_some {e : ι × α} :
    threadStep next c e = some c' ↔ ∃ s l, next e.1 e.2 c.shared (c.locals e.1) = some (s, l) ∧
      c' = c.move e.1 s l := by
  rw [threadStep, Option.map_eq_some_iff]
  constructor
  · rintro ⟨⟨s, l⟩, h, rfl⟩
    exact ⟨s, l, h, rfl⟩
  · rintro ⟨s, l, h, rfl⟩
    exact ⟨(s, l), h, rfl⟩

/-- A run goes on with a step of any thread that can move. -/
theorem reachesIf_move {ok : Config ι σ ℓ → ι × α → Prop}
    (h : ReachesIf (threadStep next) ok c₀ c) {i : ι} {a : α} {s : σ} {l : ℓ} (hok : ok c (i, a))
    (hn : next i a c.shared (c.locals i) = some (s, l)) :
    ReachesIf (threadStep next) ok c₀ (c.move i s l) :=
  h.tail hok (threadStep_eq_some.mpr ⟨s, l, hn, rfl⟩)

/-- **The invariant rule for threads**: an invariant is kept by every run when it
is kept by every step of every thread. -/
theorem invariant {ok : Config ι σ ℓ → ι × α → Prop} {P : Config ι σ ℓ → Prop}
    (h : ReachesIf (threadStep next) ok c₀ c) (h₀ : P c₀)
    (hstep : ∀ (d : Config ι σ ℓ) (i : ι) (a : α) (s : σ) (l : ℓ), P d → ok d (i, a) →
      next i a d.shared (d.locals i) = some (s, l) → P (d.move i s l)) : P c := by
  refine h.invariant h₀ fun t t' e ht hok hs => ?_
  obtain ⟨s, l, hn, rfl⟩ := threadStep_eq_some.mp hs
  exact hstep t e.1 e.2 s l ht hok hn

/-! ### One program seen as another -/

variable {σ' ℓ' β : Type*}

/-- The configuration of another program that a configuration stands for. -/
def Config.map (f : σ → σ') (g : ℓ → ℓ') (c : Config ι σ ℓ) : Config ι σ' ℓ' where
  shared := f c.shared
  locals := fun i => g (c.locals i)

theorem Config.map_move (f : σ → σ') (g : ℓ → ℓ') (c : Config ι σ ℓ) (i : ι) (s : σ) (l : ℓ) :
    (c.move i s l).map f g = (c.map f g).move i (f s) (g l) := by
  refine Config.ext rfl (funext fun j => ?_)
  rcases eq_or_ne j i with rfl | hj
  · change g ((c.move j s l).locals j) = _
    rw [Config.move_self, Config.move_self]
  · change g ((c.move i s l).locals j) = _
    rw [Config.move_of_ne _ _ _ hj, Config.move_of_ne _ _ _ hj]
    rfl

variable {next' : ι → β → σ' → ℓ' → Option (σ' × ℓ')} {ok : Config ι σ ℓ → ι × α → Prop}
  {f : σ → σ'} {g : ℓ → ℓ'}

/-- **Simulation, thread by thread**: where each step of one program is a step of the other, by
the same thread, or changes nothing that the other can see, its runs are runs of the other; that
the steps of the other meet a condition may be shown from the run so far. -/
theorem reachesIf_map {ok' : Config ι σ' ℓ' → ι × β → Prop}
    (h : ReachesIf (threadStep next) ok c₀ c)
    (hstep : ∀ (d : Config ι σ ℓ) (i : ι) (a : α) (s : σ) (l : ℓ),
      ReachesIf (threadStep next') ok' (c₀.map f g) (d.map f g) → ok d (i, a) →
      next i a d.shared (d.locals i) = some (s, l) →
      (∃ b, ok' (d.map f g) (i, b) ∧ next' i b (f d.shared) (g (d.locals i)) = some (f s, g l)) ∨
        f s = f d.shared ∧ g l = g (d.locals i)) :
    ReachesIf (threadStep next') ok' (c₀.map f g) (c.map f g) := by
  refine invariant
    (P := fun c => ReachesIf (threadStep next') ok' (c₀.map f g) (c.map f g)) h .refl ?_
  intro d i a s l hd hok hn
  rw [Config.map_move]
  rcases hstep d i a s l hd hok hn with ⟨b, hb, hmove⟩ | ⟨hs, hl⟩
  · exact reachesIf_move (a := b) hd hb hmove
  · -- the other program stays where it is
    have hsame : (d.map f g).move i (f s) (g l) = d.map f g := by
      refine Config.ext hs (funext fun j => ?_)
      rcases eq_or_ne j i with rfl | hj
      · rw [Config.move_self]
        exact hl
      · rw [Config.move_of_ne _ _ _ hj]
    rwa [hsame]

theorem reaches_map (h : ReachesIf (threadStep next) ok c₀ c)
    (hstep : ∀ (d : Config ι σ ℓ) (i : ι) (a : α) (s : σ) (l : ℓ), ok d (i, a) →
      next i a d.shared (d.locals i) = some (s, l) →
      (∃ b, next' i b (f d.shared) (g (d.locals i)) = some (f s, g l)) ∨
        f s = f d.shared ∧ g l = g (d.locals i)) :
    Reaches (threadStep next') (c₀.map f g) (c.map f g) := by
  refine reachesIf_map h fun d i a s l _ hok hn => ?_
  exact (hstep d i a s l hok hn).imp_left fun ⟨b, hb⟩ => ⟨b, trivial, hb⟩

/-! ### One thread alone -/

/-- **What a thread does when it is alone** it can do among the others, as long as they do not
move. -/
theorem reachesIf_alone {ok : Config ι σ ℓ → ι × α → Prop} {ok' : σ × ℓ → α → Prop} {i : ι}
    {p : σ × ℓ} (h : ReachesIf (alone next i) ok' (c.shared, c.locals i) p)
    (hok : ∀ p a, ok' p a → ok (c.move i p.1 p.2) (i, a)) :
    ReachesIf (threadStep next) ok c (c.move i p.1 p.2) := by
  have hidem : ∀ p q : σ × ℓ, (c.move i p.1 p.2).move i q.1 q.2 = c.move i q.1 q.2 := fun p q =>
    Config.ext rfl (Function.update_idem ..)
  induction h with
  | refl =>
    have hsame : c.move i c.shared (c.locals i) = c :=
      Config.ext rfl (Function.update_eq_self i c.locals)
    rw [hsame]
    exact .refl
  | @tail p q a _ hmeets hstep ih =>
    rw [← hidem p q]
    refine reachesIf_move ih (hok p a hmeets) ?_
    rw [Config.move_self]
    exact hstep

end Step

/-! ### Counting threads -/

section Total

variable [Fintype ι]

/-- The sum over all threads of a weight read off the private state. -/
def total (w : ℓ → ℤ) (f : ι → ℓ) : ℤ := ∑ i, w (f i)

variable {w : ℓ → ℤ} {f : ι → ℓ}

/-- **A step of one thread changes a total by the difference of two weights.** -/
theorem total_move [DecidableEq ι] (w : ℓ → ℤ) (c : Config ι σ ℓ) (i : ι) (s : σ) (l : ℓ) :
    total w (c.move i s l).locals = total w c.locals - w (c.locals i) + w l := by
  rw [Config.move_locals]
  have hsplit : ∀ g : ι → ℓ, total w g = w (g i) + ∑ j ∈ Finset.univ.erase i, w (g j) :=
    fun g => (Finset.add_sum_erase _ _ (Finset.mem_univ i)).symm
  have hrest : ∑ j ∈ Finset.univ.erase i, w (Function.update c.locals i l j) =
      ∑ j ∈ Finset.univ.erase i, w (c.locals j) :=
    Finset.sum_congr rfl fun j hj => by rw [Function.update_of_ne (Finset.ne_of_mem_erase hj)]
  rw [hsplit, hsplit c.locals, hrest, Function.update_self]
  ring

theorem total_nonneg (hw : ∀ l, 0 ≤ w l) : 0 ≤ total w f :=
  Finset.sum_nonneg fun _ _ => hw _

/-- One thread's weight is part of the total. -/
theorem le_total (hw : ∀ l, 0 ≤ w l) (i : ι) : w (f i) ≤ total w f :=
  Finset.single_le_sum (fun j _ => hw (f j)) (Finset.mem_univ i)

/-- Two threads' weights are part of the total together. -/
theorem add_le_total (hw : ∀ l, 0 ≤ w l) {i j : ι} (hij : i ≠ j) :
    w (f i) + w (f j) ≤ total w f := by
  classical
  rw [← Finset.sum_pair hij (f := fun k => w (f k))]
  exact Finset.sum_le_sum_of_subset_of_nonneg (Finset.subset_univ _) fun k _ _ => hw (f k)

/-- A total to which only one thread contributes. -/
theorem total_eq_single {i : ι} (h : ∀ j, j ≠ i → w (f j) = 0) : total w f = w (f i) :=
  Finset.sum_eq_single i (fun j _ hj => h j hj) fun hi => absurd (Finset.mem_univ i) hi

/-- **Threads that weigh at most one**, one of them nothing. -/
theorem total_lt_card (hw : ∀ i, w (f i) ≤ 1) {i : ι} (hi : w (f i) < 1) :
    total w f < Fintype.card ι := by
  have hlt : total w f < ∑ _ : ι, (1 : ℤ) :=
    Finset.sum_lt_sum (fun j _ => hw j) ⟨i, Finset.mem_univ i, hi⟩
  rwa [Finset.sum_const, Finset.card_univ, nsmul_one] at hlt

theorem total_eq_zero (h : ∀ i, w (f i) = 0) : total w f = 0 :=
  Finset.sum_eq_zero fun i _ => h i

end Total

end Threads
