import Libuzi.Linear
import Libuzi.Interlocked
import Mathlib.Tactic.IntervalCases

/-!
# The interlocked operations, called by several threads

`InterlockedExchange`, `InterlockedIncrement`, `InterlockedDecrement`,
`InterlockedExchangeAdd` and `InterlockedCompareExchange` of `libuzi/interlocked.c`, applied
by any number of threads to one `LONG`. Each plain load and each `__sync` builtin is an
atomic step.

| function | atomic steps |
|---|---|
| `InterlockedIncrement` | `__sync_add_and_fetch` |
| `InterlockedDecrement` | `__sync_sub_and_fetch` |
| `InterlockedExchangeAdd` | `__sync_fetch_and_add` |
| `InterlockedCompareExchange` | `__sync_val_compare_and_swap` |
| `InterlockedExchange` | a load of `*Target`, `__sync_val_compare_and_swap` |

All but the last are one step each. An exchange compares the word with what it has loaded
and stores nothing when another thread has changed it in between, but returns all the same:
the value is lost (`exchange_not_atomic`). As long as no compare-and-swap of an exchange
fails in this way, the five functions are those of an atomic object, and every history of
calls is linearizable (`exchange_atomic`).
-/

namespace Libuzi

open Runs Threads Linear

namespace Access

/-! ### The model -/

/-- `LONG`: an integer of 32 bits, which wraps around. -/
abbrev LONG := BitVec 32

/-- `__sync_add_and_fetch`: the word afterwards, and the value of the builtin. -/
def syncAddAndFetch (word value : LONG) : LONG × LONG := (word + value, word + value)

/-- `__sync_sub_and_fetch`. -/
def syncSubAndFetch (word value : LONG) : LONG × LONG := (word - value, word - value)

/-- `__sync_fetch_and_add`. -/
def syncFetchAndAdd (word value : LONG) : LONG × LONG := (word + value, word)

/-- `__sync_val_compare_and_swap`. -/
def syncValCompareAndSwap (word oldval newval : LONG) : LONG × LONG :=
  (if word = oldval then newval else word, word)

/-- A call, with its arguments. -/
inductive Operation
  /-- `InterlockedIncrement`. -/
  | increment
  /-- `InterlockedDecrement`. -/
  | decrement
  /-- `InterlockedExchange`. -/
  | exchange (value : LONG)
  /-- `InterlockedExchangeAdd`. -/
  | exchangeAdd (value : LONG)
  /-- `InterlockedCompareExchange`. -/
  | compareExchange (exchange comperand : LONG)
  deriving DecidableEq

/-- The word the calls are applied to, and the history of the run. -/
abbrev Shared := Object LONG Operation LONG

/-- Where a thread stands, with the values it has in its registers. -/
inductive Local
  /-- Outside the five functions. -/
  | idle
  /-- Before the first access to the word. -/
  | enter (start : ℕ) (op : Operation)
  /-- In `InterlockedExchange`, between the load and the builtin. -/
  | loaded (start : ℕ) (value old : LONG)
  /-- After the last access, with the result. -/
  | leave (start : ℕ) (result : LONG)
  deriving DecidableEq

/-- After a builtin: the word is `r.1`, and `r.2` is returned. -/
def Shared.builtin (s : Shared) (k : ℕ) (r : LONG × LONG) : Shared × Local :=
  ({ s with state := r.1 }, .leave k r.2)

/-- **One atomic step of one of the five functions.** -/
def accessStep {ι : Type*} (_ : ι) (a : Choice Operation) (s : Shared) (l : Local) :
    Option (Shared × Local) :=
  match l, a with
  | .idle, .call op =>
    some ({ s with history := s.history ++ [.call op] }, .enter s.history.length op)
  | .enter k .increment, .go => some (Shared.builtin s k (syncAddAndFetch s.state 1))
  | .enter k .decrement, .go => some (Shared.builtin s k (syncSubAndFetch s.state 1))
  -- `*Target` is an argument of the builtin, and is loaded before it
  | .enter k (.exchange value), .go => some (s, .loaded k value s.state)
  | .loaded k value old, .go =>
    some (Shared.builtin s k (syncValCompareAndSwap s.state old value))
  | .enter k (.exchangeAdd value), .go =>
    some (Shared.builtin s k (syncFetchAndAdd s.state value))
  | .enter k (.compareExchange exchange comperand), .go =>
    some (Shared.builtin s k (syncValCompareAndSwap s.state comperand exchange))
  | .leave k r, .go => some ({ s with history := s.history ++ [.ret k r] }, .idle)
  | _, _ => none

/-- The start: the word holds `w`, and no thread is in a call. -/
def start (ι : Type*) (w : LONG) : Config ι Shared Local where
  shared := ⟨w, []⟩
  locals := fun _ => .idle

/-! ### What the calls promise -/

/-- What an operation does when it is alone: the word afterwards, and the result. -/
def sequential : Operation → LONG → LONG × LONG
  | .increment, w => (w + 1, w + 1)
  | .decrement, w => (w - 1, w - 1)
  | .exchange value, w => (value, w)
  | .exchangeAdd value, w => (w + value, w)
  | .compareExchange exchange comperand, w => interlockedCompareExchange w exchange comperand

/-- **The calls are atomic**: the history, which has led from the word `w` to the word `w'`, has a
linearization whose calls have their moments, and every exchange that has returned stands in
it where the word is what the exchange returned, and becomes the value exchanged. -/
def IsAtomic (w : LONG) (history : List (Event Operation LONG)) (w' : LONG) : Prop :=
  ∃ order, IsLinearization sequential w history w' order ∧ HasPoints history order ∧
    ∀ k value r, history[k]? = some (.call (.exchange value)) → Event.ret k r ∈ history →
      ∃ before after, order = before ++ ⟨k, .exchange value, r⟩ :: after ∧
        Replays sequential w before r ∧ Replays sequential value after w'

/-- A compare-and-swap of an exchange finds the word as it was loaded, or finds it to be already
what is to be stored. -/
def FindsLoaded (s : Shared) : Local → Prop
  | .loaded _ value old => s.state = old ∨ s.state = value
  | _ => True

instance decidableFindsLoaded (s : Shared) : (l : Local) → Decidable (FindsLoaded s l)
  | .loaded _ value old => inferInstanceAs (Decidable (s.state = old ∨ s.state = value))
  | .idle | .enter _ _ | .leave _ _ => inferInstanceAs (Decidable True)

variable {ι : Type*}

/-- **The condition on a step**, which is about the thread that moves. -/
def LoadStands (c : Config ι Shared Local) (e : ι × Choice Operation) : Prop :=
  FindsLoaded c.shared (c.locals e.1)

instance (c : Config ι Shared Local) (e : ι × Choice Operation) : Decidable (LoadStands c e) :=
  inferInstanceAs (Decidable (FindsLoaded c.shared (c.locals e.1)))

/-! ### Each call is a call of an atomic object -/

/-- Where a thread stands in the call of the atomic object: the load has no effect. -/
def Local.phase : Local → Phase Operation LONG
  | .idle => .idle
  | .enter k op => .pending k op
  | .loaded k value _ => .pending k (.exchange value)
  | .leave k r => .applied k r

/-- **The effect of an exchange**, where its compare-and-swap does not fail for a change of the
word. -/
theorem syncValCompareAndSwap_exchange {w old value : LONG} (h : w = old ∨ w = value) :
    syncValCompareAndSwap w old value = sequential (.exchange value) w := by
  rw [syncValCompareAndSwap, sequential]
  rcases h with rfl | rfl
  · rw [if_pos rfl]
  · rw [ite_self]

/-- Where it does fail, the exchange returns the word and leaves it. -/
theorem exchange_lost {w old value : LONG} (h : ¬(w = old ∨ w = value)) :
    syncValCompareAndSwap w old value = (w, w) ∧ w ≠ (sequential (.exchange value) w).1 := by
  obtain ⟨hold, hvalue⟩ := not_or.mp h
  exact ⟨by rw [syncValCompareAndSwap, if_neg hold], hvalue⟩

/-- **Each step is a step of the atomic object**, or is the load of an exchange. -/
theorem accessStep_atomic {i : ι} {a : Choice Operation} {s s' : Shared} {l l' : Local}
    (hok : FindsLoaded s l) (hs : accessStep i a s l = some (s', l')) :
    (∃ b, atomicStep sequential i b s l.phase = some (s', l'.phase)) ∨
      s' = s ∧ l'.phase = l.phase := by
  cases l with
  | idle =>
    cases a with
    | call op =>
      obtain ⟨rfl, rfl⟩ := Prod.mk.inj (Option.some.inj hs)
      exact .inl ⟨.call op, rfl⟩
    | go => cases hs
  | enter k op =>
    cases a with
    | call op' => cases op <;> cases hs
    | go =>
      cases op with
      | exchange value =>
        obtain ⟨rfl, rfl⟩ := Prod.mk.inj (Option.some.inj hs)
        exact .inr ⟨rfl, rfl⟩
      | _ =>
        obtain ⟨rfl, rfl⟩ := Prod.mk.inj (Option.some.inj hs)
        exact .inl ⟨.go, rfl⟩
  | loaded k value old =>
    cases a with
    | call op => cases hs
    | go =>
      -- the compare-and-swap stands for the whole exchange
      have heffect := syncValCompareAndSwap_exchange hok
      obtain ⟨rfl, rfl⟩ := Prod.mk.inj (Option.some.inj hs)
      refine .inl ⟨.go, ?_⟩
      rw [heffect]
      rfl
  | leave k r =>
    cases a with
    | call op => cases hs
    | go =>
      obtain ⟨rfl, rfl⟩ := Prod.mk.inj (Option.some.inj hs)
      exact .inl ⟨.go, rfl⟩

/-- **The five functions are atomic**, in every run of any number of threads in which each
compare-and-swap of an exchange finds the word as it was loaded, or finds it to be already
what is to be stored. -/
theorem exchange_atomic [DecidableEq ι] (w : LONG) {c : Config ι Shared Local}
    (h : ReachesIf (threadStep accessStep) LoadStands (start ι w) c) :
    IsAtomic w c.shared.history c.shared.state := by
  have hobject : Reaches (threadStep (atomicStep sequential))
      (Linear.start ι w) (c.map id Local.phase) :=
    reaches_map (f := id) (g := Local.phase) h fun d i a s l hok hn => accessStep_atomic hok hn
  obtain ⟨order, hlin, hpoints⟩ := atomic_linearizable hobject
  refine ⟨order, hlin, hpoints, fun k value r hcall hret => ?_⟩
  -- an exchange that has returned has its place in the order
  obtain ⟨before, after, u, hsplit, hbefore, hresult, hafter⟩ :=
    hlin.replays.at_entry (hlin.mem_of_ret hcall hret)
  obtain rfl : u = r := hresult
  exact ⟨before, after, hsplit, hbefore, hafter⟩

/-- A run that meets the condition: thread 0 exchanges 0 for 5 while thread 1 increments, the
increment coming first. -/
def exchangeLast : List (Bool × Choice Operation) :=
  [(false, .call (.exchange 5)), (true, .call .increment), (true, .go), (false, .go),
    (false, .go), (true, .go), (false, .go)]

theorem exchange_atomic_exchangeLast :
    run (threadStep accessStep) (start Bool 0) exchangeLast =
        some (final (threadStep accessStep) (start Bool 0) exchangeLast) ∧
      IsAtomic 0 (final (threadStep accessStep) (start Bool 0) exchangeLast).shared.history 5 := by
  have hrun : run (threadStep accessStep) (start Bool 0) exchangeLast =
      some (final (threadStep accessStep) (start Bool 0) exchangeLast) := run_eq_final (by decide)
  exact ⟨hrun, exchange_atomic 0 (reachesIf_of_run exchangeLast (by decide) hrun)⟩

/-! ### An exchange that is lost -/

/-- The increment comes between the load and the compare-and-swap. -/
def exchangeLost : List (Bool × Choice Operation) :=
  [(false, .call (.exchange 5)), (true, .call .increment), (false, .go), (true, .go),
    (false, .go), (true, .go), (false, .go)]

/-- **An exchange may be lost**: 0 is incremented and exchanged for 5, both calls return 1, and
the word is 1 at the end. -/
theorem exchange_not_atomic : ∃ c : Config Bool Shared Local,
    Reaches (threadStep accessStep) (start Bool 0) c ∧ (∀ i, c.locals i = .idle) ∧
      ¬IsAtomic 0 c.shared.history c.shared.state := by
  have hrun : run (threadStep accessStep) (start Bool 0) exchangeLost =
      some (final (threadStep accessStep) (start Bool 0) exchangeLost) := run_eq_final (by decide)
  refine ⟨_, reaches_of_run _ hrun, by decide, ?_⟩
  have hhistory : (final (threadStep accessStep) (start Bool 0) exchangeLost).shared.history =
      [.call (.exchange 5), .call .increment, .ret 1 1, .ret 0 1] := by decide
  have hword : (final (threadStep accessStep) (start Bool 0) exchangeLost).shared.state = 1 := by
    decide
  rw [hhistory, hword]
  rintro ⟨order, hlin, -, hexchange⟩
  obtain ⟨before, after, rfl, -, hafter⟩ := hexchange 0 5 1 rfl (by decide)
  have hincrement : ⟨1, .increment, 1⟩ ∈ before ++ ⟨0, .exchange 5, 1⟩ :: after :=
    hlin.mem_of_ret rfl (by decide)
  cases after with
  | nil => exact absurd (show (5 : LONG) = 1 from hafter) (by decide)
  | cons e es =>
    -- what follows the exchange is the increment, which finds 5 and does not return 1
    have he : e ∈ before ++ ⟨0, .exchange 5, 1⟩ :: e :: es := by simp
    have hcall := hlin.called e he
    have hne : e.start ≠ 0 := by
      intro h0
      have hnodup := hlin.once
      rw [List.map_append, List.nodup_append] at hnodup
      have := hnodup.2.1
      simp [h0] at this
    have hlt : e.start < 4 := (List.getElem?_eq_some_iff.mp hcall).1
    have h1 : e.start = 1 := by
      rcases e with ⟨k, op, r⟩
      simp only at hcall hne hlt ⊢
      interval_cases k
      · exact absurd rfl hne
      · rfl
      · cases hcall
      · cases hcall
    have heq := hlin.eq_of_start he hincrement h1
    obtain ⟨hresult, -⟩ := hafter
    rw [heq] at hresult
    exact absurd hresult (by decide)

end Access

end Libuzi
