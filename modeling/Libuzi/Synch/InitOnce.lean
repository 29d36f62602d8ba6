import Libuzi.Threads
import Libuzi.Interlocked

/-!
# One-time initialisation

`winpr_InitOnceExecuteOnce` of `libuzi/init.c`, run by any number of threads on
one `INIT_ONCE`. The word `Ptr` is `0` before the first call, `1` while an
initialiser runs and `2` once one has succeeded; a failed initialiser puts it
back to `0`, and the next caller tries again.

A call reads `Ptr` and, finding `0`, tries to move it to `1` by a
compare-exchange of its own: between the two steps any number of other calls may
have run an initialiser and failed. Whether `InitFn` succeeds is a choice of the
environment (`InitOnce.Choice.finish`), made when it returns.

What the calls promise is stated on the *history* of the run
(`InitOnce.Event`), a ghost list with the latest event first. Everything follows
from `InitOnce.Inv`: at any moment either no thread is between a successful
compare-exchange and its final store, and `Ptr` alone says whether an
initialiser has succeeded; or exactly one is, `Ptr` is `1`, and the place where
that thread stands says it.
-/

namespace Libuzi

open Runs Threads

namespace InitOnce

/-- What a run of the program leaves in its history. A call is named by its
thread and its number among that thread's calls. -/
inductive Event (ι : Type*)
  /-- `InitFn` is invoked by a call. -/
  | invoke (i : ι) (k : ℕ)
  /-- The invocation of `InitFn` by a call returns. -/
  | complete (i : ι) (k : ℕ) (ok : Bool)
  /-- A call returns. -/
  | ret (i : ι) (k : ℕ) (b : Bool)
  deriving DecidableEq

/-- The shared memory: the `INIT_ONCE`, and the history of the run. -/
structure Shared (ι : Type*) where
  /-- `InitOnce->Ptr`. -/
  ptr : ℕ
  /-- The events so far, the latest first. -/
  history : List (Event ι)
  deriving DecidableEq

/-- Where a thread stands in `winpr_InitOnceExecuteOnce`. -/
inductive Pc
  /-- Outside the function. -/
  | idle
  /-- At the head of the `for (;;)`, about to read `Ptr`. -/
  | read
  /-- In `case 0`, about to compare-exchange. -/
  | cas
  /-- The compare-exchange succeeded; about to call `InitFn`. -/
  | invoke
  /-- Inside `InitFn`. -/
  | running
  /-- `InitFn` succeeded; about to store `2`. -/
  | storeDone
  /-- `InitFn` failed; about to store `0`. -/
  | storeReset
  /-- In the `Sleep(5)` at the end of the loop body. -/
  | sleep
  deriving DecidableEq

/-- The private state of a thread. -/
structure Local where
  /-- Where it stands. -/
  pc : Pc
  /-- How many calls it has begun. -/
  calls : ℕ
  deriving DecidableEq

/-- What the environment chooses at a step. -/
inductive Choice
  /-- Begin a call. -/
  | call
  /-- Let the call go on. -/
  | go
  /-- Let `InitFn` return, with this result. -/
  | finish (ok : Bool)
  deriving DecidableEq

variable {ι : Type*}

/-- Add an event to the history. -/
def Shared.emit (s : Shared ι) (e : Event ι) : Shared ι := { s with history := e :: s.history }

/-- Stay in the call and go on at another place. -/
def Local.goto (l : Local) (pc : Pc) : Local := { l with pc := pc }

/-- Return from the call. -/
def returns (i : ι) (b : Bool) (s : Shared ι) (l : Local) : Shared ι × Local :=
  (s.emit (.ret i l.calls b), l.goto .idle)

/-- **One step of `winpr_InitOnceExecuteOnce`.** -/
def initOnceExecuteOnce (i : ι) (a : Choice) (s : Shared ι) (l : Local) :
    Option (Shared ι × Local) :=
  match l.pc, a with
  | .idle, .call => some (s, { pc := .read, calls := l.calls + 1 })
  | .read, .go =>
    match s.ptr &&& 3 with
    | 2 => some (returns i true s l)
    | 0 => some (s, l.goto .cas)
    | 1 => some (s, l.goto .sleep)
    | _ => some (returns i false s l)
  | .cas, .go =>
    let r := interlockedCompareExchange s.ptr 1 0
    -- an old value other than `0`: some other thread was faster
    some ({ s with ptr := r.1 }, l.goto (if r.2 ≠ 0 then .sleep else .invoke))
  | .invoke, .go => some (s.emit (.invoke i l.calls), l.goto .running)
  | .running, .finish ok =>
    some (s.emit (.complete i l.calls ok), l.goto (if ok then .storeDone else .storeReset))
  | .storeDone, .go => some (returns i true { s with ptr := 2 } l)
  | .storeReset, .go => some (returns i false { s with ptr := 0 } l)
  | .sleep, .go => some (s, l.goto .read)
  | _, _ => none

/-- The start: `INIT_ONCE_STATIC_INIT`, and every thread outside the function. -/
def start (ι : Type*) : Config ι (Shared ι) Local where
  shared := { ptr := 0, history := [] }
  locals := fun _ => { pc := .idle, calls := 0 }

/-! ### What the history says -/

/-- Some invocation has completed successfully. -/
def Succeeded (h : List (Event ι)) : Prop := ∃ i k, Event.complete i k true ∈ h

/-- The number of invocations of `InitFn` so far. -/
def invocations : List (Event ι) → ℕ
  | [] => 0
  | .invoke _ _ :: h => invocations h + 1
  | _ :: h => invocations h

/-- The number of invocations of `InitFn` that have failed so far. -/
def failures : List (Event ι) → ℕ
  | [] => 0
  | .complete _ _ false :: h => failures h + 1
  | _ :: h => failures h

/-- **What an event may follow**: an invocation no success, a return of `TRUE`
some success, a return of `FALSE` the failure of the call's own invocation. -/
def MayFollow (h : List (Event ι)) : Event ι → Prop
  | .invoke _ _ => ¬Succeeded h
  | .complete _ _ _ => True
  | .ret _ _ true => Succeeded h
  | .ret i k false => .complete i k false ∈ h

/-- Every event of a history may follow the events before it. -/
def Lawful : List (Event ι) → Prop
  | [] => True
  | e :: h => MayFollow h e ∧ Lawful h

/-- A lawful history is lawful at each of its events. -/
theorem Lawful.mayFollow {pre post : List (Event ι)} {e : Event ι}
    (h : Lawful (post ++ e :: pre)) : MayFollow pre e := by
  induction post with
  | nil => exact h.1
  | cons f post ih => exact ih h.2

@[simp] theorem succeeded_nil : ¬Succeeded ([] : List (Event ι)) := by
  rintro ⟨i, k, h⟩
  exact absurd h List.not_mem_nil

theorem succeeded_cons {e : Event ι} {h : List (Event ι)} :
    Succeeded (e :: h) ↔ (∃ i k, e = .complete i k true) ∨ Succeeded h := by
  simp only [Succeeded, List.mem_cons]
  constructor
  · rintro ⟨i, k, he | hh⟩
    · exact Or.inl ⟨i, k, he.symm⟩
    · exact Or.inr ⟨i, k, hh⟩
  · rintro (⟨i, k, rfl⟩ | ⟨i, k, hh⟩)
    · exact ⟨i, k, Or.inl rfl⟩
    · exact ⟨i, k, Or.inr hh⟩

@[simp] theorem succeeded_invoke {i : ι} {k : ℕ} {h : List (Event ι)} :
    Succeeded (.invoke i k :: h) ↔ Succeeded h := by
  simp [succeeded_cons]

@[simp] theorem succeeded_ret {i : ι} {k : ℕ} {b : Bool} {h : List (Event ι)} :
    Succeeded (.ret i k b :: h) ↔ Succeeded h := by
  simp [succeeded_cons]

@[simp] theorem succeeded_complete {i : ι} {k : ℕ} {b : Bool} {h : List (Event ι)} :
    Succeeded (.complete i k b :: h) ↔ b = true ∨ Succeeded h := by
  simp [succeeded_cons]

/-! ### The invariant -/

/-- A thread between its successful compare-exchange and its final store. -/
def Busy (l : Local) : Prop :=
  l.pc = .invoke ∨ l.pc = .running ∨ l.pc = .storeDone ∨ l.pc = .storeReset

/-- With no thread busy, `Ptr` says whether an initialiser has succeeded. -/
def Settled (s : Shared ι) : Prop :=
  (s.ptr = 0 ∧ ¬Succeeded s.history ∧ invocations s.history = failures s.history) ∨
    (s.ptr = 2 ∧ Succeeded s.history ∧ invocations s.history = failures s.history + 1)

/-- With thread `i` busy, the place where it stands says it. -/
def Working (i : ι) (l : Local) (h : List (Event ι)) : Prop :=
  match l.pc with
  | .invoke => ¬Succeeded h ∧ invocations h = failures h
  | .running => ¬Succeeded h ∧ invocations h = failures h + 1
  | .storeDone => Succeeded h ∧ invocations h = failures h + 1
  | .storeReset => ¬Succeeded h ∧ invocations h = failures h ∧ .complete i l.calls false ∈ h
  | _ => False

/-- **The invariant**: the history is lawful, and either the word is settled or
exactly one thread is working on it. -/
def Inv (c : Config ι (Shared ι) Local) : Prop :=
  Lawful c.shared.history ∧
    (((∀ j, ¬Busy (c.locals j)) ∧ Settled c.shared) ∨
      ∃ i, (∀ j, j ≠ i → ¬Busy (c.locals j)) ∧ c.shared.ptr = 1 ∧
        Working i (c.locals i) c.shared.history)

theorem Working.busy {i : ι} {l : Local} {h : List (Event ι)} (hw : Working i l h) : Busy l := by
  unfold Working at hw
  unfold Busy
  split at hw <;> simp_all

/-- A return does not change what the busy thread is owed. -/
theorem Working.ret {i j : ι} {l : Local} {k : ℕ} {b : Bool} {h : List (Event ι)}
    (hw : Working i l h) : Working i l (.ret j k b :: h) := by
  unfold Working at hw ⊢
  split at hw <;> simp_all [invocations, failures]

theorem Settled.ret {s : Shared ι} {j : ι} {k : ℕ} {b : Bool} (hs : Settled s) :
    Settled (s.emit (.ret j k b)) := by
  simpa [Settled, Shared.emit, invocations, failures] using hs

/-- The busy thread is the one working. -/
theorem Inv.working {c : Config ι (Shared ι) Local} (h : Inv c) {i : ι}
    (hb : Busy (c.locals i)) :
    (∀ j, j ≠ i → ¬Busy (c.locals j)) ∧ c.shared.ptr = 1 ∧
      Working i (c.locals i) c.shared.history := by
  rcases h.2 with ⟨hno, -⟩ | ⟨i', hothers, hptr, hw⟩
  · exact absurd hb (hno i)
  · obtain rfl : i = i' := by
      by_contra hne
      exact hothers i hne hb
    exact ⟨hothers, hptr, hw⟩

theorem Inv.ptr_cases {c : Config ι (Shared ι) Local} (h : Inv c) :
    c.shared.ptr = 0 ∨ c.shared.ptr = 1 ∨ c.shared.ptr = 2 := by
  rcases h.2 with ⟨-, ⟨hp, -⟩ | ⟨hp, -⟩⟩ | ⟨-, -, hp, -⟩ <;> simp [hp]

/-- A word that reads `2` has been initialised. -/
theorem Inv.succeeded {c : Config ι (Shared ι) Local} (h : Inv c) (hp : c.shared.ptr = 2) :
    Succeeded c.shared.history := by
  rcases h.2 with ⟨-, ⟨hp', -⟩ | ⟨-, hs, -⟩⟩ | ⟨-, -, hp', -⟩
  · omega
  · exact hs
  · omega

/-- A word that reads `0` is nobody's, and nothing has succeeded. -/
theorem Inv.free {c : Config ι (Shared ι) Local} (h : Inv c) (hp : c.shared.ptr = 0) :
    (∀ j, ¬Busy (c.locals j)) ∧ ¬Succeeded c.shared.history ∧
      invocations c.shared.history = failures c.shared.history := by
  rcases h.2 with ⟨hno, ⟨-, hs, hn⟩ | ⟨hp', -⟩⟩ | ⟨-, -, hp', -⟩
  · exact ⟨hno, hs, hn⟩
  · omega
  · omega

section Steps

variable [DecidableEq ι] {c : Config ι (Shared ι) Local} {i : ι} {l : Local}

/-- **A step outside the critical stretch**: a thread that is busy neither before
nor after, and leaves the shared memory alone. -/
theorem Inv.quiet (h : Inv c) (hi : ¬Busy (c.locals i)) (hl : ¬Busy l) :
    Inv (c.move i c.shared l) := by
  refine ⟨h.1, ?_⟩
  rcases h.2 with ⟨hno, hs⟩ | ⟨w, hothers, hptr, hw⟩
  · exact Or.inl ⟨Config.forall_move (P := fun _ l => ¬Busy l) hl fun j _ => hno j, hs⟩
  · have hwi : w ≠ i := by
      rintro rfl
      exact hi hw.busy
    refine Or.inr ⟨w, ?_, hptr, ?_⟩
    · exact Config.forall_move (P := fun j l => j ≠ w → ¬Busy l) (fun _ => hl)
        fun j _ => hothers j
    · rwa [Config.move_of_ne _ _ _ hwi]

omit [DecidableEq ι] in
/-- A return adds a lawful event and nothing else. -/
theorem Inv.emit_ret (h : Inv c) {k : ℕ} {b : Bool}
    (hf : MayFollow c.shared.history (.ret i k b)) :
    Inv { c with shared := c.shared.emit (.ret i k b) } := by
  refine ⟨⟨hf, h.1⟩, ?_⟩
  rcases h.2 with ⟨hno, hs⟩ | ⟨w, hothers, hptr, hw⟩
  · exact Or.inl ⟨hno, hs.ret⟩
  · exact Or.inr ⟨w, hothers, hptr, hw.ret⟩

/-- **A step of the busy thread that leaves it busy**, with its new accounts. -/
theorem Inv.stay {s : Shared ι} (hothers : ∀ j, j ≠ i → ¬Busy (c.locals j))
    (hlaw : Lawful s.history) (hptr : s.ptr = 1) (hw : Working i l s.history) :
    Inv (c.move i s l) := by
  refine ⟨hlaw, Or.inr ⟨i, fun j hj => ?_, hptr, ?_⟩⟩
  · rw [Config.move_of_ne _ _ _ hj]
    exact hothers j hj
  · rwa [Config.move_self]

/-- **The final store**: the busy thread leaves, and the word is settled. -/
theorem Inv.settle {s : Shared ι} (hothers : ∀ j, j ≠ i → ¬Busy (c.locals j)) (hl : ¬Busy l)
    (hlaw : Lawful s.history) (hs : Settled s) : Inv (c.move i s l) :=
  ⟨hlaw, Or.inl ⟨Config.forall_move (P := fun _ l => ¬Busy l) hl hothers, hs⟩⟩

/-- **One step of any thread keeps the invariant.** -/
theorem Inv.step (h : Inv c) {a : Choice} {s : Shared ι}
    (hn : initOnceExecuteOnce i a c.shared (c.locals i) = some (s, l)) : Inv (c.move i s l) := by
  unfold initOnceExecuteOnce at hn
  split at hn
  case h_1 hpc =>
    -- a call begins
    obtain ⟨rfl, rfl⟩ := Prod.mk.inj (Option.some.inj hn)
    exact h.quiet (by simp [Busy, hpc]) (by simp [Busy])
  case h_2 hpc =>
    -- the switch on the low bits of the word
    have hi : ¬Busy (c.locals i) := by simp [Busy, hpc]
    split at hn
    case h_1 hp =>
      obtain ⟨rfl, rfl⟩ := Prod.mk.inj (Option.some.inj hn)
      have h2 : c.shared.ptr = 2 := by
        rcases h.ptr_cases with h' | h' | h' <;> simp_all
      exact (h.emit_ret (i := i) (b := true) (h.succeeded h2)).quiet hi
        (by simp [Busy, Local.goto])
    case h_2 =>
      obtain ⟨rfl, rfl⟩ := Prod.mk.inj (Option.some.inj hn)
      exact h.quiet hi (by simp [Busy, Local.goto])
    case h_3 =>
      obtain ⟨rfl, rfl⟩ := Prod.mk.inj (Option.some.inj hn)
      exact h.quiet hi (by simp [Busy, Local.goto])
    case h_4 h2 h0 h1 =>
      -- the word is never `3`
      exfalso
      rcases h.ptr_cases with h' | h' | h' <;> simp_all
  case h_3 hpc =>
    have hi : ¬Busy (c.locals i) := by simp [Busy, hpc]
    by_cases hp : c.shared.ptr = 0
    · -- the compare-exchange succeeds
      simp only [interlockedCompareExchange, hp, ite_true, ne_eq, not_true, ite_false] at hn
      obtain ⟨rfl, rfl⟩ := Prod.mk.inj (Option.some.inj hn)
      obtain ⟨hno, hs, hcount⟩ := h.free hp
      exact Inv.stay (fun j _ => hno j) h.1 rfl ⟨hs, hcount⟩
    · simp only [interlockedCompareExchange, ne_eq, hp, not_false_iff, ite_true] at hn
      obtain ⟨rfl, rfl⟩ := Prod.mk.inj (Option.some.inj hn)
      exact h.quiet hi (by simp [Busy, Local.goto])
  case h_4 hpc =>
    -- `InitFn` is invoked
    obtain ⟨rfl, rfl⟩ := Prod.mk.inj (Option.some.inj hn)
    obtain ⟨hothers, hptr, hw⟩ := h.working (i := i) (by simp [Busy, hpc])
    simp only [Working, hpc] at hw
    refine Inv.stay hothers ⟨hw.1, h.1⟩ hptr ⟨?_, ?_⟩
    · simpa [Shared.emit] using hw.1
    · simp [Shared.emit, invocations, failures, hw.2]
  case h_5 ok hpc =>
    -- `InitFn` returns
    obtain ⟨rfl, rfl⟩ := Prod.mk.inj (Option.some.inj hn)
    obtain ⟨hothers, hptr, hw⟩ := h.working (i := i) (by simp [Busy, hpc])
    simp only [Working, hpc] at hw
    refine Inv.stay hothers ⟨trivial, h.1⟩ hptr ?_
    cases ok with
    | true => simp [Working, Local.goto, Shared.emit, invocations, failures, hw.2]
    | false => simp [Working, Local.goto, Shared.emit, invocations, failures, hw.1, hw.2]
  case h_6 hpc =>
    -- success: store `2`
    obtain ⟨rfl, rfl⟩ := Prod.mk.inj (Option.some.inj hn)
    obtain ⟨hothers, -, hw⟩ := h.working (i := i) (by simp [Busy, hpc])
    simp only [Working, hpc] at hw
    refine Inv.settle hothers (by simp [Busy, Local.goto]) ⟨hw.1, h.1⟩ (Or.inr ⟨rfl, ?_, ?_⟩)
    · simpa [Shared.emit] using hw.1
    · simpa [Shared.emit, invocations, failures] using hw.2
  case h_7 hpc =>
    -- failure: store `0`
    obtain ⟨rfl, rfl⟩ := Prod.mk.inj (Option.some.inj hn)
    obtain ⟨hothers, -, hw⟩ := h.working (i := i) (by simp [Busy, hpc])
    simp only [Working, hpc] at hw
    refine Inv.settle hothers (by simp [Busy, Local.goto]) ⟨hw.2.2, h.1⟩ (Or.inl ⟨rfl, ?_, ?_⟩)
    · simpa [Shared.emit] using hw.1
    · simpa [Shared.emit, invocations, failures] using hw.2.1
  case h_8 hpc =>
    obtain ⟨rfl, rfl⟩ := Prod.mk.inj (Option.some.inj hn)
    exact h.quiet (by simp [Busy, hpc]) (by simp [Busy, Local.goto])
  case h_9 => cases hn

omit [DecidableEq ι] in
theorem inv_start : Inv (start ι) :=
  ⟨trivial, Or.inl ⟨fun j => by simp [start, Busy], Or.inl ⟨rfl, by simp [start], rfl⟩⟩⟩

/-- **The invariant holds in every state of every interleaving.** -/
theorem inv_of_reaches (h : Reaches (threadStep initOnceExecuteOnce) (start ι) c) : Inv c :=
  invariant h inv_start fun _ _ _ _ _ hd _ hn => hd.step hn

end Steps

/-! ### The guarantees of one-time initialisation -/

theorem Inv.invocations_eq {c : Config ι (Shared ι) Local} (h : Inv c)
    (hs : Succeeded c.shared.history) :
    invocations c.shared.history = failures c.shared.history + 1 := by
  rcases h.2 with ⟨-, ⟨-, hno, -⟩ | ⟨-, -, hn⟩⟩ | ⟨i, -, -, hw⟩
  · exact absurd hs hno
  · exact hn
  · unfold Working at hw
    split at hw
    · exact absurd hs hw.1
    · exact absurd hs hw.1
    · exact hw.2
    · exact absurd hs hw.1
    · exact hw.elim

/-- **One-time initialisation**: in every state of every interleaving at most one
invocation of `InitFn` is in progress; no invocation comes after a success; a
call that returned `TRUE` did so after some success, and one that returned
`FALSE` after its own invocation failed; and once there is a success there is
exactly one invocation more than there are failures. -/
theorem initOnce_once [DecidableEq ι] {c : Config ι (Shared ι) Local}
    (h : Reaches (threadStep initOnceExecuteOnce) (start ι) c) :
    (∀ i j, (c.locals i).pc = .running → (c.locals j).pc = .running → i = j) ∧
      (∀ i k pre post, c.shared.history = post ++ .invoke i k :: pre → ¬Succeeded pre) ∧
      (∀ i k pre post, c.shared.history = post ++ .ret i k true :: pre → Succeeded pre) ∧
      (∀ i k pre post, c.shared.history = post ++ .ret i k false :: pre →
        .complete i k false ∈ pre) ∧
      (Succeeded c.shared.history →
        invocations c.shared.history = failures c.shared.history + 1) := by
  have hinv := inv_of_reaches h
  have hlaw : ∀ pre post e, c.shared.history = post ++ e :: pre → MayFollow pre e :=
    fun pre post e he => (he ▸ hinv.1 : Lawful (post ++ e :: pre)).mayFollow
  refine ⟨fun i j hi hj => ?_, fun i k pre post he => hlaw pre post _ he,
    fun i k pre post he => hlaw pre post _ he, fun i k pre post he => hlaw pre post _ he,
    hinv.invocations_eq⟩
  by_contra hne
  exact (hinv.working (Or.inr (Or.inl hj))).1 i hne (Or.inr (Or.inl hi))

/-- Two threads race for the word; the initialiser fails for the first and
succeeds for the second, which had slept through the first attempt. -/
def failThenSucceed : List (Fin 2 × Choice) :=
  [(0, .call), (1, .call), (0, .go), (1, .go), (0, .go), (1, .go), (0, .go),
    (0, .finish false), (0, .go), (1, .go), (1, .go), (1, .go), (1, .go),
    (1, .finish true), (1, .go)]

theorem initOnce_once_failThenSucceed :
    ∃ c, run (threadStep initOnceExecuteOnce) (start (Fin 2)) failThenSucceed = some c ∧
      Succeeded c.shared.history ∧ failures c.shared.history = 1 ∧
      invocations c.shared.history = failures c.shared.history + 1 := by
  refine ⟨_, rfl, ⟨1, 1, by decide⟩, by decide, ?_⟩
  exact (initOnce_once (reaches_of_run failThenSucceed rfl)).2.2.2.2 ⟨1, 1, by decide⟩

end InitOnce

end Libuzi
