import Libuzi.Handle.Event
import Libuzi.Threads

/-!
# Setting and resetting an event at the same time

`SetEvent` and `ResetEvent` (`libuzi/event.c`, in the build with `eventfd`), called by any
number of threads on one manual-reset event. The `poll` of the wait, the read and the write
are atomic steps, and none of them fails for another reason than the value of the counter.

`ResetEvent` reads the counter only after a wait has reported it, but another thread may
empty it in between. The read does not block, so it fails, and the call returns `FALSE` –
with the event reset all the same (`reset_fails`). Every call returns `TRUE` exactly when no
read comes too late (`reset_succeeds_iff`), and in any case leaves an event behind that was
not signalled at the call's last step.
-/

namespace Libuzi

open Runs Threads

namespace EventRace

open Handle Event

/-! ### The model -/

/-- How a call of `ResetEvent` has ended. -/
structure Reset where
  /-- What it has returned. -/
  result : Bool
  /-- Whether the event was signalled after the last step of the call. -/
  signalled : Bool
  deriving DecidableEq

/-- The shared memory. -/
structure Shared where
  /-- The event, with its counter. -/
  event : WinprEvent
  /-- The calls of `ResetEvent` that have returned, the latest first. -/
  resets : List Reset
  deriving DecidableEq

/-- Where a thread stands. -/
inductive Local
  /-- In neither function. -/
  | idle
  /-- In `SetEvent`, before the write. -/
  | setWrite
  /-- In `ResetEvent`, before the wait in the condition of the loop. -/
  | resetWait
  /-- In `ResetEvent`, before the read. -/
  | resetRead
  deriving DecidableEq

/-- What the environment chooses at a step. -/
inductive Choice
  /-- Call `SetEvent`. -/
  | set
  /-- Call `ResetEvent`. -/
  | reset
  /-- Let the call go on. -/
  | go
  deriving DecidableEq

/-- The event is signalled: there is something to read. -/
def signalled (e : WinprEvent) : Bool := decide (e.kernel.pending ≠ 0)

/-- `ResetEvent` returns. -/
def Shared.returned (s : Shared) (result : Bool) : Shared :=
  { s with resets := ⟨result, signalled s.event⟩ :: s.resets }

variable {ι : Type*}

/-- **One step of `SetEvent` or `ResetEvent`.** -/
def eventStep (_ : ι) (a : Choice) (s : Shared) (l : Local) : Option (Shared × Local) :=
  match l, a with
  | .idle, .set => some (s, .setWrite)
  | .idle, .reset => some (s, .resetWait)
  -- there is one write, of which the rest of `SetEvent` returns the outcome
  | .setWrite, .go => some ({ s with event := (setEvent .eventfd s.event).1 }, .idle)
  | .resetWait, .go =>
    if (waitForSingleObject s.event).2 = waitObject0 then some (s, .resetRead)
    else some (s.returned true, .idle)
  | .resetRead, .go =>
    let r := s.event.kernel.eventfdRead
    let s := { s with event := { s.event with kernel := r.1 } }
    -- `status = FALSE` ends the loop
    if r.2 < 0 then some (s.returned false, .idle)
    else some (s, .resetWait)
  | _, _ => none

/-- The start: the event has just been created, and no thread is in a call. -/
def start (ι : Type*) (e : WinprEvent) : Config ι Shared Local where
  shared := ⟨e, []⟩
  locals := fun _ => .idle

/-! ### What is asked of the calls -/

/-- **Every call of `ResetEvent` that has returned has succeeded**, and the event was not signalled
at its last step. -/
def ResetsSucceed (s : Shared) : Prop :=
  ∀ x ∈ s.resets, x.result = true ∧ x.signalled = false

/-- **The condition on a step**: a read finds something to read. -/
def ReadsSomething (c : Config ι Shared Local) (e : ι × Choice) : Prop :=
  c.locals e.1 = .resetRead → c.shared.event.kernel.pending ≠ 0

instance (c : Config ι Shared Local) (e : ι × Choice) : Decidable (ReadsSomething c e) :=
  inferInstanceAs (Decidable (_ → _))

/-! ### Runs -/

/-- What every step keeps: the event is an event with a counter, and the calls that have returned
have left it unsignalled. -/
structure Inv (s : Shared) : Prop where
  ready : Ready s.event
  eventfd : ∃ counter, s.event.kernel = .eventfd counter
  unsignalled : ∀ x ∈ s.resets, x.signalled = false

variable {s : Shared}

/-- A call that returns while the event is not signalled. -/
theorem Inv.returned (h : Inv s) {result : Bool} (hs : s.event.kernel.pending = 0) :
    Inv (s.returned result) := by
  refine ⟨h.ready, h.eventfd, fun x hx => ?_⟩
  rcases List.mem_cons.mp hx with rfl | hx
  · exact decide_eq_false (not_not.mpr hs)
  · exact h.unsignalled x hx

/-- What it does to the promise is told by its result. -/
theorem returned_succeed {result : Bool} (hs : s.event.kernel.pending = 0) :
    ResetsSucceed (s.returned result) ↔ ResetsSucceed s ∧ result = true := by
  have hhead : (⟨result, signalled s.event⟩ : Reset).signalled = false :=
    decide_eq_false (not_not.mpr hs)
  constructor
  · intro hall
    exact ⟨fun x hx => hall x (List.mem_cons_of_mem _ hx), (hall _ List.mem_cons_self).1⟩
  · rintro ⟨hall, hresult⟩ x hx
    rcases List.mem_cons.mp hx with rfl | hx
    · exact ⟨hresult, hhead⟩
    · exact hall x hx

/-- The wait: it times out, and the call returns, or there is something to read. -/
theorem resetWait_succeed {i : ι} {s' : Shared} {l' : Local} (h : Inv s)
    (hs : eventStep i .go s .resetWait = some (s', l')) :
    Inv s' ∧ (ResetsSucceed s' ↔ ResetsSucceed s) := by
  rw [eventStep, waitForSingleObject_eq h.ready] at hs
  by_cases hpending : s.event.kernel.pending = 0
  · rw [if_pos hpending, if_neg (show ¬waitTimeout = waitObject0 by decide)] at hs
    obtain ⟨rfl, rfl⟩ := Prod.mk.inj (Option.some.inj hs)
    exact ⟨h.returned hpending, (returned_succeed hpending).trans (and_iff_left rfl)⟩
  · rw [if_neg hpending, if_pos rfl] at hs
    obtain ⟨rfl, rfl⟩ := Prod.mk.inj (Option.some.inj hs)
    exact ⟨h, Iff.rfl⟩

/-- The read: it fails, and the call returns, or it empties the counter. -/
theorem resetRead_succeed {i : ι} {s' : Shared} {l' : Local} (h : Inv s)
    (hs : eventStep i .go s .resetRead = some (s', l')) :
    Inv s' ∧ (ResetsSucceed s' ↔ ResetsSucceed s ∧ s.event.kernel.pending ≠ 0) := by
  obtain ⟨counter, hkernel⟩ := h.eventfd
  rw [eventStep, hkernel, Kernel.eventfdRead] at hs
  by_cases hzero : counter = 0
  · rw [if_pos hzero] at hs
    simp only at hs
    rw [if_pos (by decide)] at hs
    obtain ⟨rfl, rfl⟩ := Prod.mk.inj (Option.some.inj hs)
    have hsame : { s with event := { s.event with kernel := .eventfd counter } } = s := by
      rw [← hkernel]
    have hpending : s.event.kernel.pending = 0 := by
      rw [hkernel]
      exact if_pos hzero
    rw [hsame]
    refine ⟨h.returned hpending, (returned_succeed hpending).trans ?_⟩
    exact and_congr_right fun _ => iff_of_false Bool.false_ne_true (not_not.mpr hpending)
  · rw [if_neg hzero] at hs
    simp only at hs
    rw [if_neg (by decide)] at hs
    obtain ⟨rfl, rfl⟩ := Prod.mk.inj (Option.some.inj hs)
    have hpending : s.event.kernel.pending ≠ 0 := by
      rw [hkernel, Kernel.pending, if_neg hzero]
      exact Nat.one_ne_zero
    exact ⟨⟨⟨h.ready.type, h.ready.mode, h.ready.fd⟩, ⟨0, rfl⟩, h.unsignalled⟩,
      (and_iff_left hpending).symm⟩

/-- **One step**: the promise is kept if and only if a read finds something. -/
theorem eventStep_succeed {i : ι} {a : Choice} {s' : Shared} {l l' : Local} (h : Inv s)
    (hs : eventStep i a s l = some (s', l')) :
    Inv s' ∧ (ResetsSucceed s' ↔
      ResetsSucceed s ∧ (l = .resetRead → s.event.kernel.pending ≠ 0)) := by
  cases l with
  | idle =>
    have hsame : s' = s := by
      cases a with
      | set => exact (Prod.mk.inj (Option.some.inj hs)).1.symm
      | reset => exact (Prod.mk.inj (Option.some.inj hs)).1.symm
      | go => cases hs
    rw [hsame]
    exact ⟨h, (and_iff_left fun h => by cases h).symm⟩
  | setWrite =>
    cases a with
    | go =>
      obtain ⟨counter, hkernel⟩ := h.eventfd
      obtain ⟨rfl, rfl⟩ := Prod.mk.inj (Option.some.inj hs)
      refine ⟨⟨⟨h.ready.type, h.ready.mode, h.ready.fd⟩, ?_, h.unsignalled⟩,
        (and_iff_left fun h => by cases h).symm⟩
      simp only [setEvent, hkernel, Kernel.eventfdWrite]
      split_ifs
      · exact ⟨_, rfl⟩
      · exact ⟨_, rfl⟩
    | _ => cases hs
  | resetWait =>
    cases a with
    | go =>
      obtain ⟨hinv, hiff⟩ := resetWait_succeed h hs
      exact ⟨hinv, hiff.trans (and_iff_left fun h => by cases h).symm⟩
    | _ => cases hs
  | resetRead =>
    cases a with
    | go =>
      rw [imp_iff_right rfl]
      exact resetRead_succeed h hs
    | _ => cases hs

/-- **Resets succeed exactly when no read comes too late**, in every run of any number of threads on
an event that has just been created; and whatever they return, the event was not signalled at
their last step. -/
theorem reset_succeeds_iff [DecidableEq ι] {fds : ℤ × ℤ} {bInitialState : Bool} {e : WinprEvent}
    (hcreate : createEventW .eventfd fds true bInitialState = some e) (es : List (ι × Choice))
    {c : Config ι Shared Local} (hrun : run (threadStep eventStep) (start ι e) es = some c) :
    (∀ x ∈ c.shared.resets, x.signalled = false) ∧
      (ResetsSucceed c.shared ↔
        AllMeet (threadStep eventStep) ReadsSomething (start ι e) es) := by
  have hfds : 0 ≤ fds.1 := by
    by_contra hneg
    rw [createEventW, if_neg (by decide), if_pos (by omega)] at hcreate
    cases hcreate
  obtain ⟨e', hcreate', hready, hstands⟩ := createEventW_spec .eventfd hfds bInitialState
  obtain rfl : e' = e := Option.some.inj (hcreate'.symm.trans hcreate)
  obtain ⟨counter, hkernel, -⟩ := hstands
  have hstart : Inv (start ι e').shared :=
    ⟨hready, ⟨counter, hkernel⟩, fun x hx => absurd hx List.not_mem_nil⟩
  have hstep : ∀ (t t' : Config ι Shared Local) (a : ι × Choice), Inv t.shared →
      threadStep eventStep t a = some t' → Inv t'.shared ∧
        (ResetsSucceed t'.shared ↔ ResetsSucceed t.shared ∧ ReadsSomething t a) := by
    intro t t' a ht hs
    obtain ⟨s, l, hn, rfl⟩ := threadStep_eq_some.mp hs
    exact eventStep_succeed ht hn
  have hinv : Inv c.shared :=
    (reaches_of_run es hrun).invariant (P := fun c => Inv c.shared) hstart
      fun t t' a ht _ hs => (hstep t t' a ht hs).1
  refine ⟨hinv.unsignalled, ?_⟩
  rw [run_iff_allMeet (P := fun c => ResetsSucceed c.shared) (I := fun c => Inv c.shared) hstart
    hstep hrun]
  exact and_iff_right fun x hx => absurd hx List.not_mem_nil

/-! ### Two threads that reset -/

/-- An event that is signalled. -/
def signalledEvent : WinprEvent where
  type := .event
  mode := fdRead
  pipeFd := (3, -1)
  bAttached := false
  bManualReset := true
  kernel := .eventfd 1

/-- One thread resets the event while the other sets it, twice. -/
def resetAndSet : List (Bool × Choice) :=
  [(false, .reset), (true, .set), (false, .go), (true, .go), (false, .go), (false, .go)]

theorem reset_succeeds_iff_resetAndSet :
    ∃ c, run (threadStep eventStep) (start Bool signalledEvent) resetAndSet = some c ∧
      c.shared.resets = [⟨true, false⟩] ∧ ResetsSucceed c.shared := by
  have hrun : run (threadStep eventStep) (start Bool signalledEvent) resetAndSet =
      some (final _ _ _) := run_eq_final (by decide)
  have hcreate : createEventW .eventfd (3, 0) true true = some signalledEvent := by decide
  exact ⟨_, hrun, by decide, (reset_succeeds_iff hcreate _ hrun).2.mpr (by decide)⟩

/-- Both threads find the event signalled, and then both read. -/
def resetTwice : List (Bool × Choice) :=
  [(false, .reset), (true, .reset), (false, .go), (true, .go), (false, .go), (true, .go)]

/-- **A reset fails**: two threads reset a signalled event, and the one that reads last returns
`FALSE`. -/
theorem reset_fails :
    createEventW .eventfd (3, 0) true true = some signalledEvent ∧
      ∃ c : Config Bool Shared Local,
        Reaches (threadStep eventStep) (start Bool signalledEvent) c ∧ ¬ResetsSucceed c.shared := by
  have hrun : run (threadStep eventStep) (start Bool signalledEvent) resetTwice =
      some (final _ _ _) := run_eq_final (by decide)
  refine ⟨by decide, _, reaches_of_run _ hrun, fun h => ?_⟩
  exact absurd (h ⟨false, false⟩ (by decide)).1 (by decide)

end EventRace

end Libuzi
