import Libuzi.Handle.Event
import Libuzi.Ledger
import Libuzi.Runs

/-!
# The descriptors of an event

Who closes what, in `libuzi/event.c`. An event has two slots for descriptors and one flag,
`bAttached`, which says that its descriptors are the caller's. `CreateEventW` opens a counter
or the two ends of a pipe and clears the flag, `CreateFileDescriptorEventW` takes a descriptor
of the caller and sets it. `SetEventFileDescriptor` changes the owner mid-life: it closes the
descriptor in the first slot, if that is the library's, takes one of the caller, and sets the
flag – for both slots. The table has what each call leaves for `EventCloseHandle` to close.

| call | build with `eventfd` | build with pipes |
|---|---|---|
| `CreateEventW` | the counter | both ends |
| `CreateFileDescriptorEventW` | nothing | nothing |
| `SetEventFileDescriptor` | nothing | nothing, though the end that is written to is open |

The descriptors are those of a process, which the caller opens and closes files in as well, so
that a number that has been closed may come to stand for something else. Nothing of the
caller's is ever closed, and no descriptor twice; but the end of a pipe that is written to is
lost with a call of `SetEventFileDescriptor`, and that is the only way to lose a descriptor
(`descriptors_settled_iff`).
-/

namespace Libuzi

open Runs Ledger

namespace EventDescriptors

open Handle Event

/-! ### The descriptors of the process -/

/-- Who has opened a descriptor. -/
inductive Owner
  /-- The library, for the event. -/
  | library
  /-- The caller, or anybody else. -/
  | caller
  deriving DecidableEq

/-- The descriptors that are open, and what the library has opened and closed: each call of
`close` together with what it has hit. -/
structure Process where
  table : ℤ → Option Owner
  book : Book (ℤ × Option Owner)

/-- The entry of a descriptor of the library's. -/
def own (fd : ℤ) : ℤ × Option Owner := (fd, some .library)

/-- The library opens a descriptor, which gets the number `fd`. -/
def Process.openFd (fd : ℤ) (p : Process) : Process where
  table := Function.update p.table fd (some .library)
  book := p.book.acquire (own fd)

/-- `close`, called by the library. -/
def Process.close (fd : ℤ) (p : Process) : Process where
  table := Function.update p.table fd none
  book := p.book.release (fd, p.table fd)

/-! ### The functions -/

/-- The descriptors that `CreateEventW` opens: the counter, or both ends of the pipe. -/
def descriptors (b : Build) (fds : ℤ × ℤ) : List ℤ :=
  match b with
  | .eventfd => [fds.1]
  | .pipe => [fds.1, fds.2]

/-- **`CreateFileDescriptorEventW`**, for a descriptor behind which is `kernel`. Without memory it
returns `NULL`. -/
def createFileDescriptorEventW (calloc : Bool) (kernel : Kernel) (bManualReset : Bool)
    (fileDescriptor : ℤ) (mode : ℕ) : Option WinprEvent :=
  if calloc then
    some
      { type := .event
        mode := mode
        pipeFd := (fileDescriptor, -1)
        bAttached := true
        bManualReset := bManualReset
        kernel := kernel }
  else none

/-- **`SetEventFileDescriptor`**, for a descriptor behind which is `kernel`. -/
def setEventFileDescriptor (kernel : Kernel) (fileDescriptor : ℤ) (mode : ℕ) (e : WinprEvent)
    (p : Process) : WinprEvent × Process :=
  let p := if !e.bAttached && decide (e.pipeFd.1 ≥ 0) then p.close e.pipeFd.1 else p
  ({ e with
      bAttached := true
      mode := mode
      pipeFd := (fileDescriptor, e.pipeFd.2)
      kernel := kernel }, p)

/-- **`EventCloseHandle`.** -/
def eventCloseHandle (e : WinprEvent) (p : Process) : Process :=
  if !eventIsHandled e then p
  else if !e.bAttached then
    let p := if e.pipeFd.1 ≠ -1 then p.close e.pipeFd.1 else p
    if e.pipeFd.2 ≠ -1 then p.close e.pipeFd.2 else p
  else p

/-! ### Runs -/

/-- Where the one event is in its life. -/
inductive Status
  /-- Not created yet. -/
  | fresh
  /-- Created. -/
  | live (e : WinprEvent)
  /-- Closed, or not created because the creation has failed. -/
  | gone

/-- The event and the process it belongs to. -/
structure State where
  status : Status
  process : Process

/-- Before the event is created. What the caller has open by then, it opens in the run. -/
def start : State := ⟨.fresh, ⟨fun _ => none, .empty⟩⟩

/-- A call on the event, or what the caller does with descriptors of its own. -/
inductive Call
  /-- `CreateEvent`, for which the kernel gives the descriptors `fds`. -/
  | createEvent (fds : ℤ × ℤ) (bManualReset bInitialState : Bool)
  /-- `CreateFileDescriptorEvent`. -/
  | createFileDescriptorEvent (calloc : Bool) (kernel : Kernel) (bManualReset : Bool)
      (fileDescriptor : ℤ) (mode : ℕ)
  /-- `SetEventFileDescriptor`. -/
  | setEventFileDescriptor (kernel : Kernel) (fileDescriptor : ℤ) (mode : ℕ)
  /-- `CloseHandle`. -/
  | closeHandle
  /-- The caller opens a file, which gets the number `fd`. -/
  | callerOpen (fd : ℤ)
  /-- The caller closes a descriptor of its own. -/
  | callerClose (fd : ℤ)

/-- What the kernel answers when it is asked for descriptors: it fails, or gives numbers that are
free. -/
def Answers (b : Build) (p : Process) (fds : ℤ × ℤ) : Prop :=
  fds.1 < 0 ∨ (descriptors b fds).Nodup ∧ ∀ fd ∈ descriptors b fds, 0 ≤ fd ∧ p.table fd = none

instance (b : Build) (p : Process) (fds : ℤ × ℤ) : Decidable (Answers b p fds) :=
  inferInstanceAs (Decidable (_ ∨ _))

/-- **One call.** The event is created once and closed once; in between it is attached to other
descriptors any number of times. -/
def step (b : Build) (s : State) (c : Call) : Option State :=
  match c, s.status with
  | .createEvent fds bManualReset bInitialState, .fresh =>
    if Answers b s.process fds then
      match createEventW b fds bManualReset bInitialState with
      | none => some { s with status := .gone }
      | some e => some ⟨.live e, (descriptors b fds).foldr Process.openFd s.process⟩
    else none
  | .createFileDescriptorEvent calloc kernel bManualReset fileDescriptor mode, .fresh =>
    match createFileDescriptorEventW calloc kernel bManualReset fileDescriptor mode with
    | none => some { s with status := .gone }
    | some e => some { s with status := .live e }
  | .setEventFileDescriptor kernel fileDescriptor mode, .live e =>
    let r := setEventFileDescriptor kernel fileDescriptor mode e s.process
    some ⟨.live r.1, r.2⟩
  | .closeHandle, .live e => some ⟨.gone, eventCloseHandle e s.process⟩
  | .callerOpen fd, _ =>
    if 0 ≤ fd ∧ s.process.table fd = none then
      some { s with process.table := Function.update s.process.table fd (some .caller) }
    else none
  | .callerClose fd, _ =>
    if s.process.table fd = some .caller then
      some { s with process.table := Function.update s.process.table fd none }
    else none
  | _, _ => none

/-- The call loses no descriptor: it does not attach an event that has a pipe of its own to
another descriptor. -/
def KeepsPipe (b : Build) (s : State) (c : Call) : Prop :=
  match c, s.status with
  | .setEventFileDescriptor _ _ _, .live e => b = .eventfd ∨ e.bAttached = true
  | _, _ => True

instance (b : Build) (s : State) (c : Call) : Decidable (KeepsPipe b s c) := by
  unfold KeepsPipe
  split <;> infer_instance

/-! ### Opening and closing -/

variable {b : Build} {p : Process} {e : WinprEvent} {fds : ℤ × ℤ} {l : List ℤ} {s s' : State}
  {c : Call}

theorem table_openAll (l : List ℤ) (p : Process) (fd : ℤ) :
    (l.foldr Process.openFd p).table fd = if fd ∈ l then some .library else p.table fd := by
  induction l with
  | nil => exact (if_neg List.not_mem_nil).symm
  | cons fd' l ih =>
    change Function.update (l.foldr Process.openFd p).table fd' (some .library) fd = _
    rw [Function.update_apply, ih]
    rcases eq_or_ne fd fd' with rfl | hne
    · rw [if_pos rfl, if_pos List.mem_cons_self]
    · simp only [hne, if_false, List.mem_cons, false_or]

theorem holds_openAll (l : List ℤ) {held : List (ℤ × Option Owner)} (h : p.book.Holds held) :
    (l.foldr Process.openFd p).book.Holds (l.map own ++ held) := by
  induction l with
  | nil => exact h
  | cons fd l ih => exact ih.acquire (own fd)

theorem released_openAll (l : List ℤ) (p : Process) :
    (l.foldr Process.openFd p).book.released = p.book.released := by
  induction l with
  | nil => rfl
  | cons fd l ih => exact ih

/-- What the library has closed was its own. -/
def Process.OwnOnly (p : Process) : Prop := ∀ x ∈ p.book.released, x.2 = some .library

/-- The descriptors `l` are open, they are the library's, and there are no others. -/
structure Process.Has (p : Process) (l : List ℤ) : Prop where
  nodup : l.Nodup
  mine : ∀ fd ∈ l, p.table fd = some .library
  holds : p.book.Holds (l.map own)

/-- **A descriptor of the library's is closed**: what it has is what is left. -/
theorem Process.Has.close {fd : ℤ} (h : p.Has (fd :: l)) :
    (p.close fd).Has l ∧ (p.OwnOnly → (p.close fd).OwnOnly) := by
  obtain ⟨hfd, hnodup⟩ := List.nodup_cons.mp h.nodup
  have hclose : p.close fd = ⟨Function.update p.table fd none, p.book.release (own fd)⟩ := by
    rw [Process.close, h.mine fd List.mem_cons_self]
    rfl
  rw [hclose]
  refine ⟨⟨hnodup, fun fd' hfd' => ?_, h.holds.release⟩, fun hown => ?_⟩
  · have hne : fd' ≠ fd := fun heq => hfd (heq ▸ hfd')
    simp only [Function.update_of_ne hne, h.mine fd' (List.mem_cons_of_mem fd hfd')]
  · exact List.forall_mem_cons.mpr ⟨rfl, hown⟩

/-- What the caller does with a descriptor that is not the library's changes nothing. -/
theorem Process.Has.update {fd : ℤ} {owner : Option Owner} (h : p.Has l)
    (hfd : p.table fd ≠ some .library) :
    Process.Has { p with table := Function.update p.table fd owner } l where
  nodup := h.nodup
  mine := by
    intro fd' hfd'
    have hne : fd' ≠ fd := fun heq => hfd (heq ▸ h.mine fd' hfd')
    simp only [Function.update_of_ne hne, h.mine fd' hfd']
  holds := h.holds

/-! ### What an event owes -/

/-- The event is the owner of its descriptors, which are those that the build opens. -/
structure Owns (b : Build) (e : WinprEvent) (p : Process) : Prop where
  second : b = .eventfd → e.pipeFd.2 = -1
  nonneg : ∀ fd ∈ descriptors b e.pipeFd, 0 ≤ fd
  has : p.Has (descriptors b e.pipeFd)

/-- **What `CloseHandle` would close.** -/
def owed (b : Build) (s : State) : List ℤ :=
  match s.status with
  | .live e => if e.bAttached then [] else descriptors b e.pipeFd
  | _ => []

theorem owed_of_attached (hatt : e.bAttached = true) : owed b ⟨.live e, p⟩ = [] := if_pos hatt

theorem owed_of_not_attached (hatt : e.bAttached = false) :
    owed b ⟨.live e, p⟩ = descriptors b e.pipeFd :=
  if_neg (by rw [hatt]; exact Bool.false_ne_true)

/-- The library holds what `CloseHandle` would close, and nothing else. -/
def Accounted (b : Build) (s : State) : Prop := s.process.book.Holds ((owed b s).map own)

/-- **The invariant**: what the library has closed was its own, and an event that is not attached
owns its descriptors. -/
structure Inv (b : Build) (s : State) : Prop where
  hits : s.process.OwnOnly
  fresh : s.status = .fresh → s.process.book = .empty
  type : ∀ e, s.status = .live e → e.type = .event
  owns : ∀ e, s.status = .live e → e.bAttached = false → Owns b e s.process

theorem inv_start : Inv b start where
  hits := fun x hx => absurd hx List.not_mem_nil
  fresh := fun _ => rfl
  type := by
    intro e h
    cases h
  owns := by
    intro e h
    cases h

/-- Once the event is gone only the past counts. -/
theorem inv_gone (h : p.OwnOnly) : Inv b ⟨.gone, p⟩ where
  hits := h
  fresh := by
    intro h'
    cases h'
  type := by
    intro e h'
    cases h'
  owns := by
    intro e h'
    cases h'

/-- An event that `CreateEventW` has made. -/
theorem createEventW_eq_some {bManualReset bInitialState : Bool}
    (h : createEventW b fds bManualReset bInitialState = some e) :
    0 ≤ fds.1 ∧ e.type = .event ∧ e.bAttached = false ∧
      descriptors b e.pipeFd = descriptors b fds ∧ (b = .eventfd → e.pipeFd.2 = -1) := by
  cases bManualReset with
  | false => cases h
  | true =>
    simp only [createEventW, Bool.not_true, Bool.false_eq_true, if_false] at h
    by_cases hfds : fds.1 < 0
    · rw [if_pos hfds] at h
      cases h
    rw [if_neg hfds] at h
    refine ⟨Int.not_lt.mp hfds, ?_⟩
    obtain rfl := Option.some.inj h
    cases b with
    | eventfd => cases bInitialState <;> exact ⟨rfl, rfl, rfl, fun _ => rfl⟩
    | pipe =>
      cases bInitialState with
      | false => exact ⟨rfl, rfl, rfl, fun h => by cases h⟩
      | true =>
        -- the wait of `SetEvent` says that the pipe is empty, and a byte is written
        have hready : Ready
            { type := .event, mode := fdRead, pipeFd := fds, bAttached := false,
              bManualReset := true, kernel := .pipe [] } := ⟨rfl, rfl, Int.not_lt.mp hfds⟩
        simp only [if_true, setEvent, waitForSingleObject_eq hready]
        exact ⟨rfl, rfl, rfl, fun h => by cases h⟩

/-- **`EventCloseHandle` closes what an event owns.** -/
theorem Owns.eventCloseHandle (h : Owns b e p) (htype : e.type = .event)
    (hatt : e.bAttached = false) :
    (eventCloseHandle e p).book.Holds [] ∧ (p.OwnOnly → (eventCloseHandle e p).OwnOnly) := by
  have hhandled : eventIsHandled e = true := decide_eq_true htype
  have hfirst : e.pipeFd.1 ∈ descriptors b e.pipeFd := by
    cases b <;> exact List.mem_cons_self
  have hne : e.pipeFd.1 ≠ -1 := by
    have := h.nonneg _ hfirst
    omega
  simp only [EventDescriptors.eventCloseHandle, hhandled, hatt, Bool.not_true, Bool.not_false,
    Bool.false_eq_true, if_false, if_true, if_pos hne]
  cases b with
  | eventfd =>
    obtain ⟨hhas, hown⟩ := h.has.close
    rw [if_neg (not_not.mpr (h.second rfl))]
    exact ⟨hhas.holds, hown⟩
  | pipe =>
    have hne' : e.pipeFd.2 ≠ -1 := by
      have := h.nonneg e.pipeFd.2 (List.mem_cons_of_mem _ List.mem_cons_self)
      omega
    obtain ⟨hhas, hown⟩ := h.has.close
    obtain ⟨hhas', hown'⟩ := hhas.close
    rw [if_pos hne']
    exact ⟨hhas'.holds, hown' ∘ hown⟩

/-- **`SetEventFileDescriptor` closes the first of what an event owns.** -/
theorem Owns.setEventFileDescriptor (h : Owns b e p) (hatt : e.bAttached = false)
    (kernel : Kernel) (fileDescriptor : ℤ) (mode : ℕ) :
    (setEventFileDescriptor kernel fileDescriptor mode e p).2.book.Holds
        ((descriptors b e.pipeFd).tail.map own) ∧
      (p.OwnOnly → (setEventFileDescriptor kernel fileDescriptor mode e p).2.OwnOnly) := by
  have hcons : descriptors b e.pipeFd = e.pipeFd.1 :: (descriptors b e.pipeFd).tail := by
    cases b <;> rfl
  have hnonneg : 0 ≤ e.pipeFd.1 := by
    refine h.nonneg _ ?_
    rw [hcons]
    exact List.mem_cons_self
  have hhas := h.has
  rw [hcons] at hhas
  obtain ⟨hhas', hown⟩ := hhas.close
  simp only [EventDescriptors.setEventFileDescriptor, hatt, Bool.not_false, Bool.true_and,
    ge_iff_le, decide_eq_true hnonneg, if_true]
  exact ⟨hhas'.holds, hown⟩

/-! ### One step -/

/-- `CreateEvent` makes an event that owns what has been opened. -/
theorem step_createEvent {bManualReset bInitialState : Bool} (h : Inv b s)
    (hs : step b s (.createEvent fds bManualReset bInitialState) = some s') :
    Inv b s' ∧ Accounted b s ∧ Accounted b s' := by
  obtain ⟨status, p⟩ := s
  cases status with
  | live e => cases hs
  | gone => cases hs
  | fresh =>
    have hbook : p.book = .empty := h.fresh rfl
    have hheld : p.book.Holds [] := by
      rw [hbook]
      exact Book.holds_empty
    simp only [step] at hs
    by_cases hanswer : Answers b p fds
    · rw [if_pos hanswer] at hs
      cases hcreate : createEventW b fds bManualReset bInitialState with
      | none =>
        rw [hcreate] at hs
        obtain rfl := Option.some.inj hs
        exact ⟨inv_gone h.hits, hheld, hheld⟩
      | some e =>
        rw [hcreate] at hs
        obtain rfl := Option.some.inj hs
        obtain ⟨hfds, htype, hatt, hdescr, hsecond⟩ := createEventW_eq_some hcreate
        obtain ⟨hnodup, hfree⟩ := hanswer.resolve_left (Int.not_lt.mpr hfds)
        have hholds := holds_openAll (descriptors b fds) hheld
        rw [List.append_nil] at hholds
        have howns : Owns b e ((descriptors b fds).foldr Process.openFd p) := by
          refine ⟨hsecond, ?_, ?_⟩
          · rw [hdescr]
            exact fun fd hfd => (hfree fd hfd).1
          · rw [hdescr]
            exact ⟨hnodup, fun fd hfd => (table_openAll _ _ _).trans (if_pos hfd), hholds⟩
        refine ⟨⟨?_, nofun, ?_, ?_⟩, hheld, ?_⟩
        · intro x hx
          rw [released_openAll] at hx
          exact h.hits x hx
        · rintro e' ⟨⟩
          exact htype
        · rintro e' ⟨⟩ -
          exact howns
        · rw [Accounted, owed_of_not_attached hatt]
          exact howns.has.holds
    · rw [if_neg hanswer] at hs
      cases hs

/-- `SetEventFileDescriptor` loses the second descriptor of an event that has two of its own. -/
theorem step_setEventFileDescriptor {kernel : Kernel} {fileDescriptor : ℤ} {mode : ℕ}
    (h : Inv b s) (hs : step b s (.setEventFileDescriptor kernel fileDescriptor mode) = some s') :
    Inv b s' ∧ (Accounted b s' ↔
      Accounted b s ∧ KeepsPipe b s (.setEventFileDescriptor kernel fileDescriptor mode)) := by
  obtain ⟨status, p⟩ := s
  cases status with
  | fresh => cases hs
  | gone => cases hs
  | live e =>
    obtain rfl := Option.some.inj hs
    have hinv : ∀ p' : Process, p'.OwnOnly →
        Inv b ⟨.live (setEventFileDescriptor kernel fileDescriptor mode e p).1, p'⟩ := by
      intro p' hhits
      refine ⟨hhits, nofun, ?_, ?_⟩
      · rintro e' ⟨⟩
        exact h.type e rfl
      · -- the event is attached from now on
        rintro e' ⟨⟩ hatt
        cases hatt
    cases hatt : e.bAttached with
    | true =>
      have hset : (setEventFileDescriptor kernel fileDescriptor mode e p).2 = p := by
        simp only [setEventFileDescriptor, hatt, Bool.not_true, Bool.false_and,
          Bool.false_eq_true, if_false]
      have hkeeps : KeepsPipe b ⟨.live e, p⟩ (.setEventFileDescriptor kernel fileDescriptor mode) :=
        .inr hatt
      refine ⟨hinv _ (by rw [hset]; exact h.hits), ?_⟩
      rw [and_iff_left hkeeps, Accounted, Accounted, owed_of_attached hatt, owed_of_attached rfl]
      change Book.Holds (setEventFileDescriptor kernel fileDescriptor mode e p).2.book _ ↔ _
      rw [hset]
    | false =>
      have howns := h.owns e rfl hatt
      obtain ⟨hholds, hown⟩ := howns.setEventFileDescriptor hatt kernel fileDescriptor mode
      refine ⟨hinv _ (hown h.hits), ?_⟩
      have hacc : Accounted b ⟨.live e, p⟩ := by
        rw [Accounted, owed_of_not_attached hatt]
        exact howns.has.holds
      rw [and_iff_right hacc]
      change Book.Holds _ [] ↔ b = .eventfd ∨ e.bAttached = true
      rw [Book.holds_nil, hholds.settled_iff, hatt, List.map_eq_nil_iff]
      cases b with
      | eventfd => exact iff_of_true rfl (.inl rfl)
      | pipe => exact iff_of_false (List.cons_ne_nil _ _) (by rintro (h | h) <;> cases h)

/-- `CloseHandle` closes what is owed. -/
theorem step_closeHandle (h : Inv b s) (hs : step b s .closeHandle = some s') :
    Inv b s' ∧ (Accounted b s' ↔ Accounted b s) := by
  obtain ⟨status, p⟩ := s
  cases status with
  | fresh => cases hs
  | gone => cases hs
  | live e =>
    obtain rfl := Option.some.inj hs
    have htype := h.type e rfl
    cases hatt : e.bAttached with
    | true =>
      have hclose : eventCloseHandle e p = p := by
        simp only [eventCloseHandle, hatt, Bool.not_true, Bool.false_eq_true, if_false, ite_self]
      refine ⟨inv_gone (by rw [hclose]; exact h.hits), ?_⟩
      rw [Accounted, Accounted, owed_of_attached hatt]
      change (eventCloseHandle e p).book.Holds _ ↔ _
      rw [hclose]
      rfl
    | false =>
      have howns := h.owns e rfl hatt
      obtain ⟨hholds, hown⟩ := howns.eventCloseHandle htype hatt
      refine ⟨inv_gone (hown h.hits), iff_of_true hholds ?_⟩
      rw [Accounted, owed_of_not_attached hatt]
      exact howns.has.holds

/-- What the caller does with a descriptor that is not the library's is nobody else's business. -/
theorem Inv.update {fd : ℤ} {owner : Option Owner} (h : Inv b s)
    (hfd : s.process.table fd ≠ some .library) :
    Inv b { s with process.table := Function.update s.process.table fd owner } where
  hits := h.hits
  fresh := h.fresh
  type := h.type
  owns := fun e he hatt =>
    have howns := h.owns e he hatt
    ⟨howns.second, howns.nonneg, howns.has.update hfd⟩

/-- **One call** keeps the invariant, and what was accounted for stays so exactly when the call
loses no descriptor. -/
theorem step_accounted (h : Inv b s) (hs : step b s c = some s') :
    Inv b s' ∧ (Accounted b s' ↔ Accounted b s ∧ KeepsPipe b s c) := by
  cases c with
  | createEvent fds bManualReset bInitialState =>
    obtain ⟨h', hbefore, hafter⟩ := step_createEvent h hs
    exact ⟨h', iff_of_true hafter ⟨hbefore, trivial⟩⟩
  | setEventFileDescriptor kernel fileDescriptor mode => exact step_setEventFileDescriptor h hs
  | closeHandle =>
    obtain ⟨h', hacc⟩ := step_closeHandle h hs
    exact ⟨h', hacc.trans (and_iff_left trivial).symm⟩
  | createFileDescriptorEvent calloc kernel bManualReset fileDescriptor mode =>
    obtain ⟨status, p⟩ := s
    cases status with
    | live e => cases hs
    | gone => cases hs
    | fresh =>
      cases calloc with
      | false =>
        obtain rfl := Option.some.inj hs
        exact ⟨inv_gone h.hits, (and_iff_left trivial).symm⟩
      | true =>
        obtain rfl := Option.some.inj hs
        refine ⟨⟨h.hits, nofun, ?_, ?_⟩, (and_iff_left trivial).symm⟩
        · rintro e ⟨⟩
          rfl
        · -- the event is attached
          rintro e ⟨⟩ hatt
          cases hatt
  | callerOpen fd =>
    simp only [step] at hs
    by_cases hfree : 0 ≤ fd ∧ s.process.table fd = none
    · rw [if_pos hfree] at hs
      obtain rfl := Option.some.inj hs
      refine ⟨h.update fun hmine => ?_, (and_iff_left trivial).symm⟩
      rw [hfree.2] at hmine
      cases hmine
    · rw [if_neg hfree] at hs
      cases hs
  | callerClose fd =>
    simp only [step] at hs
    by_cases hopen : s.process.table fd = some .caller
    · rw [if_pos hopen] at hs
      obtain rfl := Option.some.inj hs
      refine ⟨h.update fun hmine => ?_, (and_iff_left trivial).symm⟩
      rw [hopen] at hmine
      cases hmine
    · rw [if_neg hopen] at hs
      cases hs

/-! ### Whole runs -/

/-- **The descriptors of an event, over its whole life**: what the library closes is always its
own, and once the event is gone, every descriptor opened for it has been closed exactly once if
and only if no event with a pipe of its own has been attached to another descriptor. -/
theorem descriptors_settled_iff (b : Build) (cs : List Call)
    (hrun : run (step b) start cs = some s) :
    (∀ x ∈ s.process.book.released, x.2 = some .library) ∧
      (s.status = .gone →
        (s.process.book.Settled ↔ AllMeet (step b) (KeepsPipe b) start cs)) := by
  have hinv : Inv b s :=
    (reaches_of_run cs hrun).invariant (P := Inv b) inv_start
      fun t t' c ht _ hs => (step_accounted ht hs).1
  have hacc : Accounted b s ↔ Accounted b start ∧ AllMeet (step b) (KeepsPipe b) start cs :=
    run_iff_allMeet (I := Inv b) inv_start (fun t t' c ht hs => step_accounted ht hs) hrun
  refine ⟨hinv.hits, fun hgone => ?_⟩
  have howed : owed b s = [] := by
    rw [owed, hgone]
  have hstart : Accounted b start := Book.holds_empty
  rw [and_iff_right hstart, Accounted, howed] at hacc
  exact hacc

/-- An event with a counter is attached to a descriptor of the caller's, and later to a second one,
while the number of the counter comes to stand for a file. -/
def attachAndClose : List Call :=
  [.callerOpen 3, .createEvent (4, -1) true true, .setEventFileDescriptor (.pipe []) 3 fdRead,
    .callerOpen 4, .setEventFileDescriptor (.pipe []) 4 fdRead, .closeHandle, .callerClose 4]

theorem descriptors_settled_iff_attachAndClose :
    ∃ s, run (step .eventfd) start attachAndClose = some s ∧
      s.process.book.released = [own 4] ∧ s.process.book.Settled := by
  have hrun : run (step .eventfd) start attachAndClose = some (final _ _ _) :=
    run_eq_final (by decide)
  have hmeet : AllMeet (step .eventfd) (KeepsPipe .eventfd) start attachAndClose := by decide
  exact ⟨_, hrun, by decide, ((descriptors_settled_iff .eventfd _ hrun).2 rfl).mpr hmeet⟩

/-- An event with a pipe is attached to a file of the caller's. -/
def attached : List Call :=
  [.callerOpen 3, .createEvent (4, 5) true false, .setEventFileDescriptor (.pipe []) 3 fdRead,
    .closeHandle]

/-- **A descriptor is lost**: of the pipe 4, 5 the library closes 4 alone. -/
theorem attached_loses_descriptor :
    ∃ s, run (step .pipe) start attached = some s ∧ s.status = .gone ∧
      s.process.book.acquired = [own 4, own 5] ∧ s.process.book.released = [own 4] ∧
        ¬s.process.book.Settled := by
  have hrun : run (step .pipe) start attached = some (final _ _ _) := run_eq_final (by decide)
  exact ⟨_, hrun, rfl, by decide, by decide, by decide⟩

end EventDescriptors

end Libuzi
