import Libuzi.Handle.WaitMultiple
import Libuzi.Loop

/-!
# The arrays of a wait for several objects

`WaitForMultipleObjects` once more, with the memory it works on. `Libuzi.Wait` speaks of
the handles by their positions in the call; the function itself keeps three arrays.

* `pollfds` is what `poll` is given. It holds the descriptors of the handles that are
  still waited for, without gaps, and is built anew in every round.
* `poll_map` says which handle the entry of `pollfds` at an index is of. It is there if
  the wait is for all handles; otherwise the entry at an index is that of the handle there.
* `signalled_idx` says which handles have been cleaned up, and `signalled` counts those
  from the beginning on without a gap. They are there if the wait is for all handles.

An access to one of them is out of bounds if its index is not below the length – and always
if the array is not there, which is an array of length 0 here. The run then ends as a
`fault`. Otherwise it leaves a log of what is polled, which entry is looked at for which
handle, and what is cleaned up.

A round fills `pollfds` (`collect`) and scans it (`scan_all`, `scan_any`), neither with a
fault when the timeout is infinite and the cleanup functions succeed: it polls the handles
that have not been cleaned up yet, looks at the entry of each of them, and cleans up those
that are reported ready, or the first of them (`round_all`, `round_any`).
-/

namespace Libuzi

open Runs

namespace WaitArrays

open Handle Timer Wait

/-! ### The model -/

/-- `struct pollfd`. -/
structure Pollfd where
  fd : ℤ
  events : ℕ
  revents : ℕ
  deriving DecidableEq

/-- What the log of a call is made of. -/
inductive Action
  /-- `poll` is called with these entries, each of which is that of the handle at a position. -/
  | poll (submitted : List (ℕ × Pollfd))
  /-- The entry is looked at for the handle at the position `idx`. -/
  | examine (idx : ℕ) (entry : Pollfd)
  /-- `winpr_Handle_cleanup` is called for the handle at the position `idx`. -/
  | cleanup (idx : ℕ)
  deriving DecidableEq

/-- The local variables of the call, and the log. -/
structure Frame where
  /-- `signalled_idx`, `signalled` and `dwMilliseconds`. -/
  waiting : Waiting
  /-- `poll_map`. -/
  pollMap : List ℕ
  /-- `pollfds`. -/
  pollfds : List Pollfd
  /-- `polled`. -/
  polled : ℕ
  /-- `signal_handled`. -/
  signalHandled : Bool
  /-- What has been done so far. -/
  log : List Action
  deriving DecidableEq

/-- How a loop is left before its end. -/
inductive Exit
  /-- The call returns. -/
  | ret (rc : ℕ)
  /-- An access is out of bounds. -/
  | fault
  deriving DecidableEq

/-- Where a call stands. -/
inductive Status
  /-- It is about to begin a round. -/
  | waiting (f : Frame)
  /-- It has returned. -/
  | returned (f : Frame) (rc : ℕ)
  /-- It has accessed an array out of bounds. -/
  | fault (f : Frame)
  deriving DecidableEq

/-- What a round gets from outside. What `poll` reports is given by the index of the entry, and
what the cleanup functions return by the position of the handle. -/
structure Reported where
  /-- The first reading of the clock. -/
  starttime : Timespec
  /-- What `poll` returns, once it does not fail with `EINTR`. -/
  status : ℤ
  /-- `revents`. -/
  revents : ℕ → ℕ
  /-- The second reading of the clock. -/
  timenow : Timespec
  /-- `winpr_Handle_cleanup`. -/
  cleanup : ℕ → ℕ

/-- Something is done. -/
def Frame.note (f : Frame) (a : Action) : Frame := { f with log := f.log ++ [a] }

@[simp] theorem Frame.note_log (f : Frame) (a : Action) : (f.note a).log = f.log ++ [a] := rfl

@[simp] theorem Frame.note_waiting (f : Frame) (a : Action) : (f.note a).waiting = f.waiting := rfl

/-- A loop is left, and with it the call. -/
def Status.exit (f : Frame) : Exit → Status
  | .ret rc => .returned f rc
  | .fault => .fault f

section Model

variable (handles : List (Option Waitable)) (bWaitAll : Bool)

/-- The entry that is made for the handle at a position. -/
def entry (idx : ℕ) : Pollfd where
  fd := match handles.getD idx none with
    | none => -1
    | some h => h.fd
  events := events handles idx
  revents := 0

/-- The entry of a handle is appended to `pollfds`. -/
def submit (index : ℕ) (f : Frame) : Frame × Option Exit :=
  if badHandle handles index then (f, some (.ret waitFailed))
  else if f.polled < f.pollfds.length then
    ({ f with
        pollfds := f.pollfds.set f.polled (entry handles index)
        polled := f.polled + 1 }, none)
  else (f, some .fault)

/-- A round of the loop that fills `pollfds`. -/
def collectBody (index : ℕ) (f : Frame) : Frame × Option Exit :=
  if bWaitAll then
    match f.waiting.signalledIdx[index]? with
    | none => (f, some .fault)
    | some true => (f, none)
    | some false =>
      if f.polled < f.pollMap.length then
        submit handles index { f with pollMap := f.pollMap.set f.polled index }
      else (f, some .fault)
  else submit handles index f

/-- The handles whose entries are in `pollfds`. -/
def Frame.positions (f : Frame) : List ℕ :=
  if bWaitAll then f.pollMap.take f.polled else List.range f.polled

/-- `poll` has been called, and has filled in `revents`. -/
def Frame.report (revents : ℕ → ℕ) (f : Frame) : Frame :=
  let submitted := (f.positions bWaitAll).zip (f.pollfds.take f.polled)
  let pollfds := f.pollfds.mapIdx fun i e =>
    if i < f.polled then { e with revents := revents i } else e
  { f.note (.poll submitted) with pollfds := pollfds }

/-- `for (; signalled < nCount; signalled++)`, up to the first handle that is not signalled; `k`
is what is left to `nCount`. -/
def advance (signalledIdx : List Bool) : ℕ → ℕ → Option ℕ
  | 0, signalled => some signalled
  | k + 1, signalled =>
    match signalledIdx[signalled]? with
    | none => none
    | some false => some signalled
    | some true => advance signalledIdx k (signalled + 1)

/-- What is done when a cleanup has succeeded. -/
def cleanedUp (index idx : ℕ) (f : Frame) : Frame × Option Exit :=
  if bWaitAll then
    if idx < f.waiting.signalledIdx.length then
      let signalledIdx := f.waiting.signalledIdx.set idx true
      match advance signalledIdx (handles.length - f.waiting.signalled) f.waiting.signalled with
      | none => (f, some .fault)
      | some signalled =>
        let f := { f with waiting := { f.waiting with
                            signalledIdx := signalledIdx
                            signalled := signalled } }
        if handles.length ≤ signalled then (f, some (.ret waitObject0))
        else ({ f with signalHandled := true }, none)
    else (f, some .fault)
  else (f, some (.ret (waitObject0 + index)))

/-- A round of the loop over the entries of `pollfds`. -/
def scanBody (r : Reported) (index : ℕ) (f : Frame) : Frame × Option Exit :=
  match if bWaitAll then f.pollMap[index]? else some index with
  | none => (f, some .fault)
  | some idx =>
    if badHandle handles idx then (f, some (.ret waitFailed))
    else
      match f.pollfds[index]? with
      | none => (f, some .fault)
      | some e =>
        let f := f.note (.examine idx e)
        if e.revents &&& e.events ≠ 0 then
          let f := f.note (.cleanup idx)
          if r.cleanup idx ≠ waitObject0 then (f, some (.ret (r.cleanup idx)))
          else cleanedUp handles bWaitAll index idx f
        else (f, none)

/-- The part of a round after the clock has been read. -/
def scanRound (r : Reported) (f : Frame) : Status :=
  match Loop.forLoop (scanBody handles bWaitAll r) f.polled 0 { f with signalHandled := false } with
  | (f, some e) => .exit f e
  | (f, none) => if bWaitAll || !f.signalHandled then .waiting f else .returned f waitFailed

/-- The part of a round after `poll`. -/
def polledRound (r : Reported) (f : Frame) : Status :=
  if r.status < 0 then .returned f waitFailed
  else if r.status = 0 then .returned f waitTimeout
  else if bWaitAll && decide (f.waiting.dwMilliseconds ≠ infinite) then
    let diff := toUnsigned (tsDifftime r.timenow r.starttime)
    if diff / 1000 > f.waiting.dwMilliseconds then .returned f waitTimeout
    else
      let dwMilliseconds := f.waiting.dwMilliseconds - diff / 1000
      scanRound handles bWaitAll r { f with waiting := { f.waiting with
                                       dwMilliseconds := dwMilliseconds } }
  else scanRound handles bWaitAll r f

/-- **One round.** -/
def round (f : Frame) (r : Reported) : Status :=
  match Loop.forLoop (collectBody handles bWaitAll) handles.length 0 { f with polled := 0 } with
  | (f, some e) => .exit f e
  | (f, none) =>
    if f.pollfds.length < f.polled then .fault f
    else polledRound handles bWaitAll r (f.report bWaitAll r.revents)

/-- The variables before the first round. What `pollfds` holds then is `uninit`. -/
def Frame.start (dwMilliseconds : ℕ) (uninit : ℕ → Pollfd) : Frame where
  waiting :=
    { signalledIdx := if bWaitAll then List.replicate handles.length false else []
      signalled := 0
      dwMilliseconds := dwMilliseconds }
  pollMap := if bWaitAll then List.replicate handles.length 0 else []
  pollfds := (List.range handles.length).map uninit
  polled := 0
  signalHandled := false
  log := []

/-- `WaitForMultipleObjects`, up to its first round. -/
def waitForMultipleObjects (dwMilliseconds : ℕ) (uninit : ℕ → Pollfd) : Status :=
  if handles.length = 0 ∨ maximumWaitObjects < handles.length then
    .returned (Frame.start handles bWaitAll dwMilliseconds uninit) waitFailed
  else .waiting (Frame.start handles bWaitAll dwMilliseconds uninit)

/-- A call that waits has one more round. -/
def step : Status → Reported → Option Status
  | .waiting f, r => some (round handles bWaitAll f r)
  | _, _ => none

end Model

/-! ### What the call is to do -/

section Law

variable (handles : List (Option Waitable))

/-- The entry of the handle at the position `idx`, which is the one at the index `slot` of
`pollfds`, when `poll` has returned. -/
def reported (r : Reported) (slot idx : ℕ) : Pollfd :=
  { entry handles idx with revents := r.revents slot }

/-- The handle is reported ready. -/
def ready (r : Reported) (slot idx : ℕ) : Bool :=
  decide (r.revents slot &&& events handles idx ≠ 0)

/-- The handles are looked at in turn, from the index `slot` on, and those that are ready are
cleaned up. -/
def examined (r : Reported) : ℕ → List ℕ → List Action
  | _, [] => []
  | slot, idx :: rest =>
    .examine idx (reported handles r slot idx) ::
      if ready handles r slot idx then .cleanup idx :: examined r (slot + 1) rest
      else examined r (slot + 1) rest

/-- The handles that are cleaned up then. -/
def cleaned (r : Reported) : ℕ → List ℕ → List ℕ
  | _, [] => []
  | slot, idx :: rest =>
    if ready handles r slot idx then idx :: cleaned r (slot + 1) rest
    else cleaned r (slot + 1) rest

/-- The handles that have not been cleaned up, in their order. -/
def remaining (done : List ℕ) : List ℕ :=
  (List.range handles.length).filter fun idx => decide (idx ∉ done)

/-- `poll` is called for the handles at these positions. -/
def pollOf (positions : List ℕ) : Action :=
  .poll (positions.map fun idx => (idx, entry handles idx))

/-- **A wait for all handles**, those in `done` having been cleaned up before: each round polls
the remaining ones, looks at all of them, and cleans up those that are ready. -/
def waitAllLog : List Reported → List ℕ → List Action
  | [], _ => []
  | r :: rounds, done =>
    pollOf handles (remaining handles done) :: examined handles r 0 (remaining handles done) ++
      waitAllLog rounds (done ++ cleaned handles r 0 (remaining handles done))

/-- The handles are looked at in turn, from the index `slot` on, up to the first that is ready,
which is cleaned up. -/
def examinedFirst (r : Reported) : ℕ → List ℕ → List Action
  | _, [] => []
  | slot, idx :: rest =>
    .examine idx (reported handles r slot idx) ::
      if ready handles r slot idx then [.cleanup idx] else examinedFirst r (slot + 1) rest

/-- **A round of a wait for one handle.** -/
def waitAnyLog (r : Reported) : List Action :=
  pollOf handles (List.range handles.length) ::
    examinedFirst handles r 0 (List.range handles.length)

/-- The lowest position that is reported ready. -/
def firstReady (r : Reported) : Option ℕ :=
  (List.range handles.length).find? fun idx => ready handles r idx idx

/-- What is cleaned up according to a log. -/
def cleanups (log : List Action) : List ℕ :=
  log.filterMap fun a => match a with
    | .cleanup idx => some idx
    | _ => none

/-- The handles that an action is about. -/
def Action.positions : Action → List ℕ
  | .poll submitted => submitted.map Prod.fst
  | .examine idx _ => [idx]
  | .cleanup idx => [idx]

/-- **No handle is polled, looked at or cleaned up again** once it has been cleaned up. -/
def NeverAgain (log : List Action) : Prop :=
  log.Pairwise fun a b => ∀ idx, a = .cleanup idx → idx ∉ b.positions

/-- **The books of a wait for all handles** after some rounds. -/
def WaitAllLaw (rounds : List Reported) : Status → Prop
  | .waiting f => f.log = waitAllLog handles rounds [] ∧ NeverAgain f.log ∧
      ∃ idx < handles.length, idx ∉ cleanups f.log
  | .returned f rc => rc = waitObject0 ∧ f.log = waitAllLog handles rounds [] ∧
      NeverAgain f.log ∧ ∀ idx < handles.length, idx ∈ cleanups f.log
  | .fault _ => False

/-- **The books of a wait for one handle.** -/
def WaitAnyLaw (rounds : List Reported) : Status → Prop
  | .waiting f => f.log = rounds.flatMap (waitAnyLog handles) ∧ cleanups f.log = [] ∧
      ∀ r ∈ rounds, firstReady handles r = none
  | .returned f rc => f.log = rounds.flatMap (waitAnyLog handles) ∧
      ∃ earlier r idx, rounds = earlier ++ [r] ∧ (∀ r' ∈ earlier, firstReady handles r' = none) ∧
        firstReady handles r = some idx ∧ cleanups f.log = [idx] ∧ rc = waitObject0 + idx
  | .fault _ => False

end Law

/-! ### Filling `pollfds` -/

section Collect

variable {handles : List (Option Waitable)} {bWaitAll : Bool}

/-- The handles below `i` that have not been signalled. -/
def pending (w : Waiting) (i : ℕ) : List ℕ :=
  (List.range i).filter fun idx => !w.signalledIdx.getD idx false

theorem pending_succ_of_signalled {w : Waiting} {i : ℕ} (h : w.signalledIdx.getD i false = true) :
    pending w (i + 1) = pending w i := by
  rw [pending, List.range_succ, List.filter_append, List.filter_singleton, h]
  exact List.append_nil _

theorem pending_succ_of_not {w : Waiting} {i : ℕ} (h : w.signalledIdx.getD i false = false) :
    pending w (i + 1) = pending w i ++ [i] := by
  rw [pending, List.range_succ, List.filter_append, List.filter_singleton, h]
  rfl

theorem length_pending_le (w : Waiting) (i : ℕ) : (pending w i).length ≤ i :=
  (List.length_filter_le _ _).trans_eq List.length_range

/-- Replacing what comes after the first `k` elements. -/
theorem take_set_succ {α : Type*} {l : List α} {k : ℕ} (a : α) (h : k < l.length) :
    (l.set k a).take (k + 1) = l.take k ++ [a] := by
  have hk : k < (l.set k a).length := by rwa [List.length_set]
  rw [← List.take_append_getElem hk, List.getElem_set_self, List.take_set_of_le (Nat.le_refl k)]

/-- **The arrays when the loop is at `i`**, `f₀` being the frame before it: they hold the entries
of the handles below `i` that have not been signalled. -/
structure Collected (handles : List (Option Waitable)) (bWaitAll : Bool) (f₀ : Frame) (i : ℕ)
    (f : Frame) : Prop where
  waiting : f.waiting = f₀.waiting
  log : f.log = f₀.log
  mapLength : f.pollMap.length = f₀.pollMap.length
  fdsLength : f.pollfds.length = handles.length
  polled : f.polled = (pending f₀.waiting i).length
  fds : f.pollfds.take f.polled = (pending f₀.waiting i).map (entry handles)
  map : bWaitAll = true → f.pollMap.take f.polled = pending f₀.waiting i

/-- The array of flags is there if it is needed: it has an entry for each handle, or none at
all. -/
structure Allocated (handles : List (Option Waitable)) (bWaitAll : Bool) (f : Frame) : Prop where
  signalledIdx : f.waiting.signalledIdx.length = if bWaitAll then handles.length else 0
  pollMap : f.pollMap.length = if bWaitAll then handles.length else 0
  pollfds : f.pollfds.length = handles.length

variable {f₀ f : Frame} {i : ℕ}

/-- The next handle is submitted. -/
theorem Collected.submit (h : Collected handles bWaitAll f₀ i f) (hgood : Backed handles)
    (hi : i < handles.length) (hns : f₀.waiting.signalledIdx.getD i false = false)
    (hmap : bWaitAll = true → f.polled < f.pollMap.length) :
    ∃ f', submit handles i
        (if bWaitAll then { f with pollMap := f.pollMap.set f.polled i } else f) = (f', none) ∧
      Collected handles bWaitAll f₀ (i + 1) f' := by
  have hlt : f.polled < f.pollfds.length := by
    have := length_pending_le f₀.waiting i
    rw [h.polled, h.fdsLength]
    omega
  have hpolled : f.polled + 1 = (pending f₀.waiting (i + 1)).length := by
    rw [pending_succ_of_not hns, List.length_append, h.polled]
    rfl
  have hfds : (f.pollfds.set f.polled (entry handles i)).take (f.polled + 1) =
      (pending f₀.waiting (i + 1)).map (entry handles) := by
    rw [take_set_succ _ hlt, h.fds, pending_succ_of_not hns, List.map_append]
    rfl
  cases bWaitAll with
  | true =>
    rw [if_pos rfl, WaitArrays.submit, if_neg (by rw [hgood i hi]; exact Bool.false_ne_true),
      if_pos hlt]
    refine ⟨_, rfl, h.waiting, h.log, (List.length_set ..).trans h.mapLength,
      (List.length_set ..).trans h.fdsLength, hpolled, hfds, fun _ => ?_⟩
    simp only
    rw [take_set_succ _ (hmap rfl), h.map rfl, pending_succ_of_not hns]
  | false =>
    rw [if_neg Bool.false_ne_true, WaitArrays.submit,
      if_neg (by rw [hgood i hi]; exact Bool.false_ne_true), if_pos hlt]
    exact ⟨_, rfl, h.waiting, h.log, h.mapLength, (List.length_set ..).trans h.fdsLength, hpolled,
      hfds, fun h => absurd h Bool.false_ne_true⟩

/-- One round of the loop. -/
theorem Collected.step (h : Collected handles bWaitAll f₀ i f) (hgood : Backed handles)
    (halloc : Allocated handles bWaitAll f₀) (hi : i < handles.length) :
    ∃ f', collectBody handles bWaitAll i f = (f', none) ∧
      Collected handles bWaitAll f₀ (i + 1) f' := by
  have hle := length_pending_le f₀.waiting i
  cases bWaitAll with
  | false =>
    -- no handle is marked as signalled
    have hnil : f₀.waiting.signalledIdx = [] := List.length_eq_zero_iff.mp halloc.signalledIdx
    rw [collectBody, if_neg Bool.false_ne_true]
    exact h.submit hgood hi (by rw [hnil]; rfl) fun hb => absurd hb Bool.false_ne_true
  | true =>
    have hlt : i < f.waiting.signalledIdx.length := by
      rw [h.waiting, halloc.signalledIdx, if_pos rfl]
      exact hi
    have hget : f₀.waiting.signalledIdx.getD i false = f.waiting.signalledIdx[i] := by
      rw [← h.waiting, List.getD_eq_getElem?_getD, List.getElem?_eq_getElem hlt, Option.getD_some]
    rw [collectBody, if_pos rfl, List.getElem?_eq_getElem hlt]
    cases hs : f.waiting.signalledIdx[i] with
    | true =>
      have hpend := pending_succ_of_signalled (hget.trans hs)
      exact ⟨f, rfl, h.waiting, h.log, h.mapLength, h.fdsLength, by rw [hpend, h.polled],
        by rw [hpend, h.fds], fun hb => by rw [hpend, h.map hb]⟩
    | false =>
      have hmap : f.polled < f.pollMap.length := by
        rw [h.polled, h.mapLength, halloc.pollMap, if_pos rfl]
        omega
      have hsub := h.submit hgood hi (hget.trans hs) fun _ => hmap
      rw [if_pos rfl] at hsub
      simp only
      rw [if_pos hmap]
      exact hsub

/-- **`pollfds` holds the entries of the handles that have not been signalled**, and no access was
out of bounds. -/
theorem collect (hgood : Backed handles) (halloc : Allocated handles bWaitAll f₀)
    (hpolled : f₀.polled = 0) :
    ∃ f, Loop.forLoop (collectBody handles bWaitAll) handles.length 0 f₀ = (f, none) ∧
      Collected handles bWaitAll f₀ handles.length f := by
  have hstart : Collected handles bWaitAll f₀ 0 f₀ :=
    ⟨rfl, rfl, rfl, halloc.pollfds, hpolled, by rw [hpolled]; rfl, fun _ => by rw [hpolled]; rfl⟩
  have hloop := Loop.forLoop_invariant (P := Collected handles bWaitAll f₀) (k := handles.length)
    hstart fun j t _ hj ht => ht.step hgood halloc (by omega)
  rwa [Nat.zero_add] at hloop

/-- Without flags, every handle is polled. -/
theorem pending_of_nil {w : Waiting} (h : w.signalledIdx = []) (i : ℕ) :
    pending w i = List.range i := by
  rw [pending, h]
  exact List.filter_eq_self.mpr fun _ _ => rfl

/-- The submitted entries are those of the handles they are submitted for. -/
theorem Collected.positions (h : Collected handles bWaitAll f₀ i f)
    (halloc : Allocated handles bWaitAll f₀) : f.positions bWaitAll = pending f₀.waiting i := by
  cases bWaitAll with
  | true => exact h.map rfl
  | false =>
    have hnil : f₀.waiting.signalledIdx = [] := List.length_eq_zero_iff.mp halloc.signalledIdx
    rw [Frame.positions, if_neg Bool.false_ne_true, h.polled, pending_of_nil hnil,
      List.length_range]

/-- **What `poll` is given, and what it leaves behind.** -/
theorem Collected.report (h : Collected handles bWaitAll f₀ i f)
    (halloc : Allocated handles bWaitAll f₀) (r : Reported) :
    (f.report bWaitAll r.revents).log = f₀.log ++ [pollOf handles (pending f₀.waiting i)] ∧
      ∀ slot idx, (pending f₀.waiting i)[slot]? = some idx →
        (f.report bWaitAll r.revents).pollfds[slot]? = some (reported handles r slot idx) := by
  constructor
  · rw [Frame.report, h.positions halloc, h.fds, pollOf]
    simp only [Frame.note_log]
    rw [h.log, ← List.map_prod_left_eq_zip]
  · intro slot idx hslot
    have hlt : slot < f.polled := by
      rw [h.polled]
      exact (List.getElem?_eq_some_iff.mp hslot).1
    have hentry : f.pollfds[slot]? = some (entry handles idx) := by
      have htake := congrArg (fun l => l[slot]?) h.fds
      simp only [List.getElem?_take, if_pos hlt, List.getElem?_map, hslot, Option.map_some] at htake
      exact htake
    rw [Frame.report]
    simp only
    rw [List.getElem?_mapIdx, hentry, Option.map_some, if_pos hlt]
    rfl

end Collect

/-! ### Looking at the entries -/

section Scan

variable {handles : List (Option Waitable)} {r : Reported}

/-- **The scan index is resumed** where it was, and no access is out of bounds. -/
theorem advance_eq (l : List Bool) {k signalled : ℕ} (h : signalled + k = l.length) :
    advance l k signalled = some (signalled + ((l.drop signalled).takeWhile id).length) := by
  induction k generalizing signalled with
  | zero =>
    rw [advance, List.drop_eq_nil_of_le (by omega)]
    rfl
  | succ k ih =>
    have hlt : signalled < l.length := by omega
    rw [advance, List.getElem?_eq_getElem hlt, List.drop_eq_getElem_cons hlt]
    cases l[signalled] with
    | false => rfl
    | true =>
      simp only
      rw [ih (by omega), List.takeWhile_cons, id, if_pos rfl, List.length_cons]
      congr 1
      omega

/-- A handle is marked as signalled. -/
theorem cleanedUp_eq {f : Frame} {idx : ℕ} (index : ℕ) (hw : Counted handles.length f.waiting)
    (hle : f.waiting.signalled ≤ handles.length) (hidx : idx < handles.length) :
    cleanedUp handles true index idx f =
      if handles.length ≤ (f.waiting.mark idx).signalled then
        ({ f with waiting := f.waiting.mark idx }, some (.ret waitObject0))
      else ({ f with waiting := f.waiting.mark idx, signalHandled := true }, none) := by
  have hlen : idx < f.waiting.signalledIdx.length := by rwa [hw.length]
  have hbound : f.waiting.signalled + (handles.length - f.waiting.signalled) =
      (f.waiting.signalledIdx.set idx true).length := by
    rw [List.length_set, hw.length]
    omega
  have hadv := advance_eq _ hbound
  rw [cleanedUp, if_pos rfl, if_pos hlen]
  simp only [hadv]
  rfl

/-- The arrays as the scan finds them, from the index `slot` on: the entries of the handles in
`rest`. -/
structure Filled (handles : List (Option Waitable)) (bWaitAll : Bool) (r : Reported) (slot : ℕ)
    (rest : List ℕ) (f : Frame) : Prop where
  fds : ∀ k idx, rest[k]? = some idx →
    f.pollfds[slot + k]? = some (reported handles r (slot + k) idx)
  map : ∀ k idx, rest[k]? = some idx →
    (if bWaitAll then f.pollMap[slot + k]? else some (slot + k)) = some idx

theorem Filled.tail {bWaitAll : Bool} {slot idx : ℕ} {rest : List ℕ} {f f' : Frame}
    (h : Filled handles bWaitAll r slot (idx :: rest) f) (hfds : f'.pollfds = f.pollfds)
    (hmap : f'.pollMap = f.pollMap) : Filled handles bWaitAll r (slot + 1) rest f' := by
  constructor
  · intro k idx' hk
    rw [hfds, Nat.add_right_comm, Nat.add_assoc]
    exact h.fds (k + 1) idx' hk
  · intro k idx' hk
    rw [hmap, Nat.add_right_comm, Nat.add_assoc]
    exact h.map (k + 1) idx' hk

/-- An entry is looked at. -/
theorem scanBody_eq {bWaitAll : Bool} {slot idx : ℕ} {rest : List ℕ} {f : Frame}
    (h : Filled handles bWaitAll r slot (idx :: rest) f) (hbad : badHandle handles idx = false)
    (hcl : r.cleanup idx = waitObject0) :
    scanBody handles bWaitAll r slot f =
      if ready handles r slot idx then
        cleanedUp handles bWaitAll slot idx
          ((f.note (.examine idx (reported handles r slot idx))).note (.cleanup idx))
      else (f.note (.examine idx (reported handles r slot idx)), none) := by
  have hmap := h.map 0 idx rfl
  have hfds := h.fds 0 idx rfl
  rw [Nat.add_zero] at hmap hfds
  rw [scanBody, hmap]
  simp only
  rw [if_neg (by rw [hbad]; exact Bool.false_ne_true), hfds]
  simp only
  have hready : ready handles r slot idx = true ↔
      (reported handles r slot idx).revents &&& (reported handles r slot idx).events ≠ 0 :=
    decide_eq_true_iff
  by_cases hset : ready handles r slot idx = true
  · rw [if_pos (hready.mp hset), if_pos hset, if_neg (not_not.mpr hcl)]
  · rw [if_neg fun hne => hset (hready.mpr hne), if_neg hset]

/-- A handle that is ready is cleaned up and marked, in a wait for all handles. -/
theorem scanBody_ready {slot idx : ℕ} {rest : List ℕ} {f : Frame}
    (h : Filled handles true r slot (idx :: rest) f) (hbad : badHandle handles idx = false)
    (hcl : r.cleanup idx = waitObject0) (hset : ready handles r slot idx = true)
    (hw : Counted handles.length f.waiting) (hle : f.waiting.signalled ≤ handles.length)
    (hidx : idx < handles.length) :
    ∃ g, g.waiting = f.waiting.mark idx ∧ g.pollMap = f.pollMap ∧ g.pollfds = f.pollfds ∧
      g.log = f.log ++ [.examine idx (reported handles r slot idx), .cleanup idx] ∧
      scanBody handles true r slot f =
        (g, if handles.length ≤ (f.waiting.mark idx).signalled then some (.ret waitObject0)
          else none) := by
  have hmarked := cleanedUp_eq
    (f := (f.note (.examine idx (reported handles r slot idx))).note (.cleanup idx))
    slot hw hle hidx
  rw [scanBody_eq h hbad hcl, if_pos hset, hmarked]
  by_cases hall : handles.length ≤ (f.waiting.mark idx).signalled
  · rw [if_pos hall, if_pos (by exact hall)]
    refine ⟨_, ?_, ?_, ?_, ?_, rfl⟩
    · rfl
    · rfl
    · rfl
    · exact List.append_assoc ..
  · rw [if_neg hall, if_neg (by exact hall)]
    refine ⟨_, ?_, ?_, ?_, ?_, rfl⟩
    · rfl
    · rfl
    · rfl
    · exact List.append_assoc ..

/-- A handle that is not ready is left alone. -/
theorem scanBody_unready {bWaitAll : Bool} {slot idx : ℕ} {rest : List ℕ} {f : Frame}
    (h : Filled handles bWaitAll r slot (idx :: rest) f) (hbad : badHandle handles idx = false)
    (hcl : r.cleanup idx = waitObject0) (hset : ¬ready handles r slot idx = true) :
    scanBody handles bWaitAll r slot f =
      (f.note (.examine idx (reported handles r slot idx)), none) := by
  rw [scanBody_eq h hbad hcl, if_neg hset]

/-- **How the scan ends in a wait for all handles**: everything that is ready has been cleaned up
and marked; if nothing is left then the call returns, and otherwise the loop runs through. -/
theorem scan_all {f : Frame} {slot : ℕ} {rest : List ℕ}
    (hfilled : Filled handles true r slot rest f) (hgood : Backed handles)
    (hcl : ∀ idx, r.cleanup idx = waitObject0) (hw : Counted handles.length f.waiting)
    (hlt : f.waiting.signalled < handles.length)
    (hrest : ∀ idx ∈ rest, idx < handles.length ∧ f.waiting.signalledIdx.getD idx false = false)
    (hnd : rest.Nodup) :
    ∃ f', f'.log = f.log ++ examined handles r slot rest ∧ f'.pollMap = f.pollMap ∧
      f'.pollfds = f.pollfds ∧ f'.waiting.dwMilliseconds = f.waiting.dwMilliseconds ∧
      Counted handles.length f'.waiting ∧
      (∀ k < handles.length, f'.waiting.signalledIdx.getD k false = true ↔
        f.waiting.signalledIdx.getD k false = true ∨ k ∈ cleaned handles r slot rest) ∧
      (Loop.forLoop (scanBody handles true r) rest.length slot f = (f', none) ∧
          f'.waiting.signalled < handles.length ∨
        Loop.forLoop (scanBody handles true r) rest.length slot f = (f', some (.ret waitObject0)) ∧
          handles.length ≤ f'.waiting.signalled) := by
  induction rest generalizing f slot with
  | nil =>
    refine ⟨f, (List.append_nil _).symm, rfl, rfl, rfl, hw, fun k _ => ?_, .inl ⟨rfl, hlt⟩⟩
    exact ⟨Or.inl, fun h => h.resolve_right List.not_mem_nil⟩
  | cons idx rest ih =>
    obtain ⟨hidx, hnd⟩ := List.nodup_cons.mp hnd
    obtain ⟨hidxlt, hidxns⟩ := hrest idx List.mem_cons_self
    by_cases hset : ready handles r slot idx = true
    · -- the handle is cleaned up
      obtain ⟨g, hgw, hgm, hgf, hglog, hbody⟩ :=
        scanBody_ready hfilled (hgood idx hidxlt) (hcl idx) hset hw hlt.le hidxlt
      have hrest' := mark_rest hidx hrest
      rw [← hgw] at hrest'
      have hmark : ∀ k < handles.length, g.waiting.signalledIdx.getD k false = true ↔
          f.waiting.signalledIdx.getD k false = true ∨ k = idx := by
        intro k hk
        rw [hgw]
        by_cases hne : k = idx
        · rw [hne, mark_getD_self hw hidxlt]
          exact ⟨fun _ => .inr rfl, fun _ => rfl⟩
        · rw [mark_getD_of_ne hne]
          exact ⟨Or.inl, fun h => h.resolve_right hne⟩
      have hgcounted : Counted handles.length g.waiting := by
        rw [hgw]
        exact hw.mark idx
      have hgdw : g.waiting.dwMilliseconds = f.waiting.dwMilliseconds := by
        rw [hgw]
        rfl
      rw [examined, if_pos hset, cleaned, if_pos hset]
      rw [← hgw] at hbody
      by_cases hall : handles.length ≤ g.waiting.signalled
      · obtain rfl : rest = [] := hgcounted.eq_nil hall hrest'
        rw [if_pos hall] at hbody
        refine ⟨g, hglog, hgm, hgf, hgdw, hgcounted, fun k hk => ?_,
          .inr ⟨Loop.forLoop_stop hbody _, hall⟩⟩
        rw [cleaned, List.mem_singleton]
        exact hmark k hk
      · rw [if_neg hall] at hbody
        obtain ⟨f', hlog, hpm, hfd, hdw, hw', hsig, hend⟩ :=
          ih (hfilled.tail hgf hgm) hgcounted (Nat.not_le.mp hall) hrest' hnd
        refine ⟨f', ?_, hpm.trans hgm, hfd.trans hgf, hdw.trans hgdw, hw', fun k hk => ?_, ?_⟩
        · rw [hlog, hglog]
          exact List.append_assoc ..
        · rw [hsig k hk, List.mem_cons, ← or_assoc]
          exact or_congr_left (hmark k hk)
        · rw [List.length_cons, Loop.forLoop_next hbody]
          exact hend
    · have hbody := scanBody_unready hfilled (hgood idx hidxlt) (hcl idx) hset
      rw [examined, if_neg hset, cleaned, if_neg hset]
      obtain ⟨f', hlog, hpm, hfd, hdw, hw', hsig, hend⟩ :=
        ih (f := f.note (.examine idx (reported handles r slot idx))) (hfilled.tail rfl rfl) hw hlt
          (fun k hk => hrest k (List.mem_cons_of_mem idx hk)) hnd
      refine ⟨f', ?_, hpm, hfd, hdw, hw', hsig, ?_⟩
      · rw [hlog]
        exact List.append_assoc ..
      · rw [List.length_cons, Loop.forLoop_next hbody]
        exact hend

/-- **How the scan ends in a wait for one handle**: at the first handle that is ready, which is
cleaned up and whose index is returned; or, if there is none, at the end. -/
theorem scan_any {f : Frame} {slot k : ℕ}
    (hfilled : Filled handles false r slot (List.range' slot k) f) (hgood : Backed handles)
    (hcl : ∀ idx, r.cleanup idx = waitObject0) (hk : slot + k = handles.length) :
    ∃ f', f'.log = f.log ++ examinedFirst handles r slot (List.range' slot k) ∧
      f'.pollMap = f.pollMap ∧ f'.pollfds = f.pollfds ∧ f'.waiting = f.waiting ∧
      f'.signalHandled = f.signalHandled ∧
      Loop.forLoop (scanBody handles false r) k slot f =
        (f', ((List.range' slot k).find? fun idx => ready handles r idx idx).map fun idx =>
          .ret (waitObject0 + idx)) := by
  induction k generalizing f slot with
  | zero => exact ⟨f, (List.append_nil _).symm, rfl, rfl, rfl, rfl, rfl⟩
  | succ k ih =>
    rw [List.range'_succ] at hfilled ⊢
    by_cases hset : ready handles r slot slot = true
    · have hbody := scanBody_eq hfilled (hgood slot (by omega)) (hcl slot)
      rw [if_pos hset, cleanedUp, if_neg Bool.false_ne_true] at hbody
      rw [examinedFirst, if_pos hset,
        List.find?_cons_of_pos (p := fun idx => ready handles r idx idx) hset,
        Loop.forLoop_stop hbody]
      refine ⟨(f.note (.examine slot (reported handles r slot slot))).note (.cleanup slot), ?_,
        rfl, rfl, rfl, rfl, rfl⟩
      exact List.append_assoc ..
    · have hbody := scanBody_unready hfilled (hgood slot (by omega)) (hcl slot) hset
      rw [examinedFirst, if_neg hset,
        List.find?_cons_of_neg (p := fun idx => ready handles r idx idx) hset,
        Loop.forLoop_next hbody]
      obtain ⟨f', hlog, hpm, hfd, hw, hsh, hend⟩ :=
        ih (f := f.note (.examine slot (reported handles r slot slot))) (hfilled.tail rfl rfl)
          (by omega)
      refine ⟨f', ?_, hpm, hfd, hw, hsh, hend⟩
      rw [hlog]
      exact List.append_assoc ..

end Scan

/-! ### One round -/

section Round

variable {handles : List (Option Waitable)} {bWaitAll : Bool} {r : Reported} {f₀ f : Frame}

/-- When `poll` has returned, the entries are where the scan looks for them. -/
theorem Collected.filled (h : Collected handles bWaitAll f₀ handles.length f)
    (halloc : Allocated handles bWaitAll f₀) {g : Frame}
    (hfds : g.pollfds = (f.report bWaitAll r.revents).pollfds) (hmap : g.pollMap = f.pollMap) :
    Filled handles bWaitAll r 0 (pending f₀.waiting handles.length) g := by
  constructor
  · intro k idx hk
    rw [Nat.zero_add, hfds]
    exact (h.report halloc r).2 k idx hk
  · intro k idx hk
    rw [Nat.zero_add, hmap]
    have hlt : k < f.polled := by
      rw [h.polled]
      exact (List.getElem?_eq_some_iff.mp hk).1
    cases bWaitAll with
    | true =>
      rw [← h.map rfl, List.getElem?_take, if_pos hlt] at hk
      rw [if_pos rfl, hk]
    | false =>
      have hnil : f₀.waiting.signalledIdx = [] := List.length_eq_zero_iff.mp halloc.signalledIdx
      rw [pending_of_nil hnil] at hk
      obtain ⟨hk', rfl⟩ := List.getElem?_eq_some_iff.mp hk
      rw [if_neg Bool.false_ne_true, List.getElem_range]

/-- **A round with an infinite timeout in which `poll` reports something** is the scan of the
entries, after they have been submitted. -/
theorem round_eq (halloc : Allocated handles bWaitAll f) (hgood : Backed handles)
    (hdw : f.waiting.dwMilliseconds = infinite) (hstatus : 0 < r.status) :
    ∃ g, Filled handles bWaitAll r 0 (pending f.waiting handles.length) g ∧
      g.waiting = f.waiting ∧ g.signalHandled = false ∧
      g.log = f.log ++ [pollOf handles (pending f.waiting handles.length)] ∧
      Allocated handles bWaitAll g ∧
      round handles bWaitAll f r =
        match Loop.forLoop (scanBody handles bWaitAll r)
            (pending f.waiting handles.length).length 0 g with
        | (f', some e) => .exit f' e
        | (f', none) =>
          if bWaitAll || !f'.signalHandled then .waiting f' else .returned f' waitFailed := by
  have halloc₀ : Allocated handles bWaitAll { f with polled := 0 } :=
    ⟨halloc.signalledIdx, halloc.pollMap, halloc.pollfds⟩
  obtain ⟨t, hcollect, ht⟩ := collect hgood halloc₀ rfl
  refine ⟨{ t.report bWaitAll r.revents with signalHandled := false }, ht.filled halloc₀ rfl rfl,
    ht.waiting, rfl, (ht.report halloc₀ r).1, ⟨?_, ?_, ?_⟩, ?_⟩
  · exact (congrArg (fun w => w.signalledIdx.length) ht.waiting).trans halloc.signalledIdx
  · exact ht.mapLength.trans halloc.pollMap
  · exact (List.length_mapIdx ..).trans ht.fdsLength
  · have hle : t.polled ≤ t.pollfds.length := by
      rw [ht.polled, ht.fdsLength]
      exact length_pending_le _ _
    have hinf : ¬(bWaitAll && decide ((t.report bWaitAll r.revents).waiting.dwMilliseconds ≠
        infinite)) = true := by
      have hsame : (t.report bWaitAll r.revents).waiting = f.waiting := ht.waiting
      rw [hsame, hdw]
      simp
    rw [round, hcollect]
    simp only
    rw [if_neg (Nat.not_lt.mpr hle), polledRound, if_neg (by omega), if_neg (by omega),
      if_neg hinf, scanRound]
    have hpolled : (t.report bWaitAll r.revents).polled =
        (pending f.waiting handles.length).length := ht.polled
    rw [hpolled]

/-- **A round of a wait for all handles.** -/
theorem round_all (halloc : Allocated handles true f) (hgood : Backed handles)
    (hw : Counted handles.length f.waiting) (hlt : f.waiting.signalled < handles.length)
    (hdw : f.waiting.dwMilliseconds = infinite) (hstatus : 0 < r.status)
    (hcl : ∀ idx, r.cleanup idx = waitObject0) :
    ∃ f', f'.log = f.log ++ (pollOf handles (pending f.waiting handles.length) ::
        examined handles r 0 (pending f.waiting handles.length)) ∧
      Allocated handles true f' ∧ Counted handles.length f'.waiting ∧
      f'.waiting.dwMilliseconds = infinite ∧
      (∀ k < handles.length, f'.waiting.signalledIdx.getD k false = true ↔
        f.waiting.signalledIdx.getD k false = true ∨
          k ∈ cleaned handles r 0 (pending f.waiting handles.length)) ∧
      (round handles true f r = .waiting f' ∧ f'.waiting.signalled < handles.length ∨
        round handles true f r = .returned f' waitObject0 ∧
          handles.length ≤ f'.waiting.signalled) := by
  obtain ⟨g, hfilled, hgw, -, hglog, hgalloc, hround⟩ := round_eq halloc hgood hdw hstatus
  have hpending : ∀ idx ∈ pending f.waiting handles.length,
      idx < handles.length ∧ g.waiting.signalledIdx.getD idx false = false := by
    intro idx hidx
    obtain ⟨hmem, hns⟩ := List.mem_filter.mp hidx
    rw [hgw]
    exact ⟨List.mem_range.mp hmem, by simpa using hns⟩
  obtain ⟨f', hlog, hpm, hfd, hdw', hw', hsig, hend⟩ := scan_all hfilled hgood hcl
    (by rwa [hgw]) (by rwa [hgw]) hpending (List.nodup_range.filter _)
  rw [hgw] at hsig hdw'
  refine ⟨f', ?_, ⟨?_, ?_, ?_⟩, hw', hdw'.trans hdw, hsig, ?_⟩
  · rw [hlog, hglog, List.append_assoc]
    rfl
  · rw [hw'.length, if_pos rfl]
  · rw [hpm, hgalloc.pollMap]
  · rw [hfd, hgalloc.pollfds]
  · rw [hround]
    rcases hend with ⟨hloop, hcount⟩ | ⟨hloop, hcount⟩
    · rw [hloop]
      exact .inl ⟨rfl, hcount⟩
    · rw [hloop]
      exact .inr ⟨rfl, hcount⟩

/-- **A round of a wait for one handle.** -/
theorem round_any (halloc : Allocated handles false f) (hgood : Backed handles)
    (hdw : f.waiting.dwMilliseconds = infinite) (hstatus : 0 < r.status)
    (hcl : ∀ idx, r.cleanup idx = waitObject0) :
    ∃ f', f'.log = f.log ++ waitAnyLog handles r ∧ Allocated handles false f' ∧
      f'.waiting.dwMilliseconds = infinite ∧
      round handles false f r = match firstReady handles r with
        | none => .waiting f'
        | some idx => .returned f' (waitObject0 + idx) := by
  obtain ⟨g, hfilled, hgw, hgsh, hglog, hgalloc, hround⟩ := round_eq halloc hgood hdw hstatus
  have hnil : f.waiting.signalledIdx = [] := List.length_eq_zero_iff.mp halloc.signalledIdx
  have hpending : pending f.waiting handles.length = List.range' 0 handles.length := by
    rw [pending_of_nil hnil, List.range_eq_range']
  rw [hpending, List.length_range'] at hround
  rw [hpending] at hfilled hglog
  obtain ⟨f', hlog, hpm, hfd, hw, hsh, hend⟩ := scan_any hfilled hgood hcl (Nat.zero_add _)
  refine ⟨f', ?_, ⟨?_, ?_, ?_⟩, ?_, ?_⟩
  · rw [hlog, hglog, waitAnyLog, List.range_eq_range', List.append_assoc]
    rfl
  · rw [hw, hgalloc.signalledIdx]
  · rw [hpm, hgalloc.pollMap]
  · rw [hfd, hgalloc.pollfds]
  · rw [hw, hgw, hdw]
  · rw [hround, hend, firstReady, List.range_eq_range']
    cases (List.range' 0 handles.length).find? fun idx => ready handles r idx idx with
    | none =>
      simp only [Option.map_none]
      rw [hsh, hgsh]
      rfl
    | some idx => rfl

end Round

end WaitArrays

end Libuzi
