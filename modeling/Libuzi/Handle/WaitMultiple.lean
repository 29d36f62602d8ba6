import Libuzi.Runs
import Libuzi.Handle.Handle
import Libuzi.Timer.Timespec

/-!
# Waiting for several objects

`WaitForMultipleObjects` (`libuzi/wait.c`, in the build with `poll`). It polls the
descriptors of the handles, calls the cleanup function of every handle that is reported
ready, and, if it is to wait for all of them, polls the remaining ones again. Before and
after the poll it reads the clock, in order to take what the round has cost from the
timeout.

What the outside does in one round – what the clock reads, what `poll` reports, what the
cleanup functions return – is a label, so that a call is a run over a list of rounds.

The difference of the two readings is taken the wrong way round, as the start less the
present, and stored in an unsigned variable. A clock that has advanced between the two
readings gives a difference near `2 ^ 64`, which no timeout survives: the call returns
`WAIT_TIMEOUT` although something, or everything, has been reported ready
(`waitAll_times_out_early`). It does what it should exactly when the clock stands still
in each such round (`waitAll_never_early_iff`).
-/

namespace Libuzi

open Runs

namespace Wait

open Handle Timer

/-! ### The model -/

/-- `INFINITE`. -/
def infinite : ℕ := 0xFFFFFFFF

/-- `MAXIMUM_WAIT_OBJECTS`. -/
def maximumWaitObjects : ℕ := 64

/-- A handle as the wait functions see it. -/
structure Waitable where
  /-- What `GetFd` returns. -/
  fd : ℤ
  /-- `Mode`. -/
  mode : ℕ
  deriving DecidableEq

/-- What a round of the loop gets from outside. What `poll` reports and what the cleanup
functions return is given by the position of the handle in the call. -/
structure Round where
  /-- The first reading of the clock. -/
  starttime : Timespec
  /-- `poll` fails, other than by `EINTR`. -/
  pollFails : Bool
  /-- `revents`. -/
  revents : ℕ → ℕ
  /-- When `poll` returns. -/
  pollEnd : Timespec
  /-- The second reading of the clock. -/
  timenow : Timespec
  /-- `winpr_Handle_cleanup`. -/
  cleanup : ℕ → ℕ

/-- The variables that live from one round to the next. -/
structure Waiting where
  /-- `signalled_idx`. -/
  signalledIdx : List Bool
  /-- `signalled`. -/
  signalled : ℕ
  /-- `dwMilliseconds`. -/
  dwMilliseconds : ℕ
  deriving DecidableEq

/-- Where a call stands. -/
inductive Status
  /-- It has returned before the first round. -/
  | refused (rc : ℕ)
  /-- It is about to begin a round. -/
  | waiting (w : Waiting)
  /-- It has returned in the round `r`, which began with `w`. -/
  | returned (w : Waiting) (r : Round) (rc : ℕ)

/-- `ts_difftime`, a `long long`. -/
def tsDifftime (o n : Timespec) : ℤ := Int.bmod (n.toNs - o.toNs) (2 ^ 64)

/-- The conversion to `unsigned long long`. -/
def toUnsigned (x : ℤ) : ℕ := (x % 2 ^ 64).toNat

section Model

variable (handles : List (Option Waitable))

/-- `winpr_Handle_GetInfo` fails, or there is no descriptor. -/
def badHandle (idx : ℕ) : Bool :=
  match handles.getD idx none with
  | none => true
  | some h => decide (h.fd = -1)

/-- `pollfds[..].events`. -/
def events (idx : ℕ) : ℕ :=
  match handles.getD idx none with
  | none => 0
  | some h => handleModeToPollevent h.mode

/-- `signal_set`. -/
def Round.signalSet (r : Round) (idx : ℕ) : Bool :=
  decide (r.revents idx &&& events handles idx ≠ 0)

/-- The handles that are polled, by their positions: `poll_map`. -/
def Waiting.polled (w : Waiting) (bWaitAll : Bool) : List ℕ :=
  if bWaitAll then (List.range handles.length).filter fun idx => !w.signalledIdx.getD idx false
  else List.range handles.length

/-- What `poll` returns, if it does not fail: how many descriptors have something reported. -/
def Round.status (r : Round) (polled : List ℕ) : ℕ := (polled.filter (r.revents · ≠ 0)).length

/-- `signalled_idx[idx] = TRUE`, and the checks from the last position. -/
def Waiting.mark (w : Waiting) (idx : ℕ) : Waiting :=
  let signalledIdx := w.signalledIdx.set idx true
  { w with
    signalledIdx := signalledIdx
    signalled := w.signalled + ((signalledIdx.drop w.signalled).takeWhile id).length }

/-- The loop over the polled handles, from `index` on: the value that is returned, or the
variables after the loop together with `signal_handled`. -/
def scan (bWaitAll : Bool) (r : Round) :
    ℕ → List ℕ → Waiting → Bool → Except ℕ (Waiting × Bool)
  | _, [], w, signalHandled => .ok (w, signalHandled)
  | index, idx :: rest, w, signalHandled =>
    if badHandle handles idx then .error waitFailed
    else if r.signalSet handles idx then
      if r.cleanup idx ≠ waitObject0 then .error (r.cleanup idx)
      else if bWaitAll then
        if handles.length ≤ (w.mark idx).signalled then .error waitObject0
        else scan bWaitAll r (index + 1) rest (w.mark idx) true
      else .error (waitObject0 + index)
    else scan bWaitAll r (index + 1) rest w signalHandled

/-- The rest of a round, once the timeout has been adjusted. -/
def finishRound (bWaitAll : Bool) (w₀ : Waiting) (r : Round) (w : Waiting) : Status :=
  match scan handles bWaitAll r 0 (w.polled handles bWaitAll) w false with
  | .error rc => .returned w₀ r rc
  | .ok (w', signalHandled) =>
    if bWaitAll || !signalHandled then .waiting w' else .returned w₀ r waitFailed

/-- **One round.** -/
def round (bWaitAll : Bool) (w : Waiting) (r : Round) : Status :=
  if (w.polled handles bWaitAll).any (badHandle handles) then .returned w r waitFailed
  else if r.pollFails then .returned w r waitFailed
  else if r.status (w.polled handles bWaitAll) = 0 then .returned w r waitTimeout
  else if bWaitAll && decide (w.dwMilliseconds ≠ infinite) then
    let diff := toUnsigned (tsDifftime r.timenow r.starttime)
    if diff / 1000 > w.dwMilliseconds then .returned w r waitTimeout
    else finishRound handles bWaitAll w r
      { w with dwMilliseconds := w.dwMilliseconds - diff / 1000 }
  else finishRound handles bWaitAll w r w

/-- The call, up to its first round. -/
def waitForMultipleObjects (dwMilliseconds : ℕ) : Status :=
  if handles.length = 0 ∨ maximumWaitObjects < handles.length then .refused waitFailed
  else .waiting
    { signalledIdx := List.replicate handles.length false
      signalled := 0
      dwMilliseconds := dwMilliseconds }

/-- A call that waits has one more round. -/
def step (bWaitAll : Bool) : Status → Round → Option Status
  | .waiting w, r => some (round handles bWaitAll w r)
  | _, _ => none

end Model

/-! ### What is asked of the call -/

section Law

variable (handles : List (Option Waitable))

/-- The round is over when `poll` has returned, if it has timed out, and otherwise not before the
second reading of the clock. -/
def endTime (w : Waiting) (r : Round) : Timespec :=
  if r.status (w.polled handles true) = 0 then r.pollEnd else r.timenow

/-- `dwMilliseconds` have passed since `t₀` when the round is over. -/
def Elapsed (t₀ : Timespec) (dwMilliseconds : ℕ) (w : Waiting) (r : Round) : Prop :=
  t₀.toNs + dwMilliseconds * 1000000 ≤ (endTime handles w r).toNs

/-- Some handle has not been reported ready, in this round or before. -/
def Unready (w : Waiting) (r : Round) : Prop :=
  ∃ idx < handles.length, w.signalledIdx.getD idx false = false ∧ r.signalSet handles idx = false

/-- **A round that the clock and `poll` can produce**: the clock does not go back and stays within
a `long long`, and `poll` reports nothing only after its timeout, of which a negative one never
passes. -/
def Possible (w : Waiting) (r : Round) : Prop :=
  (0 ≤ r.starttime.toNs ∧ r.starttime.toNs ≤ r.pollEnd.toNs ∧ r.pollEnd.toNs ≤ r.timenow.toNs ∧
    r.timenow.toNs < 2 ^ 63) ∧
  (r.pollFails = false → r.status (w.polled handles true) = 0 → w.dwMilliseconds < 2 ^ 31 ∧
    r.starttime.toNs + w.dwMilliseconds * 1000000 ≤ r.pollEnd.toNs)

/-- **A sequence of such rounds**, the first of which begins at `t` or later, and each of the
others when the one before it is over. -/
def Trace : Status → Timespec → List Round → Prop
  | _, _, [] => True
  | .waiting w, t, r :: rs =>
    t.toNs ≤ r.starttime.toNs ∧ Possible handles w r ∧
      Trace (round handles true w r) r.timenow rs
  | _, _, _ :: _ => True

/-- What the cleanup functions of the handles in `l` that are ready return, up to the first that
fails. -/
def firstFailure (r : Round) (l : List ℕ) : Option ℕ :=
  ((l.filter (r.signalSet handles)).map r.cleanup).find? (· ≠ waitObject0)

/-- **The condition on a round**: if anything is reported, the clock stands still from the first
reading to the second and no cleanup function times out, or the time is over and some handle has
not been reported ready. -/
def Punctual (t₀ : Timespec) (dwMilliseconds : ℕ) : Status → Round → Prop
  | .waiting w, r =>
    r.pollFails = false → r.status (w.polled handles true) ≠ 0 →
      r.timenow.toNs = r.starttime.toNs ∧
          firstFailure handles r (w.polled handles true) ≠ some waitTimeout ∨
        Elapsed handles t₀ dwMilliseconds w r ∧ Unready handles w r
  | _, _ => True

/-- Every handle is ready at the first poll, and every cleanup succeeds. -/
def AllReady (rounds : List Round) : Prop :=
  ∀ r ∈ rounds.head?, r.pollFails = false ∧ ∀ idx < handles.length,
    r.signalSet handles idx = true ∧ r.cleanup idx = waitObject0

/-- **The call does not time out early.** -/
def NeverEarly (t₀ : Timespec) (dwMilliseconds : ℕ) (rounds : List Round) (w : Waiting)
    (r : Round) (rc : ℕ) : Prop :=
  (rc = waitTimeout → Elapsed handles t₀ dwMilliseconds w r ∧ Unready handles w r) ∧
    (AllReady handles rounds → rc = waitObject0)

end Law

/-! ### The clock -/

theorem toUnsigned_tsDifftime (o n : Timespec) :
    toUnsigned (tsDifftime o n) = ((n.toNs - o.toNs) % 2 ^ 64).toNat := by
  rw [toUnsigned, tsDifftime]
  exact congrArg Int.toNat (Int.bmod_emod ..)

/-- **A clock that has advanced gives a difference that no timeout survives.** -/
theorem toUnsigned_tsDifftime_gt {s n : Timespec} {dwMilliseconds : ℕ} (hs : 0 ≤ s.toNs)
    (hsn : s.toNs < n.toNs) (hn : n.toNs < 2 ^ 63) (hdw : dwMilliseconds ≤ infinite) :
    toUnsigned (tsDifftime n s) / 1000 > dwMilliseconds := by
  rw [toUnsigned_tsDifftime]
  have hmod : (s.toNs - n.toNs) % 2 ^ 64 = s.toNs - n.toNs + 2 ^ 64 := by omega
  rw [hmod]
  unfold infinite at hdw
  omega

/-- A clock that stands still takes nothing from the timeout. -/
theorem toUnsigned_tsDifftime_eq_zero {s n : Timespec} (h : n.toNs = s.toNs) :
    toUnsigned (tsDifftime n s) = 0 := by
  rw [toUnsigned_tsDifftime, h, sub_self]
  rfl

/-! ### The handles that have been signalled -/

/-- The first entry that is not set. -/
theorem takeWhile_length_le {l : List Bool} {idx : ℕ} (h : l.getD idx false = false) :
    (l.takeWhile id).length ≤ idx := by
  induction l generalizing idx with
  | nil => exact Nat.zero_le idx
  | cons b l ih =>
    cases b with
    | false => exact Nat.zero_le idx
    | true =>
      cases idx with
      | zero => exact absurd h.symm Bool.false_ne_true
      | succ idx => exact Nat.succ_le_succ (ih h)

theorem getD_takeWhile_length (l : List Bool) : l.getD (l.takeWhile id).length false = false := by
  induction l with
  | nil => rfl
  | cons b l ih =>
    cases b with
    | false => rfl
    | true => exact ih

/-- The entries that are known to be set need not be looked at again. -/
theorem takeWhile_length_add {l : List Bool} {k : ℕ} (h : k ≤ (l.takeWhile id).length) :
    k + ((l.drop k).takeWhile id).length = (l.takeWhile id).length := by
  induction k generalizing l with
  | zero => rw [Nat.zero_add, List.drop_zero]
  | succ k ih =>
    cases l with
    | nil => exact absurd h (Nat.not_succ_le_zero k)
    | cons b l =>
      cases b with
      | false => exact absurd h (Nat.not_succ_le_zero k)
      | true =>
        have hk : k ≤ (l.takeWhile id).length := Nat.le_of_succ_le_succ h
        have := ih hk
        simp only [List.drop_succ_cons, List.takeWhile_cons, id, if_true, List.length_cons]
        omega

theorem takeWhile_length_le_set (l : List Bool) (idx : ℕ) :
    (l.takeWhile id).length ≤ ((l.set idx true).takeWhile id).length := by
  induction l generalizing idx with
  | nil => exact Nat.zero_le _
  | cons b l ih =>
    cases b with
    | false => exact Nat.zero_le _
    | true =>
      cases idx with
      | zero => exact le_refl _
      | succ idx => exact Nat.succ_le_succ (ih idx)

/-- **The counter is at the first entry that is not set.** -/
structure Counted (n : ℕ) (w : Waiting) : Prop where
  length : w.signalledIdx.length = n
  signalled : w.signalled = (w.signalledIdx.takeWhile id).length

theorem Counted.mark {n : ℕ} {w : Waiting} (h : Counted n w) (idx : ℕ) :
    Counted n (w.mark idx) := by
  refine ⟨(List.length_set ..).trans h.length, ?_⟩
  refine takeWhile_length_add ?_
  rw [h.signalled]
  exact takeWhile_length_le_set _ idx

theorem Counted.le {n idx : ℕ} {w : Waiting} (h : Counted n w)
    (hidx : w.signalledIdx.getD idx false = false) : w.signalled ≤ idx := by
  rw [h.signalled]
  exact takeWhile_length_le hidx

theorem Counted.getD {n : ℕ} {w : Waiting} (h : Counted n w) :
    w.signalledIdx.getD w.signalled false = false := by
  rw [h.signalled]
  exact getD_takeWhile_length _

theorem mark_getD_of_ne {w : Waiting} {idx k : ℕ} (h : k ≠ idx) :
    (w.mark idx).signalledIdx.getD k false = w.signalledIdx.getD k false := by
  simp [Waiting.mark, List.getD_eq_getElem?_getD, List.getElem?_set_ne h.symm]

theorem mark_getD_self {n idx : ℕ} {w : Waiting} (h : Counted n w) (hidx : idx < n) :
    (w.mark idx).signalledIdx.getD idx false = true := by
  have hlen : idx < w.signalledIdx.length := by rwa [h.length]
  simp [Waiting.mark, List.getD_eq_getElem?_getD, List.getElem?_set_self hlen]

/-- When a position is marked, those behind it in the list are still not signalled. -/
theorem mark_rest {n idx : ℕ} {w : Waiting} {l : List ℕ} (hidx : idx ∉ l)
    (hl : ∀ k ∈ idx :: l, k < n ∧ w.signalledIdx.getD k false = false) :
    ∀ k ∈ l, k < n ∧ (w.mark idx).signalledIdx.getD k false = false := by
  intro k hk
  have hne : k ≠ idx := fun h => hidx (h ▸ hk)
  rw [mark_getD_of_ne hne]
  exact hl k (List.mem_cons_of_mem idx hk)

/-- When everything has been signalled, nothing is left in the list. -/
theorem Counted.eq_nil {n : ℕ} {w : Waiting} {l : List ℕ} (h : Counted n w)
    (hall : n ≤ w.signalled) (hl : ∀ k ∈ l, k < n ∧ w.signalledIdx.getD k false = false) :
    l = [] := by
  refine List.eq_nil_iff_forall_not_mem.mpr fun k hk => ?_
  obtain ⟨hlt, hns⟩ := hl k hk
  exact absurd (hall.trans (h.le hns)) (Nat.not_le.mpr hlt)

/-! ### One round -/

section Round

variable {handles : List (Option Waitable)} {r : Round}

theorem firstFailure_cons_of_neg {idx : ℕ} {l : List ℕ} (h : r.signalSet handles idx = false) :
    firstFailure handles r (idx :: l) = firstFailure handles r l := by
  rw [firstFailure, List.filter_cons_of_neg (by rw [h]; exact Bool.false_ne_true), firstFailure]

theorem firstFailure_cons_of_fail {idx : ℕ} {l : List ℕ} (h : r.signalSet handles idx = true)
    (hc : r.cleanup idx ≠ waitObject0) :
    firstFailure handles r (idx :: l) = some (r.cleanup idx) := by
  rw [firstFailure, List.filter_cons_of_pos h, List.map_cons, List.find?_cons_of_pos]
  exact decide_eq_true hc

theorem firstFailure_cons_of_ok {idx : ℕ} {l : List ℕ} (h : r.signalSet handles idx = true)
    (hc : r.cleanup idx = waitObject0) :
    firstFailure handles r (idx :: l) = firstFailure handles r l := by
  rw [firstFailure, List.filter_cons_of_pos h, List.map_cons,
    List.find?_cons_of_neg (by simpa using hc), firstFailure]

/-- **How the loop over the polled handles ends**: with the first cleanup that fails; or, if none
does, with success when everything has been signalled, and otherwise with another round. -/
theorem scan_cases {w : Waiting} {l : List ℕ} (index : ℕ) (signalHandled : Bool)
    (hgood : ∀ idx ∈ l, badHandle handles idx = false) (hw : Counted handles.length w)
    (hl : ∀ idx ∈ l, idx < handles.length ∧ w.signalledIdx.getD idx false = false)
    (hnd : l.Nodup) (hlt : w.signalled < handles.length) :
    (∃ rc, firstFailure handles r l = some rc ∧
        scan handles true r index l w signalHandled = .error rc) ∨
      firstFailure handles r l = none ∧
        (scan handles true r index l w signalHandled = .error waitObject0 ∨
          ∃ w' signalHandled', scan handles true r index l w signalHandled =
              .ok (w', signalHandled') ∧
            Counted handles.length w' ∧ w'.dwMilliseconds = w.dwMilliseconds ∧
            w'.signalled < handles.length ∧ ∀ idx, w'.signalledIdx.getD idx false = false →
              w.signalledIdx.getD idx false = false ∧
                (idx ∈ l → r.signalSet handles idx = false)) := by
  induction l generalizing w index signalHandled with
  | nil =>
    refine .inr ⟨rfl, .inr ⟨w, signalHandled, rfl, hw, rfl, hlt, fun idx h => ⟨h, fun hmem => ?_⟩⟩⟩
    exact absurd hmem List.not_mem_nil
  | cons idx l ih =>
    obtain ⟨hidx, hnd⟩ := List.nodup_cons.mp hnd
    have hgood' := fun k hk => hgood k (List.mem_cons_of_mem idx hk)
    have hbad : badHandle handles idx = false := hgood idx List.mem_cons_self
    rcases Bool.eq_false_or_eq_true (r.signalSet handles idx) with hset | hset
    · by_cases hc : r.cleanup idx = waitObject0
      · have hl' := mark_rest hidx hl
        rw [firstFailure_cons_of_ok hset hc, scan, if_neg (by simp [hbad]), if_pos hset,
          if_neg (not_not.mpr hc), if_pos rfl]
        by_cases hall : handles.length ≤ (w.mark idx).signalled
        · rw [if_pos hall, (hw.mark idx).eq_nil hall hl']
          exact .inr ⟨rfl, .inl rfl⟩
        · rw [if_neg hall]
          refine (ih (index + 1) true hgood' (hw.mark idx) hl' hnd (by omega)).imp id ?_
          rintro ⟨hnone, herr | ⟨w', sh, hok, hw', hdw, hlt', hrest⟩⟩
          · exact ⟨hnone, .inl herr⟩
          · refine ⟨hnone, .inr ⟨w', sh, hok, hw', hdw, hlt', fun k hkf => ?_⟩⟩
            obtain ⟨hmark, hset'⟩ := hrest k hkf
            have hne : k ≠ idx := by
              rintro rfl
              exact absurd ((mark_getD_self hw (hl k List.mem_cons_self).1).symm.trans hmark)
                Bool.false_ne_true.symm
            rw [mark_getD_of_ne hne] at hmark
            exact ⟨hmark, fun hk => hset' (List.mem_of_ne_of_mem hne hk)⟩
      · rw [firstFailure_cons_of_fail hset hc, scan, if_neg (by simp [hbad]), if_pos hset,
          if_pos hc]
        exact .inl ⟨_, rfl, rfl⟩
    · rw [firstFailure_cons_of_neg hset, scan, if_neg (by simp [hbad]), if_neg (by simp [hset])]
      refine (ih (index + 1) signalHandled hgood' hw
        (fun k hk => hl k (List.mem_cons_of_mem idx hk)) hnd hlt).imp id ?_
      rintro ⟨hnone, herr | ⟨w', sh, hok, hw', hdw, hlt', hrest⟩⟩
      · exact ⟨hnone, .inl herr⟩
      · refine ⟨hnone, .inr ⟨w', sh, hok, hw', hdw, hlt', fun k hkf => ?_⟩⟩
        refine ⟨(hrest k hkf).1, fun hk => ?_⟩
        rcases List.mem_cons.mp hk with rfl | hk
        · exact hset
        · exact (hrest k hkf).2 hk

/-- Every handle has a descriptor. -/
def Backed (handles : List (Option Waitable)) : Prop :=
  ∀ idx < handles.length, badHandle handles idx = false

theorem mem_polled {w : Waiting} {idx : ℕ} :
    idx ∈ w.polled handles true ↔
      idx < handles.length ∧ w.signalledIdx.getD idx false = false := by
  rw [Waiting.polled, if_pos rfl, List.mem_filter, List.mem_range, Bool.not_eq_true']

theorem nodup_polled (w : Waiting) : (w.polled handles true).Nodup := by
  rw [Waiting.polled, if_pos rfl]
  exact List.nodup_range.filter _

/-- A handle that is reported ready has something reported. -/
theorem status_ne_zero {w : Waiting} {idx : ℕ} (hidx : idx ∈ w.polled handles true)
    (hset : r.signalSet handles idx = true) : r.status (w.polled handles true) ≠ 0 := by
  have hrev : r.revents idx ≠ 0 := by
    intro h0
    have := of_decide_eq_true hset
    rw [h0, Nat.zero_and] at this
    exact this rfl
  have hmem : idx ∈ (w.polled handles true).filter (r.revents · ≠ 0) :=
    List.mem_filter.mpr ⟨hidx, decide_eq_true hrev⟩
  exact (List.length_pos_of_mem hmem).ne'

/-- What holds between the rounds. -/
structure Between (handles : List (Option Waitable)) (dwMilliseconds : ℕ) (w : Waiting) :
    Prop where
  counted : Counted handles.length w
  lt : w.signalled < handles.length
  dwMilliseconds : w.dwMilliseconds = dwMilliseconds

variable {dw : ℕ} {w : Waiting}

/-- Something is polled. -/
theorem Between.signalled_mem (h : Between handles dw w) :
    w.signalled ∈ w.polled handles true := mem_polled.mpr ⟨h.lt, h.counted.getD⟩

/-- **How a round ends.** -/
inductive RoundEnds (handles : List (Option Waitable)) (dw : ℕ) (w : Waiting) (r : Round) :
    Status → Prop
  /-- `poll` fails. -/
  | failed (hp : r.pollFails = true) : RoundEnds handles dw w r (.returned w r waitFailed)
  /-- `poll` reports nothing. -/
  | timeout (hp : r.pollFails = false) (h0 : r.status (w.polled handles true) = 0) :
      RoundEnds handles dw w r (.returned w r waitTimeout)
  /-- The clock has advanced. -/
  | late (hp : r.pollFails = false) (h0 : r.status (w.polled handles true) ≠ 0)
      (hne : r.timenow.toNs ≠ r.starttime.toNs) :
      RoundEnds handles dw w r (.returned w r waitTimeout)
  /-- A cleanup function fails. -/
  | cleanup (rc : ℕ) (hp : r.pollFails = false) (h0 : r.status (w.polled handles true) ≠ 0)
      (heq : r.timenow.toNs = r.starttime.toNs)
      (hf : firstFailure handles r (w.polled handles true) = some rc) :
      RoundEnds handles dw w r (.returned w r rc)
  /-- Everything has been signalled. -/
  | done (hp : r.pollFails = false) (h0 : r.status (w.polled handles true) ≠ 0)
      (heq : r.timenow.toNs = r.starttime.toNs)
      (hf : firstFailure handles r (w.polled handles true) = none) :
      RoundEnds handles dw w r (.returned w r waitObject0)
  /-- There is another round. -/
  | next (w' : Waiting) (hp : r.pollFails = false)
      (h0 : r.status (w.polled handles true) ≠ 0) (heq : r.timenow.toNs = r.starttime.toNs)
      (hf : firstFailure handles r (w.polled handles true) = none)
      (hw' : Between handles dw w') (hunready : Unready handles w r) :
      RoundEnds handles dw w r (.waiting w')

theorem roundEnds (hgood : Backed handles) (hdw : dw < infinite) (hw : Between handles dw w)
    (hposs : Possible handles w r) : RoundEnds handles dw w r (round handles true w r) := by
  obtain ⟨⟨hs, hsp, hpn, hn⟩, -⟩ := hposs
  have hbad : ¬ (w.polled handles true).any (badHandle handles) = true := by
    intro hany
    obtain ⟨idx, hidx, hb⟩ := List.any_eq_true.mp hany
    exact absurd ((hgood idx (mem_polled.mp hidx).1).symm.trans hb) Bool.false_ne_true
  rw [round, if_neg hbad]
  rcases Bool.eq_false_or_eq_true r.pollFails with hp | hp
  · rw [if_pos hp]
    exact .failed hp
  rw [if_neg (by simp [hp])]
  by_cases h0 : r.status (w.polled handles true) = 0
  · rw [if_pos h0]
    exact .timeout hp h0
  have hfin : (true && decide (w.dwMilliseconds ≠ infinite)) = true := by
    rw [hw.dwMilliseconds]
    exact decide_eq_true hdw.ne
  rw [if_neg h0, if_pos hfin]
  by_cases heq : r.timenow.toNs = r.starttime.toNs
  · simp only [toUnsigned_tsDifftime_eq_zero heq, Nat.zero_div, Nat.sub_zero]
    rw [if_neg (Nat.not_lt_zero _), finishRound]
    have hscan := scan_cases (r := r) (l := w.polled handles true) 0 false
      (fun idx hidx => hgood idx (mem_polled.mp hidx).1) hw.counted
      (fun idx hidx => mem_polled.mp hidx) (nodup_polled w) hw.lt
    rcases hscan with ⟨rc, hf, hsc⟩ | ⟨hf, hsc | ⟨w', sh, hsc, hw', hdw', hlt, hrest⟩⟩
    · rw [hsc]
      exact .cleanup rc hp h0 heq hf
    · rw [hsc]
      exact .done hp h0 heq hf
    · rw [hsc]
      refine .next w' hp h0 heq hf ⟨hw', hlt, hdw'.trans hw.dwMilliseconds⟩ ?_
      obtain ⟨hidx, hset⟩ := hrest _ hw'.getD
      exact ⟨w'.signalled, hlt, hidx, hset (mem_polled.mpr ⟨hlt, hidx⟩)⟩
  · have hgt := toUnsigned_tsDifftime_gt hs (lt_of_le_of_ne (hsp.trans hpn) (Ne.symm heq)) hn
      (hw.dwMilliseconds.trans_le hdw.le)
    rw [if_pos hgt]
    exact .late hp h0 heq

end Round

/-! ### Whole calls -/

section Call

variable {handles : List (Option Waitable)} {dw : ℕ} {t₀ : Timespec}

/-- A round that reports nothing takes as long as it should. -/
theorem timeout_justified {w : Waiting} {r : Round} {t : Timespec} (hw : Between handles dw w)
    (ht : t₀.toNs ≤ t.toNs) (htr : t.toNs ≤ r.starttime.toNs) (hposs : Possible handles w r)
    (hp : r.pollFails = false) (h0 : r.status (w.polled handles true) = 0) :
    Elapsed handles t₀ dw w r ∧ Unready handles w r := by
  obtain ⟨-, hpoll⟩ := hposs
  obtain ⟨-, hpoll⟩ := hpoll hp h0
  rw [hw.dwMilliseconds] at hpoll
  refine ⟨?_, w.signalled, hw.lt, hw.counted.getD, ?_⟩
  · rw [Elapsed, endTime, if_pos h0]
    omega
  · by_contra hset
    exact status_ne_zero hw.signalled_mem (Bool.eq_true_of_not_eq_false hset) h0

/-- A call that has returned has no more rounds. -/
theorem run_returned {w : Waiting} {r : Round} {rc : ℕ} {rounds : List Round} {s : Status}
    (h : run (step handles true) (.returned w r rc) rounds = some s) :
    rounds = [] ∧ s = .returned w r rc := by
  cases rounds with
  | nil => exact ⟨rfl, (Option.some.inj h).symm⟩
  | cons r₁ rounds => cases h

/-- **The condition says when a run ends well**: in a run from a state between two rounds, every
round meets the condition if and only if a `WAIT_TIMEOUT` at the end is justified. -/
theorem timeout_iff (hgood : Backed handles) (hdw : dw < infinite) {rounds : List Round}
    {w w' : Waiting} {r : Round} {rc : ℕ} {t : Timespec} (hw : Between handles dw w)
    (ht : t₀.toNs ≤ t.toNs) (htrace : Trace handles (.waiting w) t rounds)
    (hrun : run (step handles true) (.waiting w) rounds = some (.returned w' r rc)) :
    (rc = waitTimeout → Elapsed handles t₀ dw w' r ∧ Unready handles w' r) ↔
      AllMeet (step handles true) (Punctual handles t₀ dw) (.waiting w) rounds := by
  induction rounds generalizing w t with
  | nil => cases hrun
  | cons r₁ rounds ih =>
    obtain ⟨htr, hposs, htrace⟩ := htrace
    have hends := roundEnds hgood hdw hw hposs
    rw [run_cons, step, Option.bind_some] at hrun
    have hmeet : AllMeet (step handles true) (Punctual handles t₀ dw) (.waiting w) (r₁ :: rounds) ↔
        Punctual handles t₀ dw (.waiting w) r₁ ∧ AllMeet (step handles true)
          (Punctual handles t₀ dw) (round handles true w r₁) rounds := by
      simp [AllMeet, step]
    rw [hmeet]
    have hlater : t₀.toNs ≤ r₁.timenow.toNs := by
      obtain ⟨⟨-, hsp, hpn, -⟩, -⟩ := hposs
      omega
    generalize round handles true w r₁ = st at hends hrun htrace
    cases hends with
    | failed hp =>
      obtain ⟨rfl, ⟨⟩⟩ := run_returned hrun
      refine iff_of_true (fun h => absurd h (by decide)) ⟨fun hp' => ?_, trivial⟩
      exact absurd (hp'.symm.trans hp) Bool.false_ne_true
    | timeout hp h0 =>
      obtain ⟨rfl, ⟨⟩⟩ := run_returned hrun
      refine iff_of_true (fun _ => timeout_justified hw ht htr hposs hp h0) ⟨?_, trivial⟩
      exact fun _ hne => absurd h0 hne
    | late hp h0 hne =>
      obtain ⟨rfl, ⟨⟩⟩ := run_returned hrun
      refine ⟨fun h => ⟨fun _ _ => .inr (h rfl), trivial⟩, fun h _ => ?_⟩
      exact (h.1 hp h0).resolve_left fun hsame => hne hsame.1
    | cleanup rc hp h0 heq hf =>
      obtain ⟨rfl, ⟨⟩⟩ := run_returned hrun
      by_cases hrc : rc = waitTimeout
      · refine ⟨fun h => ⟨fun _ _ => .inr (h hrc), trivial⟩, fun h _ => ?_⟩
        exact (h.1 hp h0).resolve_left fun hsame => hsame.2 (hf.trans (congrArg some hrc))
      · refine iff_of_true (fun h => absurd h hrc) ⟨fun _ _ => .inl ⟨heq, ?_⟩, trivial⟩
        rw [hf]
        exact fun h => hrc (Option.some.inj h)
    | done hp h0 heq hf =>
      obtain ⟨rfl, ⟨⟩⟩ := run_returned hrun
      refine iff_of_true (fun h => absurd h (by decide)) ⟨fun _ _ => .inl ⟨heq, ?_⟩, trivial⟩
      rw [hf]
      exact (Option.some_ne_none _).symm
    | next w₁ hp h0 heq hf hw₁ hunready =>
      rw [ih hw₁ hlater htrace hrun]
      refine (and_iff_right ?_).symm
      refine fun _ _ => .inl ⟨heq, ?_⟩
      rw [hf]
      exact (Option.some_ne_none _).symm

/-- The variables before the first round. -/
theorem between_start (hn : 0 < handles.length) : Between handles dw
    { signalledIdx := List.replicate handles.length false, signalled := 0,
      dwMilliseconds := dw } := by
  refine ⟨⟨List.length_replicate, ?_⟩, hn, rfl⟩
  obtain ⟨n, hn⟩ : ∃ n, handles.length = n + 1 := ⟨handles.length - 1, by omega⟩
  rw [hn]
  rfl

/-- When everything is ready at the first poll, and the clock stands still, the call succeeds. -/
theorem allReady_done {w w' : Waiting} {r r' : Round} {rc : ℕ} {rounds : List Round}
    (hgood : Backed handles) (hdw : dw < infinite) (hw : Between handles dw w)
    (hposs : Possible handles w r) (hready : AllReady handles (r :: rounds))
    (hok : Punctual handles t₀ dw (.waiting w) r)
    (hrun : run (step handles true) (.waiting w) (r :: rounds) = some (.returned w' r' rc)) :
    rc = waitObject0 := by
  obtain ⟨hp, hready⟩ := hready r rfl
  have hset := (hready w.signalled hw.lt).1
  have hnone : firstFailure handles r (w.polled handles true) = none := by
    refine List.find?_eq_none.mpr fun x hx => ?_
    obtain ⟨idx, hidx, rfl⟩ := List.mem_map.mp hx
    have hlt := (mem_polled.mp (List.mem_of_mem_filter hidx)).1
    simp [(hready idx hlt).2]
  have hnot : ¬ Unready handles w r := by
    rintro ⟨idx, hidx, -, hno⟩
    exact absurd (hno.symm.trans (hready idx hidx).1) Bool.false_ne_true
  have h0 := status_ne_zero hw.signalled_mem hset
  have heq := (hok hp h0).resolve_right fun h => hnot h.2
  rw [run_cons, step, Option.bind_some] at hrun
  have hends := roundEnds hgood hdw hw hposs
  generalize round handles true w r = st at hends hrun
  cases hends with
  | failed hp' => exact absurd (hp.symm.trans hp') Bool.false_ne_true
  | timeout _ h0' => exact absurd h0' h0
  | late _ _ hne => exact absurd heq.1 hne
  | cleanup rc' _ _ _ hf => exact absurd (hnone.symm.trans hf) (Option.some_ne_none _).symm
  | done =>
    obtain ⟨-, ⟨⟩⟩ := run_returned hrun
    rfl
  | next w₁ _ _ _ _ _ hunready => exact absurd hunready hnot

end Call

/-- **The call does not time out early exactly when the clock stands still in every round that
has something to report**: for every list of 1 to 64 handles with descriptors, every finite
timeout, every clock that does not go back and everything that `poll` may report in time. -/
theorem waitAll_never_early_iff (handles : List (Option Waitable)) (dwMilliseconds : ℕ)
    (t₀ : Timespec) (rounds : List Round) (w : Waiting) (r : Round) (rc : ℕ)
    (hn : 1 ≤ handles.length ∧ handles.length ≤ 64) (hgood : Backed handles)
    (hdw : dwMilliseconds < infinite)
    (htrace : Trace handles (waitForMultipleObjects handles dwMilliseconds) t₀ rounds)
    (hrun : run (step handles true) (waitForMultipleObjects handles dwMilliseconds) rounds =
      some (.returned w r rc)) :
    NeverEarly handles t₀ dwMilliseconds rounds w r rc ↔
      AllMeet (step handles true) (Punctual handles t₀ dwMilliseconds)
        (waitForMultipleObjects handles dwMilliseconds) rounds := by
  have hstart : waitForMultipleObjects handles dwMilliseconds = .waiting
      { signalledIdx := List.replicate handles.length false
        signalled := 0
        dwMilliseconds := dwMilliseconds } := by
    rw [waitForMultipleObjects, if_neg]
    unfold maximumWaitObjects
    omega
  rw [hstart] at htrace hrun ⊢
  have hw : Between handles dwMilliseconds _ := between_start hn.1
  have hiff := timeout_iff hgood hdw hw le_rfl htrace hrun
  refine ⟨fun h => hiff.mp h.1, fun h => ⟨hiff.mpr h, fun hready => ?_⟩⟩
  cases rounds with
  | nil => cases hrun
  | cons r₁ rounds => exact allReady_done hgood hdw hw htrace.2.1 hready h.1 hrun

/-! ### A clock that stands still, and one that does not -/

/-- A descriptor that is polled for reading. -/
def readable : Option Waitable := some { fd := 3, mode := fdRead }

/-- A time of day in nanoseconds below a second. -/
def nanoseconds (ns : ℕ) (h : ns < 1000000000) : Timespec where
  tvSec := 0
  tvNsec := ns
  tvNsec_lt := h

/-- A round that begins with the clock at 0, in which everything is ready at once and every
cleanup succeeds. -/
def readyRound (timenow : Timespec) : Round where
  starttime := nanoseconds 0 zero_lt_nsecPerSec
  pollFails := false
  revents := fun _ => pollIn
  pollEnd := nanoseconds 0 zero_lt_nsecPerSec
  timenow := timenow
  cleanup := fun _ => waitObject0

/-- Such a round is a possible one, if the clock goes on for less than a second. -/
theorem trace_readyRound {ns : ℕ} (h : ns < 1000000000) :
    Trace [readable, readable] (waitForMultipleObjects [readable, readable] 50)
      (nanoseconds 0 (by decide)) [readyRound (nanoseconds ns h)] := by
  have hns : (nanoseconds ns h).toNs = ns := by
    rw [nanoseconds, Timespec.toNs, zero_mul, zero_add]
  refine ⟨le_rfl, ⟨⟨le_rfl, le_rfl, ?_, ?_⟩, fun _ h0 => absurd h0 (Nat.succ_ne_zero _)⟩, ?_⟩
  · rw [readyRound, hns]
    exact Int.natCast_nonneg ns
  · rw [readyRound, hns]
    omega
  · cases round [readable, readable] true _ _ <;> trivial

/-- Two ready handles, and a clock that stands still. -/
theorem waitAll_never_early_standing :
    NeverEarly [readable, readable] (nanoseconds 0 (by decide)) 50
      [readyRound (nanoseconds 0 (by decide))] ⟨[false, false], 0, 50⟩
      (readyRound (nanoseconds 0 (by decide))) waitObject0 := by
  refine (waitAll_never_early_iff _ _ _ _ _ _ _ (by decide) (by unfold Backed; decide)
    (by decide) (trace_readyRound _) rfl).mpr ⟨fun _ _ => .inl ⟨rfl, by decide⟩, fun s' _ => ?_⟩
  exact trivial

/-- **A wait for everything times out early**: two handles are ready at the first poll and their
cleanups succeed, but the clock has advanced by a nanosecond when it is read again. -/
theorem waitAll_times_out_early :
    ¬ ∀ (handles : List (Option Waitable)) (dwMilliseconds : ℕ) (t₀ : Timespec)
      (rounds : List Round) (w : Waiting) (r : Round) (rc : ℕ),
      1 ≤ handles.length ∧ handles.length ≤ 64 → Backed handles → dwMilliseconds < infinite →
      Trace handles (waitForMultipleObjects handles dwMilliseconds) t₀ rounds →
      run (step handles true) (waitForMultipleObjects handles dwMilliseconds) rounds =
        some (.returned w r rc) →
      NeverEarly handles t₀ dwMilliseconds rounds w r rc := by
  intro h
  have hne := h [readable, readable] 50 (nanoseconds 0 (by decide))
    [readyRound (nanoseconds 1 (by decide))] ⟨[false, false], 0, 50⟩
    (readyRound (nanoseconds 1 (by decide))) waitTimeout (by decide) (by unfold Backed; decide)
    (by decide) (trace_readyRound _) rfl
  have hready : AllReady [readable, readable] [readyRound (nanoseconds 1 (by decide))] := by
    intro r hr
    obtain rfl := Option.some.inj hr
    exact ⟨rfl, by decide⟩
  exact absurd (hne.2 hready) (by decide)

end Wait

end Libuzi
