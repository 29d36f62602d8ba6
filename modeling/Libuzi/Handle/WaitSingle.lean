import Libuzi.Handle.WaitArrays

/-!
# A wait for one object, and a wait for several of which there is one

`WaitForSingleObject` for a handle with a descriptor, next to `WaitForMultipleObjects` for a list
with this handle in it. Both poll the descriptor, and both take the events from the mode of the
handle; but they read the outcome differently.

| what `poll` reports | the single wait | the multiple wait |
|---|---|---|
| a failure | `WAIT_FAILED` | `WAIT_FAILED` |
| nothing in time | `WAIT_TIMEOUT` | `WAIT_TIMEOUT` |
| an event that was asked for | the cleanup | the cleanup |
| only an error, or a hangup | the cleanup | polls again |

The last row is the difference: the single wait counts the descriptors that have something
reported, the multiple wait looks for the events. Where the kernel reports the error again and
again, the multiple wait never returns. A negative descriptor other than `-1` is another
difference, since only the single wait takes it for an error
(`WaitSingle.single_multiple_agree_iff`).
-/

namespace Libuzi

open Runs

namespace WaitSingle

open Handle WaitArrays
open Wait (Waitable badHandle)

/-! ### The single wait -/

section Single

/-- How `poll` ends for one descriptor, once it does not fail with `EINTR`: it fails, or it
reports these events, of which there are none when it has timed out. -/
inductive PollResult
  | failed
  | reported (revents : ℕ)
  deriving DecidableEq

/-- What `poll` returns. -/
def PollResult.status : PollResult → ℤ
  | .failed => -1
  | .reported revents => if revents ≠ 0 then 1 else 0

/-- What `poll` leaves in `revents`. -/
def PollResult.revents : PollResult → ℕ
  | .failed => 0
  | .reported revents => revents

variable (kernel : Pollfd → ℕ → PollResult)

/-- `waitOnFd`, in the build with `poll`. -/
def waitOnFd (fd : ℤ) (mode dwMilliseconds : ℕ) : ℤ :=
  (kernel { fd, events := handleModeToPollevent mode, revents := 0 } dwMilliseconds).status

/-- `WaitForSingleObject`, for a handle with a descriptor, given what `winpr_Handle_cleanup` will
return: the value returned, and the handles that are cleaned up, by their position. -/
def waitForSingleObject (cleanup : ℕ) (h : Waitable) (dwMilliseconds : ℕ) : ℕ × List ℕ :=
  if h.fd < 0 then (waitFailed, [])
  else
    let status := waitOnFd kernel h.fd h.mode dwMilliseconds
    if status < 0 then (waitFailed, [])
    else if status ≠ 1 then (waitTimeout, [])
    else (cleanup, [0])

/-- What the kernel does for the entry of the handle. -/
def polled (h : Waitable) (dwMilliseconds : ℕ) : PollResult :=
  kernel { fd := h.fd, events := handleModeToPollevent h.mode, revents := 0 } dwMilliseconds

/-- A round of the multiple wait in which `poll` ends like this, and the cleanup function returns
`cleanup`. -/
structure Repeats (p : PollResult) (cleanup : ℕ) (r : Reported) : Prop where
  status : r.status = p.status
  revents : r.revents 0 = p.revents
  cleanup : r.cleanup 0 = cleanup

/-- Such a round, in which the clock stands still. -/
def repeated (p : PollResult) (cleanup : ℕ) : Reported where
  starttime := ⟨0, 0, Timer.zero_lt_nsecPerSec⟩
  status := p.status
  revents := fun _ => p.revents
  timenow := ⟨0, 0, Timer.zero_lt_nsecPerSec⟩
  cleanup := fun _ => cleanup

/-- **The two waits agree**: whatever the clock reads and the memory held before, the multiple wait
returns after some rounds, with the value and the cleanups of the single wait. -/
def Agrees (cleanup : ℕ) (h : Waitable) (dwMilliseconds : ℕ) : Prop :=
  ∀ (uninit : ℕ → Pollfd) (rounds : ℕ → Reported),
    (∀ i, Repeats (polled kernel h dwMilliseconds) cleanup (rounds i)) →
    ∃ n f, run (step [some h] false)
        (waitForMultipleObjects [some h] false dwMilliseconds uninit)
        ((List.range n).map rounds) =
          some (.returned f (waitForSingleObject kernel cleanup h dwMilliseconds).1) ∧
      cleanups f.log = (waitForSingleObject kernel cleanup h dwMilliseconds).2

/-- **The condition**: the handle has no descriptor, or `poll` fails, or what it reports for a
descriptor that is not negative has an event in it that was asked for. -/
def AskedFor (h : Waitable) (dwMilliseconds : ℕ) : Prop :=
  h.fd = -1 ∨
    match polled kernel h dwMilliseconds with
    | .failed => True
    | .reported revents =>
      0 ≤ h.fd ∧ (revents ≠ 0 → revents &&& handleModeToPollevent h.mode ≠ 0)

end Single

/-! ### One round of the multiple wait -/

section Round

variable {h : Waitable} {f : Frame} {r : Reported}

/-- The frame of a wait for one handle. -/
structure One (f : Frame) : Prop where
  pollfds : ∃ e, f.pollfds = [e]
  none : cleanups f.log = []

/-- How a round ends. -/
inductive RoundEnds (h : Waitable) (r : Reported) : Status → Prop
  | bad (f : Frame) (hfd : h.fd = -1) (hnone : cleanups f.log = []) :
    RoundEnds h r (.returned f waitFailed)
  | failed (f : Frame) (hfd : h.fd ≠ -1) (hstatus : r.status < 0) (hnone : cleanups f.log = []) :
    RoundEnds h r (.returned f waitFailed)
  | timeout (f : Frame) (hfd : h.fd ≠ -1) (hstatus : r.status = 0) (hnone : cleanups f.log = []) :
    RoundEnds h r (.returned f waitTimeout)
  | cleaned (f : Frame) (hfd : h.fd ≠ -1) (hstatus : 0 < r.status)
      (hset : r.revents 0 &&& handleModeToPollevent h.mode ≠ 0) (hone : cleanups f.log = [0]) :
    RoundEnds h r (.returned f (r.cleanup 0))
  | again (f : Frame) (hfd : h.fd ≠ -1) (hstatus : 0 < r.status)
      (hset : r.revents 0 &&& handleModeToPollevent h.mode = 0) (hone : One f) :
    RoundEnds h r (.waiting f)

theorem cleanups_note_poll (f : Frame) (submitted : List (ℕ × Pollfd)) :
    cleanups (f.note (.poll submitted)).log = cleanups f.log := by
  rw [Frame.note_log, cleanups, List.filterMap_append]
  exact List.append_nil _

theorem cleanups_note_examine (f : Frame) (idx : ℕ) (e : Pollfd) :
    cleanups (f.note (.examine idx e)).log = cleanups f.log := by
  rw [Frame.note_log, cleanups, List.filterMap_append]
  exact List.append_nil _

theorem cleanups_note_cleanup (f : Frame) (idx : ℕ) :
    cleanups (f.note (.cleanup idx)).log = cleanups f.log ++ [idx] := by
  rw [Frame.note_log, cleanups, List.filterMap_append]
  rfl

/-- The handle is looked at: it is cleaned up, with which the call returns, or left alone. -/
theorem scanBody_one {g : Frame} {e : Pollfd} (hfd : h.fd ≠ -1) (hg : g.pollfds[0]? = some e)
    (hnone : cleanups g.log = []) :
    ∃ g', g'.pollfds = g.pollfds ∧ g'.signalHandled = g.signalHandled ∧
      (e.revents &&& e.events ≠ 0 ∧ cleanups g'.log = [0] ∧
          scanBody [some h] false r 0 g = (g', some (.ret (r.cleanup 0))) ∨
        e.revents &&& e.events = 0 ∧ cleanups g'.log = [] ∧
          scanBody [some h] false r 0 g = (g', none)) := by
  have hbad : ¬badHandle [some h] 0 = true := fun hb => hfd (of_decide_eq_true hb)
  rw [scanBody, if_neg Bool.false_ne_true]
  dsimp only
  rw [if_neg hbad, hg]
  dsimp only
  by_cases hset : e.revents &&& e.events ≠ 0
  · refine ⟨(g.note (.examine 0 e)).note (.cleanup 0), rfl, rfl, Or.inl ⟨hset, ?_, ?_⟩⟩
    · rw [cleanups_note_cleanup, cleanups_note_examine, hnone]
      rfl
    · rw [if_pos hset]
      by_cases hrc : r.cleanup 0 = waitObject0
      · rw [if_neg (not_not.mpr hrc), cleanedUp, if_neg Bool.false_ne_true, hrc]
        rfl
      · rw [if_pos hrc]
  · refine ⟨g.note (.examine 0 e), rfl, rfl, Or.inr ⟨not_not.mp hset, ?_, if_neg hset⟩⟩
    rw [cleanups_note_examine, hnone]

/-- The frame after `poll`: what it has reported is in the entry. -/
structure Polled (h : Waitable) (r : Reported) (g : Frame) : Prop where
  polled : g.polled = 1
  pollfds : g.pollfds = [{ entry [some h] 0 with revents := r.revents 0 }]
  none : cleanups g.log = []

/-- The handle is looked at, and with it the call is over or goes on. -/
theorem scanRound_one {g : Frame} (hfd : h.fd ≠ -1) (hpos : 0 < r.status) (hg : Polled h r g) :
    RoundEnds h r (scanRound [some h] false r g) := by
  rw [scanRound]
  generalize hg₀ : { g with signalHandled := false } = g₀
  rw [hg.polled]
  have hpollfds₀ : g₀.pollfds = [{ entry [some h] 0 with revents := r.revents 0 }] := by
    rw [← hg₀]
    exact hg.pollfds
  have hnone₀ : cleanups g₀.log = [] := by
    rw [← hg₀]
    exact hg.none
  have hhandled₀ : g₀.signalHandled = false := by
    rw [← hg₀]
  have hfirst : g₀.pollfds[0]? = some { entry [some h] 0 with revents := r.revents 0 } := by
    rw [hpollfds₀]
    rfl
  obtain ⟨g', hpollfds, hhandled, ⟨hset, hone, hscan⟩ | ⟨hset, hone, hscan⟩⟩ :=
    scanBody_one (r := r) hfd hfirst hnone₀
  · rw [Loop.forLoop_stop hscan]
    exact .cleaned g' hfd hpos hset hone
  · rw [Loop.forLoop_next hscan, Loop.forLoop]
    dsimp only
    rw [if_pos (by rw [hhandled, hhandled₀]; rfl)]
    exact .again g' hfd hpos hset ⟨⟨_, hpollfds.trans hpollfds₀⟩, hone⟩

theorem polledRound_one {g : Frame} (hfd : h.fd ≠ -1) (hg : Polled h r g) :
    RoundEnds h r (polledRound [some h] false r g) := by
  rw [polledRound]
  split
  · next hneg => exact .failed g hfd hneg hg.none
  split
  · next hzero => exact .timeout g hfd hzero hg.none
  · next hneg hzero =>
    rw [Bool.false_and, if_neg Bool.false_ne_true]
    exact scanRound_one hfd (by omega) hg

/-- **One round.** -/
theorem round_one (hf : One f) : RoundEnds h r (WaitArrays.round [some h] false f r) := by
  obtain ⟨e, he⟩ := hf.pollfds
  have hlen : 0 < f.pollfds.length := by
    rw [he]
    exact Nat.one_pos
  rw [WaitArrays.round]
  by_cases hfd : h.fd = -1
  · -- the handle has no descriptor
    have hbad : badHandle [some h] 0 = true := decide_eq_true hfd
    have hbody : collectBody [some h] false 0 { f with polled := 0 } =
        ({ f with polled := 0 }, some (.ret waitFailed)) := by
      rw [collectBody, if_neg Bool.false_ne_true, submit, if_pos hbad]
    rw [List.length_singleton, Loop.forLoop_stop hbody]
    exact .bad _ hfd hf.none
  · have hbad : ¬badHandle [some h] 0 = true := fun hb => hfd (of_decide_eq_true hb)
    have hbody : collectBody [some h] false 0 { f with polled := 0 } =
        ({ f with pollfds := [entry [some h] 0], polled := 1 }, none) := by
      rw [collectBody, if_neg Bool.false_ne_true, submit, if_neg hbad, if_pos hlen, he]
      rfl
    rw [List.length_singleton, Loop.forLoop_next hbody, Loop.forLoop]
    dsimp only
    rw [if_neg (by rw [List.length_singleton]; exact lt_irrefl 1)]
    exact polledRound_one hfd ⟨rfl, rfl, (cleanups_note_poll _ _).trans hf.none⟩

end Round

/-! ### Whole calls -/

section Call

variable {kernel : Pollfd → ℕ → PollResult} {cleanup : ℕ} {h : Waitable} {dwMilliseconds : ℕ}
  {p : PollResult} {f : Frame} {r : Reported}

/-- **How the multiple wait ends** when `poll` ends in the same way again and again: with a value
and what has been cleaned up, or not at all. -/
def multiple (p : PollResult) (cleanup : ℕ) (h : Waitable) : Option (ℕ × List ℕ) :=
  if h.fd = -1 then some (waitFailed, [])
  else
    match p with
    | .failed => some (waitFailed, [])
    | .reported revents =>
      if revents = 0 then some (waitTimeout, [])
      else if revents &&& handleModeToPollevent h.mode ≠ 0 then some (cleanup, [0])
      else none

theorem multiple_of_bad (hfd : h.fd = -1) : multiple p cleanup h = some (waitFailed, []) :=
  if_pos hfd

theorem multiple_failed : multiple .failed cleanup h = some (waitFailed, []) := ite_self _

theorem multiple_reported (hfd : h.fd ≠ -1) (revents : ℕ) :
    multiple (.reported revents) cleanup h =
      if revents = 0 then some (waitTimeout, [])
      else if revents &&& handleModeToPollevent h.mode ≠ 0 then some (cleanup, [0])
      else none := if_neg hfd

/-- What a state says of how the wait ends. -/
def EndsAs (out : Option (ℕ × List ℕ)) : Status → Prop
  | .waiting f => out = none ∧ One f
  | .returned f rc => out = some (rc, cleanups f.log)
  | .fault _ => False

theorem PollResult.status_cases (p : PollResult) :
    p = .failed ∧ p.status < 0 ∨ p = .reported 0 ∧ p.status = 0 ∨
      ∃ revents, revents ≠ 0 ∧ p = .reported revents ∧ 0 < p.status := by
  cases p with
  | failed => exact Or.inl ⟨rfl, by decide⟩
  | reported revents =>
    by_cases hzero : revents = 0
    · rw [hzero]
      exact Or.inr (Or.inl ⟨rfl, rfl⟩)
    · refine Or.inr (Or.inr ⟨revents, hzero, rfl, ?_⟩)
      rw [PollResult.status, if_pos hzero]
      exact one_pos

/-- **Each round ends the wait as it is to end, or leaves it where it was.** -/
theorem round_endsAs (hr : Repeats p cleanup r) (hf : One f) :
    EndsAs (multiple p cleanup h) (WaitArrays.round [some h] false f r) := by
  have hends : RoundEnds h r (WaitArrays.round [some h] false f r) := round_one hf
  generalize WaitArrays.round [some h] false f r = s at hends
  have hstatus := hr.status
  have hrevents := hr.revents
  cases hends with
  | bad _ hfd hnone =>
    rw [EndsAs, multiple_of_bad hfd, hnone]
  | failed _ hfd hneg hnone =>
    rcases p.status_cases with ⟨rfl, -⟩ | ⟨-, hzero⟩ | ⟨-, -, -, hpos⟩
    · rw [EndsAs, multiple_failed, hnone]
    · omega
    · omega
  | timeout _ hfd hzero hnone =>
    rcases p.status_cases with ⟨-, hneg⟩ | ⟨rfl, -⟩ | ⟨-, -, -, hpos⟩
    · omega
    · rw [EndsAs, multiple_reported hfd, if_pos rfl, hnone]
    · omega
  | cleaned _ hfd hpos hset hone =>
    rcases p.status_cases with ⟨-, hneg⟩ | ⟨-, hzero⟩ | ⟨revents, hne, rfl, -⟩
    · omega
    · omega
    · rw [hrevents] at hset
      rw [EndsAs, multiple_reported hfd, if_neg hne, hone, hr.cleanup]
      exact if_pos hset
  | again _ hfd hpos hset hone =>
    rcases p.status_cases with ⟨-, hneg⟩ | ⟨-, hzero⟩ | ⟨revents, hne, rfl, -⟩
    · omega
    · omega
    · rw [hrevents] at hset
      refine ⟨?_, hone⟩
      rw [multiple_reported hfd, if_neg hne]
      exact if_neg (not_not.mpr hset)

/-- The start of a wait for one handle. -/
theorem start_one (h : Waitable) (dwMilliseconds : ℕ) (uninit : ℕ → Pollfd) :
    ∃ f, waitForMultipleObjects [some h] false dwMilliseconds uninit = .waiting f ∧ One f := by
  have hcount : ¬([some h].length = 0 ∨ Wait.maximumWaitObjects < [some h].length) := by
    rw [List.length_singleton]
    decide
  exact ⟨Frame.start [some h] false dwMilliseconds uninit, if_neg hcount, ⟨_, rfl⟩, rfl⟩

/-- A call that has returned has no more rounds. -/
theorem run_returned {s : Status} {rc : ℕ} {rs : List Reported}
    (hrun : run (step [some h] false) (.returned f rc) rs = some s) : s = .returned f rc := by
  cases rs with
  | nil => exact (Option.some.inj hrun).symm
  | cons r rs => exact absurd hrun.symm (Option.some_ne_none s)

/-- **However many rounds there are**, the wait has ended as it is to end, or is where it was. -/
theorem run_endsAs {s : Status} {rs : List Reported} (hrs : ∀ r ∈ rs, Repeats p cleanup r)
    (hf : One f) (hrun : run (step [some h] false) (.waiting f) rs = some s) :
    (∃ f', One f' ∧ s = .waiting f') ∨
      ∃ f' rc, s = .returned f' rc ∧ multiple p cleanup h = some (rc, cleanups f'.log) := by
  induction rs generalizing f with
  | nil => exact Or.inl ⟨f, hf, (Option.some.inj hrun).symm⟩
  | cons r rs ih =>
    obtain ⟨hr, hrs⟩ := List.forall_mem_cons.mp hrs
    rw [run_cons, step, Option.bind_some] at hrun
    have hround : EndsAs (multiple p cleanup h) (WaitArrays.round [some h] false f r) :=
      round_endsAs hr hf
    generalize WaitArrays.round [some h] false f r = t at hrun hround
    cases t with
    | waiting f' => exact ih hrs hround.2 hrun
    | returned f' rc => exact Or.inr ⟨f', rc, run_returned hrun, hround⟩
    | fault => exact hround.elim

/-- **The waits agree when the multiple wait ends as the single one does.** -/
theorem agrees_iff_multiple :
    Agrees kernel cleanup h dwMilliseconds ↔
      multiple (polled kernel h dwMilliseconds) cleanup h =
        some (waitForSingleObject kernel cleanup h dwMilliseconds) := by
  constructor
  · intro hagree
    obtain ⟨n, f', hrun, hcleanups⟩ := hagree (fun _ => entry [some h] 0)
      (fun _ => repeated (polled kernel h dwMilliseconds) cleanup) fun _ => ⟨rfl, rfl, rfl⟩
    obtain ⟨f, hstart, hf⟩ := start_one h dwMilliseconds fun _ => entry [some h] 0
    rw [hstart] at hrun
    have hrounds : ∀ r ∈ (List.range n).map fun _ =>
        repeated (polled kernel h dwMilliseconds) cleanup,
        Repeats (polled kernel h dwMilliseconds) cleanup r := by
      refine List.forall_mem_map.mpr fun _ _ => ?_
      exact ⟨rfl, rfl, rfl⟩
    rcases run_endsAs hrounds hf hrun with ⟨_, -, hwait⟩ | ⟨_, _, hret, hmultiple⟩
    · exact absurd hwait (by simp)
    · obtain ⟨rfl, rfl⟩ := Status.returned.inj hret
      rw [hmultiple, hcleanups]
  · intro hmultiple uninit rounds hrounds
    obtain ⟨f, hstart, hf⟩ := start_one h dwMilliseconds uninit
    have hround := round_endsAs (h := h) (hrounds 0) hf
    have hrun : run (step [some h] false) (.waiting f) ((List.range 1).map rounds) =
        some (round [some h] false f (rounds 0)) := rfl
    rw [hmultiple] at hround
    generalize WaitArrays.round [some h] false f (rounds 0) = t at hround hrun
    cases t with
    | waiting => exact absurd hround.1 (Option.some_ne_none _)
    | returned f' rc =>
      have hsame := Option.some.inj hround
      refine ⟨1, f', ?_, (congrArg Prod.snd hsame).symm⟩
      rw [hstart, hrun, hsame]
    | fault => exact hround.elim

/-- **The two waits agree if and only if the condition holds**, for every handle with or without a
descriptor, every mode and timeout, and everything that `poll` and the cleanup function may
do. -/
theorem single_multiple_agree_iff (kernel : Pollfd → ℕ → PollResult) (cleanup : ℕ) (h : Waitable)
    (dwMilliseconds : ℕ) :
    Agrees kernel cleanup h dwMilliseconds ↔ AskedFor kernel h dwMilliseconds := by
  rw [agrees_iff_multiple, AskedFor, waitForSingleObject]
  by_cases hfd : h.fd = -1
  · have hneg : h.fd < 0 := by omega
    rw [multiple_of_bad hfd, if_pos hneg]
    exact iff_of_true rfl (Or.inl hfd)
  · rw [or_iff_right hfd]
    have hstatus : waitOnFd kernel h.fd h.mode dwMilliseconds =
        (polled kernel h dwMilliseconds).status := rfl
    rw [hstatus]
    cases polled kernel h dwMilliseconds with
    | failed =>
      refine iff_of_true ?_ trivial
      rw [multiple_failed]
      split <;> rfl
    | reported revents =>
      rw [multiple_reported hfd]
      by_cases hneg : h.fd < 0
      · -- the single wait fails, and the multiple one does something else
        rw [if_pos hneg]
        refine iff_of_false ?_ fun hasked => absurd hneg (not_lt.mpr hasked.1)
        split_ifs
        · simp [waitTimeout, waitFailed]
        · simp
        · simp
      · rw [if_neg hneg]
        by_cases hzero : revents = 0
        · have hzero' : (PollResult.reported revents).status = 0 := if_neg (not_not.mpr hzero)
          rw [if_pos hzero, hzero']
          exact iff_of_true rfl ⟨not_lt.mp hneg, fun hne => absurd hzero hne⟩
        · have hone : (PollResult.reported revents).status = 1 := if_pos hzero
          have hasked : (0 ≤ h.fd ∧ (revents ≠ 0 →
              revents &&& handleModeToPollevent h.mode ≠ 0)) ↔
                revents &&& handleModeToPollevent h.mode ≠ 0 := by
            rw [and_iff_right (not_lt.mp hneg), forall_prop_of_true hzero]
          dsimp only
          rw [if_neg hzero, hone, hasked]
          by_cases hset : revents &&& handleModeToPollevent h.mode ≠ 0
          · rw [if_pos hset]
            exact iff_of_true rfl hset
          · rw [if_neg hset]
            exact iff_of_false (by simp) hset

/-- `POLLHUP`. -/
def pollHup : ℕ := 16

/-- A descriptor whose other end is closed: `poll` reports a hangup, and nothing to read. -/
theorem hangup_disagrees :
    ¬∀ (kernel : Pollfd → ℕ → PollResult) (cleanup : ℕ) (h : Waitable) (dwMilliseconds : ℕ),
      Agrees kernel cleanup h dwMilliseconds := by
  intro h
  have hagree := h (fun _ _ => .reported pollHup) waitObject0 ⟨3, fdRead⟩ 0
  rw [agrees_iff_multiple] at hagree
  exact absurd hagree (by decide)

end Call

end WaitSingle

end Libuzi
