import Libuzi.Handle.WaitArrays

/-!
# The books of a wait for several objects

The log of a whole call of `WaitForMultipleObjects` (`Libuzi.WaitArrays`), over any number
of rounds with an infinite timeout in which `poll` reports something, be it nothing that is
waited for, and the cleanup functions succeed.

The log is the one that is expected (`run_all`, `run_any`). In a wait for all handles no
handle occurs in it any more once it has been cleaned up (`neverAgain_waitAllLog`), and the
call returns in the round that cleans up the last one; in a wait for one handle there is one
cleanup, of the first handle that is ready in the first round in which any is. Together this
is `bookkeeping`.
-/

namespace Libuzi

open Runs

namespace WaitArrays

open Handle Timer Wait

/-! ### What the log says -/

section Log

variable {handles : List (Option Waitable)} {r : Reported} {slot : ℕ} {rest : List ℕ}

theorem cleanups_append (log log' : List Action) :
    cleanups (log ++ log') = cleanups log ++ cleanups log' :=
  List.filterMap_append ..

theorem cleanups_examined :
    cleanups (examined handles r slot rest) = cleaned handles r slot rest := by
  induction rest generalizing slot with
  | nil => rfl
  | cons idx rest ih =>
    rw [examined, cleaned]
    split_ifs
    · exact congrArg (idx :: ·) ih
    · exact ih

theorem mem_cleanups {log : List Action} {idx : ℕ} :
    idx ∈ cleanups log ↔ Action.cleanup idx ∈ log := by
  rw [cleanups, List.mem_filterMap]
  constructor
  · rintro ⟨a, ha, h⟩
    cases a with
    | cleanup idx' =>
      obtain rfl := Option.some.inj h
      exact ha
    | _ => cases h
  · intro h
    exact ⟨_, h, rfl⟩

/-- Only the handles that are looked at occur. -/
theorem positions_examined {a : Action} (ha : a ∈ examined handles r slot rest) {idx : ℕ}
    (hidx : idx ∈ a.positions) : idx ∈ rest := by
  induction rest generalizing slot with
  | nil => exact absurd ha List.not_mem_nil
  | cons k rest ih =>
    rw [examined] at ha
    rcases List.mem_cons.mp ha with rfl | ha
    · obtain rfl := List.mem_singleton.mp hidx
      exact List.mem_cons_self
    · split_ifs at ha
      · rcases List.mem_cons.mp ha with rfl | ha
        · obtain rfl := List.mem_singleton.mp hidx
          exact List.mem_cons_self
        · exact List.mem_cons_of_mem k (ih ha)
      · exact List.mem_cons_of_mem k (ih ha)

theorem neverAgain_examined (hnd : rest.Nodup) : NeverAgain (examined handles r slot rest) := by
  induction rest generalizing slot with
  | nil => exact List.Pairwise.nil
  | cons k rest ih =>
    obtain ⟨hk, hnd⟩ := List.nodup_cons.mp hnd
    rw [examined]
    refine List.Pairwise.cons (fun _ _ idx h => by cases h) ?_
    split_ifs
    · refine List.Pairwise.cons (fun b hb idx h => ?_) (ih hnd)
      -- what is cleaned up is not in the rest
      obtain rfl := Action.cleanup.inj h
      exact fun hidx => hk (positions_examined hb hidx)
    · exact ih hnd

theorem mem_remaining {done : List ℕ} {idx : ℕ} :
    idx ∈ remaining handles done ↔ idx < handles.length ∧ idx ∉ done := by
  rw [remaining, List.mem_filter, List.mem_range, decide_eq_true_iff]

theorem positions_pollOf (positions : List ℕ) :
    (pollOf handles positions).positions = positions := by
  rw [pollOf, Action.positions, List.map_map]
  exact List.map_id _

/-- **What has been cleaned up does not occur in a log any more.** -/
theorem positions_waitAllLog {rounds : List Reported} {done : List ℕ} {a : Action}
    (ha : a ∈ waitAllLog handles rounds done) {idx : ℕ} (hidx : idx ∈ a.positions) :
    idx ∉ done := by
  induction rounds generalizing done with
  | nil => exact absurd ha List.not_mem_nil
  | cons r rounds ih =>
    rw [waitAllLog] at ha
    rcases List.mem_append.mp ha with ha | ha
    · rcases List.mem_cons.mp ha with rfl | ha
      · rw [positions_pollOf] at hidx
        exact (mem_remaining.mp hidx).2
      · exact (mem_remaining.mp (positions_examined ha hidx)).2
    · exact fun hmem => ih ha (List.mem_append_left _ hmem)

theorem neverAgain_waitAllLog (rounds : List Reported) (done : List ℕ) :
    NeverAgain (waitAllLog handles rounds done) := by
  induction rounds generalizing done with
  | nil => exact List.Pairwise.nil
  | cons r rounds ih =>
    have hnd : (remaining handles done).Nodup := List.nodup_range.filter _
    refine List.pairwise_append.mpr ⟨?_, ih _, fun a ha b hb idx h hidx => ?_⟩
    · exact List.Pairwise.cons (fun _ _ idx h => by cases h) (neverAgain_examined hnd)
    · subst h
      rcases List.mem_cons.mp ha with h | ha
      · cases h
      · -- what this round cleans up is among what is done in the rounds after it
        rw [← mem_cleanups, cleanups_examined] at ha
        exact positions_waitAllLog hb hidx (List.mem_append_right _ ha)

theorem cleanups_waitAllLog (r : Reported) (rounds : List Reported) (done : List ℕ) :
    cleanups (waitAllLog handles (r :: rounds) done) =
      cleaned handles r 0 (remaining handles done) ++ cleanups (waitAllLog handles rounds
        (done ++ cleaned handles r 0 (remaining handles done))) := by
  rw [waitAllLog, cleanups_append, ← cleanups_examined]
  rfl

/-- A round of a wait for one handle cleans up the first that is ready. -/
theorem cleanups_examinedFirst {k : ℕ} :
    cleanups (examinedFirst handles r slot (List.range' slot k)) =
      ((List.range' slot k).find? fun idx => ready handles r idx idx).toList := by
  induction k generalizing slot with
  | zero => rfl
  | succ k ih =>
    rw [List.range'_succ, examinedFirst]
    by_cases hset : ready handles r slot slot = true
    · rw [if_pos hset, List.find?_cons_of_pos (p := fun idx => ready handles r idx idx) hset]
      rfl
    · rw [if_neg hset, List.find?_cons_of_neg (p := fun idx => ready handles r idx idx) hset]
      exact ih

theorem cleanups_waitAnyLog (r : Reported) :
    cleanups (waitAnyLog handles r) = (firstReady handles r).toList := by
  rw [firstReady, List.range_eq_range', ← cleanups_examinedFirst, waitAnyLog,
    List.range_eq_range']
  rfl

end Log

/-! ### Whole calls -/

section Call

variable {handles : List (Option Waitable)} {f : Frame} {st : Status} {rounds : List Reported}

/-- In each round `poll` reports something, and every cleanup function that is called succeeds. -/
def Reporting (rounds : List Reported) : Prop :=
  ∀ r ∈ rounds, 0 < r.status ∧ ∀ idx, r.cleanup idx = waitObject0

theorem run_returned {bWaitAll : Bool} {rc : ℕ}
    (h : run (step handles bWaitAll) (.returned f rc) rounds = some st) :
    rounds = [] ∧ st = .returned f rc := by
  cases rounds with
  | nil => exact ⟨rfl, (Option.some.inj h).symm⟩
  | cons r rounds => cases h

/-- **A run of a wait for all handles**, of which those in `done` have been cleaned up. -/
theorem run_all {done : List ℕ} (hgood : Backed handles) (hr : Reporting rounds)
    (halloc : Allocated handles true f) (hw : Counted handles.length f.waiting)
    (hlt : f.waiting.signalled < handles.length) (hdw : f.waiting.dwMilliseconds = infinite)
    (hdone : ∀ k < handles.length, f.waiting.signalledIdx.getD k false = true ↔ k ∈ done)
    (hrun : run (step handles true) (.waiting f) rounds = some st) :
    ∃ f', f'.log = f.log ++ waitAllLog handles rounds done ∧ Counted handles.length f'.waiting ∧
      (∀ k < handles.length, f'.waiting.signalledIdx.getD k false = true ↔
        k ∈ done ∨ k ∈ cleanups (waitAllLog handles rounds done)) ∧
      (st = .waiting f' ∧ f'.waiting.signalled < handles.length ∨
        st = .returned f' waitObject0 ∧ handles.length ≤ f'.waiting.signalled) := by
  induction rounds generalizing f done with
  | nil =>
    refine ⟨f, (List.append_nil _).symm, hw, fun k hk => ?_,
      .inl ⟨(Option.some.inj hrun).symm, hlt⟩⟩
    rw [hdone k hk]
    exact ⟨Or.inl, fun h => h.resolve_right List.not_mem_nil⟩
  | cons r rounds ih =>
    obtain ⟨hstatus, hcl⟩ := hr r List.mem_cons_self
    have hpending : pending f.waiting handles.length = remaining handles done := by
      refine List.filter_congr fun k hk => ?_
      have hk := hdone k (List.mem_range.mp hk)
      rw [Bool.eq_iff_iff, Bool.not_eq_true', decide_eq_true_iff, ← hk, Bool.not_eq_true]
    obtain ⟨g, hlog, hgalloc, hgw, hgdw, hsig, hend⟩ :=
      round_all halloc hgood hw hlt hdw hstatus hcl
    rw [hpending] at hlog hsig
    have hgdone : ∀ k < handles.length, g.waiting.signalledIdx.getD k false = true ↔
        k ∈ done ++ cleaned handles r 0 (remaining handles done) := by
      intro k hk
      rw [hsig k hk, hdone k hk, List.mem_append]
    rw [run_cons, step, Option.bind_some] at hrun
    rw [cleanups_waitAllLog]
    rcases hend with ⟨hround, hglt⟩ | ⟨hround, hge⟩
    · rw [hround] at hrun
      obtain ⟨f', hlog', hw', hsig', hend'⟩ := ih (fun r' hr' => hr r' (List.mem_cons_of_mem r hr'))
        hgalloc hgw hglt hgdw hgdone hrun
      refine ⟨f', ?_, hw', fun k hk => ?_, hend'⟩
      · rw [hlog', hlog, waitAllLog, List.append_assoc]
      · rw [hsig' k hk, List.mem_append, List.mem_append, or_assoc]
    · rw [hround] at hrun
      obtain ⟨rfl, rfl⟩ := run_returned hrun
      refine ⟨g, ?_, hgw, fun k hk => ?_, .inr ⟨rfl, hge⟩⟩
      · rw [hlog, waitAllLog, waitAllLog, List.append_nil]
      · rw [hgdone k hk, waitAllLog, List.mem_append]
        exact or_congr_right ⟨List.mem_append_left _, fun h =>
          (List.mem_append.mp h).resolve_right List.not_mem_nil⟩

/-- **A run of a wait for one handle.** -/
theorem run_any (hgood : Backed handles) (hr : Reporting rounds)
    (halloc : Allocated handles false f) (hdw : f.waiting.dwMilliseconds = infinite)
    (hrun : run (step handles false) (.waiting f) rounds = some st) :
    ∃ f', f'.log = f.log ++ rounds.flatMap (waitAnyLog handles) ∧
      (st = .waiting f' ∧ (∀ r ∈ rounds, firstReady handles r = none) ∨
        ∃ earlier r idx, rounds = earlier ++ [r] ∧ (∀ r' ∈ earlier, firstReady handles r' = none) ∧
          firstReady handles r = some idx ∧ st = .returned f' (waitObject0 + idx)) := by
  induction rounds generalizing f with
  | nil =>
    exact ⟨f, (List.append_nil _).symm, .inl ⟨(Option.some.inj hrun).symm, fun _ hr' =>
      absurd hr' List.not_mem_nil⟩⟩
  | cons r rounds ih =>
    obtain ⟨hstatus, hcl⟩ := hr r List.mem_cons_self
    obtain ⟨g, hlog, hgalloc, hgdw, hround⟩ := round_any halloc hgood hdw hstatus hcl
    rw [run_cons, step, Option.bind_some, hround] at hrun
    cases hfirst : firstReady handles r with
    | some idx =>
      rw [hfirst] at hrun
      obtain ⟨rfl, rfl⟩ := run_returned hrun
      refine ⟨g, by rw [hlog, List.flatMap_cons, List.flatMap_nil, List.append_nil], .inr ?_⟩
      exact ⟨[], r, idx, rfl, fun _ hr' => absurd hr' List.not_mem_nil, hfirst, rfl⟩
    | none =>
      rw [hfirst] at hrun
      obtain ⟨f', hlog', hend⟩ := ih (fun r' hr' => hr r' (List.mem_cons_of_mem r hr')) hgalloc
        hgdw hrun
      refine ⟨f', by rw [hlog', hlog, List.flatMap_cons, List.append_assoc], ?_⟩
      rcases hend with ⟨hst, hnone⟩ | ⟨earlier, r', idx, hsplit, hnone, hready, hst⟩
      · refine .inl ⟨hst, fun r' hr' => ?_⟩
        rcases List.mem_cons.mp hr' with rfl | hr'
        · exact hfirst
        · exact hnone r' hr'
      · refine .inr ⟨r :: earlier, r', idx, by rw [hsplit, List.cons_append], ?_, hready, hst⟩
        intro r'' hr''
        rcases List.mem_cons.mp hr'' with rfl | hr''
        · exact hfirst
        · exact hnone r'' hr''

/-- The arrays are there at the start. -/
theorem allocated_start (bWaitAll : Bool) (dwMilliseconds : ℕ) (uninit : ℕ → Pollfd) :
    Allocated handles bWaitAll (Frame.start handles bWaitAll dwMilliseconds uninit) := by
  refine ⟨?_, ?_, ?_⟩
  · cases bWaitAll with
    | true => exact List.length_replicate
    | false => rfl
  · cases bWaitAll with
    | true => exact List.length_replicate
    | false => rfl
  · exact (List.length_map ..).trans List.length_range

theorem waitForMultipleObjects_eq (hn : 1 ≤ handles.length ∧ handles.length ≤ 64) (bWaitAll : Bool)
    (dwMilliseconds : ℕ) (uninit : ℕ → Pollfd) :
    waitForMultipleObjects handles bWaitAll dwMilliseconds uninit =
      .waiting (Frame.start handles bWaitAll dwMilliseconds uninit) := by
  rw [waitForMultipleObjects, if_neg]
  unfold maximumWaitObjects
  omega

/-- What a run without a handle that is ready cleans up. -/
theorem cleanups_flatMap_of_none {earlier : List Reported}
    (h : ∀ r ∈ earlier, firstReady handles r = none) :
    cleanups (earlier.flatMap (waitAnyLog handles)) = [] := by
  induction earlier with
  | nil => rfl
  | cons r earlier ih =>
    rw [List.flatMap_cons, cleanups_append, cleanups_waitAnyLog, h r List.mem_cons_self,
      ih fun r' hr' => h r' (List.mem_cons_of_mem r hr')]
    rfl

/-- **The books are kept**, for every list of 1 to 64 handles with descriptors, whatever the
arrays hold at first, and every sequence of rounds with an infinite timeout in which `poll`
reports something and the cleanup functions succeed. -/
theorem bookkeeping (handles : List (Option Waitable)) (uninit : ℕ → Pollfd)
    (rounds : List Reported) (hn : 1 ≤ handles.length ∧ handles.length ≤ 64)
    (hgood : Backed handles) (hr : Reporting rounds) :
    (∀ st, run (step handles true) (waitForMultipleObjects handles true infinite uninit) rounds =
        some st → WaitAllLaw handles rounds st) ∧
      (∀ st, run (step handles false) (waitForMultipleObjects handles false infinite uninit)
        rounds = some st → WaitAnyLaw handles rounds st) := by
  constructor
  · intro st hrun
    rw [waitForMultipleObjects_eq hn] at hrun
    obtain ⟨hcounted, hlt, hdw⟩ : Between handles infinite _ := between_start (by omega)
    have hdone : ∀ k < handles.length, (List.replicate handles.length false).getD k false = true ↔
        k ∈ ([] : List ℕ) := by
      intro k hk
      simp [List.getD_eq_getElem?_getD, hk]
    obtain ⟨f', hlog, hw, hsig, hend⟩ :=
      run_all hgood hr (allocated_start true infinite uninit) hcounted hlt hdw hdone hrun
    have hlog : f'.log = waitAllLog handles rounds [] := hlog
    have hnever : NeverAgain f'.log := hlog ▸ neverAgain_waitAllLog rounds []
    rcases hend with ⟨rfl, hlt'⟩ | ⟨rfl, hge⟩
    · -- the first handle that is not marked has not been cleaned up
      refine ⟨hlog, hnever, f'.waiting.signalled, hlt', fun hmem => ?_⟩
      rw [hlog] at hmem
      have hset := (hsig _ hlt').mpr (.inr hmem)
      exact Bool.false_ne_true (hw.getD.symm.trans hset)
    · refine ⟨rfl, hlog, hnever, fun idx hidx => ?_⟩
      rw [hlog]
      refine ((hsig idx hidx).mp ?_).resolve_left List.not_mem_nil
      by_contra hns
      have := hw.le (Bool.eq_false_of_not_eq_true hns)
      omega
  · intro st hrun
    rw [waitForMultipleObjects_eq hn] at hrun
    obtain ⟨f', hlog, hend⟩ := run_any hgood hr (allocated_start false infinite uninit) rfl hrun
    have hlog : f'.log = rounds.flatMap (waitAnyLog handles) := hlog
    rcases hend with ⟨rfl, hnone⟩ | ⟨earlier, r, idx, hsplit, hnone, hready, rfl⟩
    · exact ⟨hlog, by rw [hlog, cleanups_flatMap_of_none hnone], hnone⟩
    · refine ⟨hlog, earlier, r, idx, hsplit, hnone, hready, ?_, rfl⟩
      rw [hlog, hsplit, List.flatMap_append, cleanups_append, cleanups_flatMap_of_none hnone,
        List.flatMap_cons, List.flatMap_nil, List.append_nil, cleanups_waitAnyLog, hready]
      rfl

end Call

/-! ### An example -/

/-- Three handles, all readable. -/
def threeHandles : List (Option Waitable) :=
  [some ⟨3, fdRead⟩, some ⟨4, fdRead⟩, some ⟨5, fdRead⟩]

/-- A round in which `poll` reports `POLLIN` for the entry at the index `slot`, and something else
for the others. -/
def reportsOnly (slot : ℕ) : Reported where
  starttime := nanoseconds 0 Timer.zero_lt_nsecPerSec
  status := 1
  revents := fun i => if i = slot then pollIn else 16
  timenow := nanoseconds 0 Timer.zero_lt_nsecPerSec
  cleanup := fun _ => waitObject0

theorem reporting_reportsOnly (slots : List ℕ) : Reporting (slots.map reportsOnly) := by
  intro r hr
  obtain ⟨slot, -, rfl⟩ := List.mem_map.mp hr
  exact ⟨Int.one_pos, fun _ => rfl⟩

/-- A wait for all handles, of which the second is ready in the first round, the first in the
second round, and the third in the third round, when its entry is the only one; and a wait for
one handle, which is the second, in the second round. -/
theorem bookkeeping_three :
    (∃ st, run (step threeHandles true)
        (waitForMultipleObjects threeHandles true infinite fun _ => ⟨0, 0, 0⟩)
        ([1, 0, 0].map reportsOnly) = some st ∧
      WaitAllLaw threeHandles ([1, 0, 0].map reportsOnly) st) ∧
    ∃ st, run (step threeHandles false)
        (waitForMultipleObjects threeHandles false infinite fun _ => ⟨0, 0, 0⟩)
        ([7, 1].map reportsOnly) = some st ∧
      WaitAnyLaw threeHandles ([7, 1].map reportsOnly) st := by
  have hgood : Backed threeHandles := by
    unfold Backed
    decide
  refine ⟨⟨_, run_eq_final (by decide), ?_⟩, ⟨_, run_eq_final (by decide), ?_⟩⟩
  · exact (bookkeeping threeHandles _ _ (by decide) hgood (reporting_reportsOnly _)).1 _
      (run_eq_final (by decide))
  · exact (bookkeeping threeHandles _ _ (by decide) hgood (reporting_reportsOnly _)).2 _
      (run_eq_final (by decide))

end WaitArrays

end Libuzi
