import Libuzi.Handle.WaitMultiple

/-!
# What a wait for several objects consumes

The cleanup function of a semaphore reads a byte from its pipe, and that of a waitable timer
reads the number of its expirations: a read that succeeds has consumed a token, which only
the caller of the wait can make up for. An event has no cleanup function.

`WaitForMultipleObjects` calls the cleanup functions in the round in which a handle is
reported ready. If it waits for all handles, other rounds may follow, and each of them may
end the call with `WAIT_TIMEOUT` or `WAIT_FAILED`: the tokens that have been consumed by then
are lost (`waitAll_loses_token`).

The model is that of `Libuzi.Wait` with the reads made explicit, and a list of the handles a
token has been taken from (`toWait_round`). A call has taken no token exactly when in each of
its rounds every semaphore and every timer that is reported ready stands behind a handle, or
is one itself, whose cleanup fails – or the round ends before the first cleanup
(`waitAll_atomic_iff`).
-/

namespace Libuzi

open Runs

namespace WaitTokens

open Handle Timer

/-! ### The model -/

/-- The type of a handle. -/
inductive Kind
  | semaphore
  | timer
  | event
  deriving DecidableEq

/-- A handle in the list that is waited for. -/
structure Listed where
  /-- Its descriptor and mode. -/
  waitable : Wait.Waitable
  /-- Its type. -/
  kind : Kind
  deriving DecidableEq

/-- How `read` ends: with as many bytes as were asked for, with none, or with an error. -/
inductive ReadResult
  | complete
  | nothing
  | failed (errno : ℕ)
  deriving DecidableEq

/-- `ETIMEDOUT`. -/
def etimedout : ℕ := 110

/-- What `read` returns when it is asked for `size` bytes. -/
def ReadResult.length (size : ℤ) : ReadResult → ℤ
  | .complete => size
  | .nothing => 0
  | .failed _ => -1

/-- `errno`, where it is looked at. -/
def ReadResult.errno : ReadResult → ℕ
  | .failed errno => errno
  | _ => 0

/-- `SemaphoreCleanupHandle`. -/
def semaphoreCleanupHandle (r : ReadResult) : ℕ :=
  let length := r.length 1
  if length ≠ 1 then waitFailed else waitObject0

/-- `TimerCleanupHandle`. -/
def timerCleanupHandle (r : ReadResult) : ℕ :=
  let length := r.length 8
  if length ≠ 8 then
    if length = -1 ∧ r.errno = etimedout then waitTimeout else waitFailed
  else waitObject0

/-- `winpr_Handle_cleanup`, when the read – if there is one – ends with `r`. -/
def winprHandleCleanup (kind : Kind) (r : ReadResult) : ℕ :=
  match kind with
  | .semaphore => semaphoreCleanupHandle r
  | .timer => timerCleanupHandle r
  -- there is no cleanup function
  | .event => waitObject0

/-- A token is consumed: the byte of a semaphore, or the expirations of a timer. -/
def takes (kind : Kind) (r : ReadResult) : Bool :=
  match kind with
  | .semaphore => decide (r = .complete)
  | .timer => decide (r = .complete)
  | .event => false

/-- What a round gets from outside; what `poll` reports, and how the reads end, is given by the
position of the handle in the call. -/
structure Round where
  starttime : Timespec
  pollFails : Bool
  revents : ℕ → ℕ
  pollEnd : Timespec
  timenow : Timespec
  /-- How the read ends that the cleanup function makes. -/
  read : ℕ → ReadResult

/-- The variables of the call, and the positions of the handles a token has been taken from. -/
structure Call where
  waiting : Wait.Waiting
  taken : List ℕ
  deriving DecidableEq

/-- Where a call stands. -/
inductive Status
  /-- It has returned before the first round. -/
  | refused (rc : ℕ)
  /-- It is about to begin a round. -/
  | waiting (c : Call)
  /-- It has returned in the round `r`, which began with `w`. -/
  | returned (w : Wait.Waiting) (r : Round) (taken : List ℕ) (rc : ℕ)

section Model

variable (handles : List (Option Listed))

/-- The handles as `Libuzi.Wait` sees them. -/
def waitables : List (Option Wait.Waitable) := handles.map (Option.map Listed.waitable)

/-- The type of the handle at a position; what is not a handle is not cleaned up. -/
def kindOf (idx : ℕ) : Kind :=
  match handles.getD idx none with
  | none => .event
  | some h => h.kind

/-- The round as `Libuzi.Wait` sees it. -/
def Round.toWait (r : Round) : Wait.Round where
  starttime := r.starttime
  pollFails := r.pollFails
  revents := r.revents
  pollEnd := r.pollEnd
  timenow := r.timenow
  cleanup := fun idx => winprHandleCleanup (kindOf handles idx) (r.read idx)

/-- The loop over the polled handles in a wait for all of them: the value that is returned, or
the variables after the loop, and the tokens taken. -/
def scan (r : Round) : List ℕ → Wait.Waiting → List ℕ → Except ℕ Wait.Waiting × List ℕ
  | [], w, taken => (.ok w, taken)
  | idx :: rest, w, taken =>
    if Wait.badHandle (waitables handles) idx then (.error waitFailed, taken)
    else if (r.toWait handles).signalSet (waitables handles) idx then
      let rc := winprHandleCleanup (kindOf handles idx) (r.read idx)
      let taken := if takes (kindOf handles idx) (r.read idx) then taken ++ [idx] else taken
      if rc ≠ waitObject0 then (.error rc, taken)
      else if handles.length ≤ (w.mark idx).signalled then (.error waitObject0, taken)
      else scan r rest (w.mark idx) taken
    else scan r rest w taken

/-- The rest of a round, once the timeout has been adjusted. -/
def finishRound (w₀ : Wait.Waiting) (taken : List ℕ) (r : Round) (w : Wait.Waiting) : Status :=
  match scan handles r (w.polled (waitables handles) true) w taken with
  | (.error rc, taken') => .returned w₀ r taken' rc
  | (.ok w', taken') => .waiting ⟨w', taken'⟩

/-- **One round of a wait for all handles.** -/
def round (c : Call) (r : Round) : Status :=
  let w := c.waiting
  if (w.polled (waitables handles) true).any (Wait.badHandle (waitables handles)) then
    .returned w r c.taken waitFailed
  else if r.pollFails then .returned w r c.taken waitFailed
  else if (r.toWait handles).status (w.polled (waitables handles) true) = 0 then
    .returned w r c.taken waitTimeout
  else if w.dwMilliseconds ≠ Wait.infinite then
    let diff := Wait.toUnsigned (Wait.tsDifftime r.timenow r.starttime)
    if diff / 1000 > w.dwMilliseconds then .returned w r c.taken waitTimeout
    else finishRound handles w c.taken r
      { w with dwMilliseconds := w.dwMilliseconds - diff / 1000 }
  else finishRound handles w c.taken r w

/-- `WaitForMultipleObjects(nCount, lpHandles, TRUE, dwMilliseconds)`, up to its first round. -/
def waitForMultipleObjects (dwMilliseconds : ℕ) : Status :=
  if handles.length = 0 ∨ Wait.maximumWaitObjects < handles.length then .refused waitFailed
  else .waiting ⟨
    { signalledIdx := List.replicate handles.length false
      signalled := 0
      dwMilliseconds := dwMilliseconds }, []⟩

/-- A call that waits has one more round. -/
def step : Status → Round → Option Status
  | .waiting c, r => some (round handles c r)
  | _, _ => none

/-- What a call has taken so far. -/
def Status.taken : Status → List ℕ
  | .refused _ => []
  | .waiting c => c.taken
  | .returned _ _ taken _ => taken

/-- What a call has returned. -/
def Status.result : Status → Option ℕ
  | .refused rc => some rc
  | .waiting _ => none
  | .returned _ _ _ rc => some rc

/-- The status as `Libuzi.Wait` sees it. -/
def Status.toWait : Status → Wait.Status
  | .refused rc => .refused rc
  | .waiting c => .waiting c.waiting
  | .returned w r _ rc => .returned w (r.toWait handles) rc

end Model

/-! ### What is asked of the call -/

section Law

variable (handles : List (Option Listed))

/-- The round goes as far as the loop over the polled handles. -/
def Scans (w : Wait.Waiting) (r : Round) : Prop :=
  (∀ idx ∈ w.polled (waitables handles) true,
      Wait.badHandle (waitables handles) idx = false) ∧
    r.pollFails = false ∧
    (r.toWait handles).status (w.polled (waitables handles) true) ≠ 0 ∧
    (w.dwMilliseconds ≠ Wait.infinite →
      Wait.toUnsigned (Wait.tsDifftime r.timenow r.starttime) / 1000 ≤ w.dwMilliseconds)

/-- Among the handles in `l`, each semaphore and timer that is reported ready, and that would give
a token, stands behind a handle that is reported ready and whose cleanup fails. -/
def Guarded (r : Round) (l : List ℕ) : Prop :=
  ∀ idx ∈ l, (r.toWait handles).signalSet (waitables handles) idx = true →
    takes (kindOf handles idx) (r.read idx) = true →
    ∃ k ∈ l, k < idx ∧ (r.toWait handles).signalSet (waitables handles) k = true ∧
      (r.toWait handles).cleanup k ≠ waitObject0

/-- **A call that returns `WAIT_TIMEOUT` or `WAIT_FAILED` has consumed nothing.** -/
def AtomicOnFailure (s : Status) : Prop :=
  s.result = some waitTimeout ∨ s.result = some waitFailed → s.taken = []

/-- **The condition on a round**: it ends before the first cleanup, or each semaphore and timer that
is reported ready, and that would give a token, stands behind a handle whose cleanup fails. -/
def SparesTokens : Status → Round → Prop
  | .waiting c, r => Scans handles c.waiting r →
      Guarded handles r (c.waiting.polled (waitables handles) true)
  | _, _ => True

end Law

/-! ### The tokens of one round -/

section Round

variable {handles : List (Option Listed)} {r : Round}

theorem length_waitables : (waitables handles).length = handles.length := List.length_map ..

/-- A cleanup that fails has taken nothing. -/
theorem takes_eq_false {kind : Kind} {x : ReadResult}
    (h : winprHandleCleanup kind x ≠ waitObject0) : takes kind x = false := by
  cases kind with
  | event => rfl
  | semaphore =>
    cases x with
    | complete => exact absurd rfl h
    | _ => rfl
  | timer =>
    cases x with
    | complete => exact absurd rfl h
    | _ => rfl

/-- A handle at the head of the list that is no threat itself does not matter. -/
theorem guarded_cons {idx : ℕ} {l : List ℕ} (hlt : ∀ k ∈ l, idx < k)
    (hidx : ¬((r.toWait handles).signalSet (waitables handles) idx = true ∧
      takes (kindOf handles idx) (r.read idx) = true))
    (hok : (r.toWait handles).signalSet (waitables handles) idx = true →
      (r.toWait handles).cleanup idx = waitObject0) :
    Guarded handles r (idx :: l) ↔ Guarded handles r l := by
  constructor
  · intro h j hj hset htakes
    obtain ⟨k, hk, hkj, hkset, hkfail⟩ := h j (List.mem_cons_of_mem idx hj) hset htakes
    rcases List.mem_cons.mp hk with rfl | hk
    · exact absurd (hok hkset) hkfail
    · exact ⟨k, hk, hkj, hkset, hkfail⟩
  · intro h j hj hset htakes
    rcases List.mem_cons.mp hj with rfl | hj
    · exact absurd ⟨hset, htakes⟩ hidx
    · obtain ⟨k, hk, hrest⟩ := h j hj hset htakes
      exact ⟨k, List.mem_cons_of_mem idx hk, hrest⟩

/-- **What the loop over the polled handles takes**: nothing, exactly when every handle that would
give a token stands behind one whose cleanup fails. -/
theorem scan_taken {w : Wait.Waiting} {l taken : List ℕ}
    (hgood : ∀ idx ∈ l, Wait.badHandle (waitables handles) idx = false)
    (hw : Wait.Counted handles.length w)
    (hl : ∀ idx ∈ l, idx < handles.length ∧ w.signalledIdx.getD idx false = false)
    (hsorted : l.Pairwise (· < ·)) :
    ((scan handles r l w taken).2 = [] ↔ taken = [] ∧ Guarded handles r l) ∧
      ∀ w', (scan handles r l w taken).1 = .ok w' → Wait.Counted handles.length w' := by
  induction l generalizing w taken with
  | nil =>
    refine ⟨⟨fun h => ⟨h, fun _ hj => absurd hj List.not_mem_nil⟩, And.left⟩, fun w' h => ?_⟩
    obtain rfl := Except.ok.inj h
    exact hw
  | cons idx l ih =>
    obtain ⟨hlt, hsorted⟩ := List.pairwise_cons.mp hsorted
    have hgood' := fun k hk => hgood k (List.mem_cons_of_mem idx hk)
    have hbad : ¬Wait.badHandle (waitables handles) idx = true := by
      rw [hgood idx List.mem_cons_self]
      exact Bool.false_ne_true
    rw [scan, if_neg hbad]
    by_cases hset : (r.toWait handles).signalSet (waitables handles) idx = true
    · rw [if_pos hset]
      simp only
      by_cases hc : winprHandleCleanup (kindOf handles idx) (r.read idx) = waitObject0
      · rw [if_neg (not_not.mpr hc)]
        have hl' := Wait.mark_rest (fun h => lt_irrefl idx (hlt idx h)) hl
        by_cases htakes : takes (kindOf handles idx) (r.read idx) = true
        · -- a token is taken, and nothing has guarded it
          have hnot : ¬Guarded handles r (idx :: l) := by
            intro h
            obtain ⟨k, hk, hkidx, -⟩ := h idx List.mem_cons_self hset htakes
            rcases List.mem_cons.mp hk with rfl | hk
            · exact absurd hkidx (lt_irrefl _)
            · exact absurd (hlt k hk) (by omega)
          have hne : ¬taken ++ [idx] = [] := List.append_ne_nil_of_right_ne_nil _ (by simp)
          rw [if_pos htakes]
          by_cases hall : handles.length ≤ (w.mark idx).signalled
          · rw [if_pos hall]
            exact ⟨iff_of_false hne fun h => hnot h.2, fun w' h => by cases h⟩
          · rw [if_neg hall]
            have hrest : ((scan handles r l (w.mark idx) (taken ++ [idx])).2 = [] ↔ _) ∧ _ :=
              ih hgood' (hw.mark idx) hl' hsorted
            obtain ⟨htaken, hcounted⟩ := hrest
            refine ⟨?_, hcounted⟩
            rw [htaken]
            exact iff_of_false (fun h => hne h.1) fun h => hnot h.2
        · have hcons := guarded_cons (r := r) hlt (fun h => htakes h.2) fun _ => hc
          rw [if_neg htakes, hcons]
          by_cases hall : handles.length ≤ (w.mark idx).signalled
          · rw [if_pos hall, (hw.mark idx).eq_nil hall hl']
            exact ⟨⟨fun h => ⟨h, fun _ hj => absurd hj List.not_mem_nil⟩, And.left⟩,
              fun w' h => by cases h⟩
          · rw [if_neg hall]
            exact ih hgood' (hw.mark idx) hl' hsorted
      · -- the cleanup fails, and guards everything behind it
        rw [if_pos hc, if_neg (by rw [takes_eq_false hc]; exact Bool.false_ne_true)]
        refine ⟨(and_iff_left ?_).symm, fun w' h => by cases h⟩
        intro j hj hjset htakes
        refine ⟨idx, List.mem_cons_self, ?_, hset, hc⟩
        rcases List.mem_cons.mp hj with rfl | hj
        · rw [takes_eq_false hc] at htakes
          exact absurd htakes Bool.false_ne_true
        · exact hlt j hj
    · have hcons := guarded_cons (r := r) hlt (fun h => hset h.1) fun h => absurd h hset
      rw [if_neg hset, hcons]
      exact ih hgood' hw (fun k hk => hl k (List.mem_cons_of_mem idx hk)) hsorted

/-- A round that scans takes nothing exactly when each token is guarded, whatever is left of the
timeout. -/
theorem finishRound_taken {c : Call} (hw : Wait.Counted handles.length c.waiting)
    {w : Wait.Waiting} (hidx : w.signalledIdx = c.waiting.signalledIdx)
    (hsig : w.signalled = c.waiting.signalled) (hsc : Scans handles c.waiting r) :
    ((finishRound handles c.waiting c.taken r w).taken = [] ↔
        c.taken = [] ∧ SparesTokens handles (.waiting c) r) ∧
      ∀ c', finishRound handles c.waiting c.taken r w = .waiting c' →
        Wait.Counted handles.length c'.waiting := by
  have hpolled : w.polled (waitables handles) true =
      c.waiting.polled (waitables handles) true := by
    rw [Wait.Waiting.polled, Wait.Waiting.polled, hidx]
  have hcounted : Wait.Counted handles.length w :=
    ⟨by rw [hidx, hw.length], by rw [hidx, hsig, hw.signalled]⟩
  have hmem : ∀ idx ∈ c.waiting.polled (waitables handles) true, idx < handles.length ∧
      w.signalledIdx.getD idx false = false := by
    intro idx hi
    obtain ⟨hlt, hns⟩ := Wait.mem_polled.mp hi
    rw [length_waitables] at hlt
    rw [hidx]
    exact ⟨hlt, hns⟩
  have hsorted : (c.waiting.polled (waitables handles) true).Pairwise (· < ·) := by
    rw [Wait.Waiting.polled, if_pos rfl]
    exact List.pairwise_lt_range.filter _
  have hscan : ((scan handles r _ w c.taken).2 = [] ↔ _) ∧ _ :=
    scan_taken hsc.1 hcounted hmem hsorted
  obtain ⟨htaken, hok⟩ := hscan
  have hspares : SparesTokens handles (.waiting c) r ↔
      Guarded handles r (c.waiting.polled (waitables handles) true) :=
    ⟨fun h => h hsc, fun h _ => h⟩
  rw [finishRound, hpolled, hspares, ← htaken]
  generalize scan handles r (c.waiting.polled (waitables handles) true) w c.taken = out at hok
  obtain ⟨res, taken'⟩ := out
  cases res with
  | error rc => exact ⟨Iff.rfl, fun c' h => by cases h⟩
  | ok w' =>
    refine ⟨Iff.rfl, fun c' h => ?_⟩
    obtain rfl := Status.waiting.inj h
    exact hok w' rfl

/-- **A round takes nothing exactly when it meets the condition**; and the counter is kept. -/
theorem round_taken {c : Call} (hw : Wait.Counted handles.length c.waiting) :
    ((round handles c r).taken = [] ↔
        c.taken = [] ∧ SparesTokens handles (.waiting c) r) ∧
      ∀ c', round handles c r = .waiting c' → Wait.Counted handles.length c'.waiting := by
  -- a round that ends before the scan
  have hends : ∀ rc, ¬Scans handles c.waiting r →
      ((Status.returned c.waiting r c.taken rc).taken = [] ↔
          c.taken = [] ∧ SparesTokens handles (.waiting c) r) ∧
        ∀ c', Status.returned c.waiting r c.taken rc = .waiting c' →
          Wait.Counted handles.length c'.waiting :=
    fun rc hnot => ⟨(and_iff_left fun h => absurd h hnot).symm, fun c' h => by cases h⟩
  rw [round]
  simp only
  by_cases hany : (c.waiting.polled (waitables handles) true).any
      (Wait.badHandle (waitables handles)) = true
  · rw [if_pos hany]
    obtain ⟨idx, hidx, hb⟩ := List.any_eq_true.mp hany
    exact hends _ fun h => Bool.false_ne_true ((h.1 idx hidx).symm.trans hb)
  rw [if_neg hany]
  by_cases hp : r.pollFails = true
  · rw [if_pos hp]
    exact hends _ fun h => Bool.false_ne_true (h.2.1.symm.trans hp)
  rw [if_neg hp]
  by_cases h0 : (r.toWait handles).status (c.waiting.polled (waitables handles) true) = 0
  · rw [if_pos h0]
    exact hends _ fun h => h.2.2.1 h0
  rw [if_neg h0]
  have hgood : ∀ idx ∈ c.waiting.polled (waitables handles) true,
      Wait.badHandle (waitables handles) idx = false := by
    intro idx hidx
    by_contra hb
    exact hany (List.any_eq_true.mpr ⟨idx, hidx, Bool.eq_true_of_not_eq_false hb⟩)
  by_cases hinf : c.waiting.dwMilliseconds ≠ Wait.infinite
  · rw [if_pos hinf]
    by_cases hlate : Wait.toUnsigned (Wait.tsDifftime r.timenow r.starttime) / 1000 >
        c.waiting.dwMilliseconds
    · rw [if_pos hlate]
      exact hends _ fun h => absurd (h.2.2.2 hinf) (by omega)
    · rw [if_neg hlate]
      exact finishRound_taken hw rfl rfl
        ⟨hgood, Bool.eq_false_of_not_eq_true hp, h0, fun _ => by omega⟩
  · rw [if_neg hinf]
    exact finishRound_taken hw rfl rfl
      ⟨hgood, Bool.eq_false_of_not_eq_true hp, h0, fun h => absurd h hinf⟩

end Round

/-! ### The same call without the tokens -/

section Forget

variable {handles : List (Option Listed)} {r : Round}

/-- The loop returns, or goes on with, what it does in `Libuzi.Wait`. -/
theorem scan_fst (l : List ℕ) (w : Wait.Waiting) (taken : List ℕ) (index : ℕ) (sh : Bool) :
    (scan handles r l w taken).1 =
      (Wait.scan (waitables handles) true (r.toWait handles) index l w sh).map Prod.fst := by
  induction l generalizing w taken index sh with
  | nil => rfl
  | cons idx l ih =>
    rw [scan, Wait.scan, length_waitables]
    have hrc : (r.toWait handles).cleanup idx =
        winprHandleCleanup (kindOf handles idx) (r.read idx) := rfl
    simp only [hrc, if_true]
    by_cases hbad : Wait.badHandle (waitables handles) idx = true
    · rw [if_pos hbad, if_pos hbad]
      rfl
    rw [if_neg hbad, if_neg hbad]
    by_cases hset : (r.toWait handles).signalSet (waitables handles) idx = true
    · rw [if_pos hset, if_pos hset]
      by_cases hc : winprHandleCleanup (kindOf handles idx) (r.read idx) ≠ waitObject0
      · rw [if_pos hc, if_pos hc]
        rfl
      rw [if_neg hc, if_neg hc]
      by_cases hall : handles.length ≤ (w.mark idx).signalled
      · rw [if_pos hall, if_pos hall]
        rfl
      · rw [if_neg hall, if_neg hall]
        exact ih ..
    · rw [if_neg hset, if_neg hset]
      exact ih ..

/-- **A round is a round of the wait that does not count tokens.** -/
theorem toWait_round (c : Call) :
    (round handles c r).toWait handles =
      Wait.round (waitables handles) true c.waiting (r.toWait handles) := by
  have hfinish : ∀ w : Wait.Waiting,
      (finishRound handles c.waiting c.taken r w).toWait handles =
        Wait.finishRound (waitables handles) true c.waiting (r.toWait handles) w := by
    intro w
    have hfst : (scan handles r (w.polled (waitables handles) true) w c.taken).1 = _ :=
      scan_fst _ w c.taken 0 false
    rw [finishRound, Wait.finishRound]
    generalize scan handles r (w.polled (waitables handles) true) w c.taken = out at hfst
    generalize Wait.scan (waitables handles) true (r.toWait handles) 0
      (w.polled (waitables handles) true) w false = out' at hfst
    obtain ⟨res, taken'⟩ := out
    cases out' with
    | error rc =>
      obtain rfl : res = .error rc := hfst
      rfl
    | ok p =>
      obtain rfl : res = .ok p.1 := hfst
      rfl
  rw [round, Wait.round]
  simp only [Bool.true_and, decide_eq_true_iff]
  by_cases hany : (c.waiting.polled (waitables handles) true).any
      (Wait.badHandle (waitables handles)) = true
  · rw [if_pos hany, if_pos hany]
    rfl
  rw [if_neg hany, if_neg hany]
  have hpoll : (r.toWait handles).pollFails = r.pollFails := rfl
  rw [hpoll]
  by_cases hp : r.pollFails = true
  · rw [if_pos hp, if_pos hp]
    rfl
  rw [if_neg hp, if_neg hp]
  by_cases h0 : (r.toWait handles).status (c.waiting.polled (waitables handles) true) = 0
  · rw [if_pos h0, if_pos h0]
    rfl
  rw [if_neg h0, if_neg h0]
  by_cases hinf : c.waiting.dwMilliseconds ≠ Wait.infinite
  · rw [if_pos hinf, if_pos hinf]
    -- both read the same clock
    have hnow : (r.toWait handles).timenow = r.timenow := rfl
    have hthen : (r.toWait handles).starttime = r.starttime := rfl
    rw [hnow, hthen]
    by_cases hlate : Wait.toUnsigned (Wait.tsDifftime r.timenow r.starttime) / 1000 >
        c.waiting.dwMilliseconds
    · rw [if_pos hlate, if_pos hlate]
      rfl
    · rw [if_neg hlate, if_neg hlate]
      exact hfinish _
  · rw [if_neg hinf, if_neg hinf]
    exact hfinish _

end Forget

/-! ### Whole calls -/

section Call

variable {handles : List (Option Listed)}

/-- **A run takes nothing exactly when each of its rounds does.** -/
theorem run_taken {rounds : List Round} {s s' : Status}
    (hs : ∀ c, s = .waiting c → Wait.Counted handles.length c.waiting)
    (hrun : run (step handles) s rounds = some s') :
    s'.taken = [] ↔ s.taken = [] ∧ AllMeet (step handles) (SparesTokens handles) s rounds := by
  refine run_iff_allMeet (P := fun s => s.taken = [])
    (I := fun s => ∀ c, s = .waiting c → Wait.Counted handles.length c.waiting) hs ?_ hrun
  intro t t' r ht hstep
  cases t with
  | refused rc => cases hstep
  | returned w r' taken rc => cases hstep
  | waiting c =>
    obtain rfl := Option.some.inj hstep
    obtain ⟨htaken, hcounted⟩ := round_taken (r := r) (ht c rfl)
    exact ⟨hcounted, htaken⟩

/-- **A wait for all handles that fails has consumed nothing exactly when every round spares the
tokens**: for every list of handles, every timeout and every sequence of rounds after which the
call has returned `WAIT_TIMEOUT` or `WAIT_FAILED`. -/
theorem waitAll_atomic_iff (handles : List (Option Listed)) (dwMilliseconds : ℕ)
    (rounds : List Round) (s : Status)
    (hrun : run (step handles) (waitForMultipleObjects handles dwMilliseconds) rounds = some s)
    (hrc : s.result = some waitTimeout ∨ s.result = some waitFailed) :
    AtomicOnFailure s ↔ AllMeet (step handles) (SparesTokens handles)
      (waitForMultipleObjects handles dwMilliseconds) rounds := by
  have hstart : (waitForMultipleObjects handles dwMilliseconds).taken = [] := by
    rw [waitForMultipleObjects]
    split_ifs
    · rfl
    · rfl
  have hcounted : ∀ c, waitForMultipleObjects handles dwMilliseconds = .waiting c →
      Wait.Counted handles.length c.waiting := by
    intro c hc
    rw [waitForMultipleObjects] at hc
    split_ifs at hc with hn
    obtain rfl := Status.waiting.inj hc
    have hbetween : Wait.Between (waitables handles) dwMilliseconds _ :=
      Wait.between_start (by rw [length_waitables]; omega)
    have hcounted := hbetween.counted
    rwa [length_waitables] at hcounted
  have htaken := run_taken hcounted hrun
  rw [and_iff_right hstart] at htaken
  exact ⟨fun h => htaken.mp (h hrc), fun h _ => htaken.mpr h⟩

/-- A semaphore and an event. -/
def semaphoreAndEvent : List (Option Listed) :=
  [some ⟨⟨3, fdRead⟩, .semaphore⟩, some ⟨⟨4, fdRead⟩, .event⟩]

/-- A round in which the clock stands at 0, `poll` reports `POLLIN` for one handle at most, and
reads succeed. -/
def reportsOnly (slot : Option ℕ) : Round where
  starttime := Wait.nanoseconds 0 zero_lt_nsecPerSec
  pollFails := false
  revents := fun i => if slot = some i then pollIn else 0
  pollEnd := Wait.nanoseconds 0 zero_lt_nsecPerSec
  timenow := Wait.nanoseconds 0 zero_lt_nsecPerSec
  read := fun _ => .complete

/-- The event is ready, the semaphore never is: the call times out, and has taken nothing. -/
theorem waitAll_atomic_iff_event :
    ∃ s, run (step semaphoreAndEvent) (waitForMultipleObjects semaphoreAndEvent 50)
        [reportsOnly (some 1), reportsOnly none] = some s ∧
      s.result = some waitTimeout ∧ AtomicOnFailure s := by
  have hspares : AllMeet (step semaphoreAndEvent) (SparesTokens semaphoreAndEvent)
      (waitForMultipleObjects semaphoreAndEvent 50)
      [reportsOnly (some 1), reportsOnly none] := by
    refine ⟨fun _ idx hidx hset htakes => ?_, fun s' hs' => ⟨?_, fun _ _ => trivial⟩⟩
    · -- only the event is reported ready, and it gives no token
      have hlt := (Wait.mem_polled.mp hidx).1
      rw [length_waitables] at hlt
      match idx, hlt with
      | 0, _ => exact absurd hset (by decide)
      | 1, _ => exact absurd htakes (by decide)
    · obtain rfl := Option.some.inj hs'
      exact fun hscans => absurd rfl hscans.2.2.1
  refine ⟨_, run_eq_final (by rfl), rfl, ?_⟩
  exact (waitAll_atomic_iff _ _ _ _ (run_eq_final (by rfl)) (.inl rfl)).mpr hspares

/-- **A token is lost**: the semaphore is ready in the first round, nothing is in the second, and
the call times out. -/
theorem waitAll_loses_token :
    ∃ s, run (step semaphoreAndEvent) (waitForMultipleObjects semaphoreAndEvent 50)
        [reportsOnly (some 0), reportsOnly none] = some s ∧
      ¬AtomicOnFailure s := by
  refine ⟨_, run_eq_final (by rfl), fun h => ?_⟩
  exact absurd (h (.inl rfl)) (by decide)

end Call

end WaitTokens

end Libuzi
