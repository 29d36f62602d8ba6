import Libuzi.Handle.WaitTokens
import Libuzi.Loop

/-!
# Semaphores on a pipe

`CreateSemaphoreW` and `ReleaseSemaphore` (`libuzi/semaphore.c`, in the build with
`WINPR_PIPE_SEMAPHORE`), and `WaitForSingleObject` with a timeout of zero on a semaphore. A token
is a byte in the pipe: releasing writes as many bytes as there are tokens, one by one, and a wait
reads one byte, after `poll` has reported it.

The pipe blocks: where it is full, with 65536 bytes on Linux, a call that writes does not return
before a wait has made room. A run is one of calls that return, so each of its writes has found
room or has failed.

A write may fail. Then `CreateSemaphoreW` closes the pipe, but `ReleaseSemaphore` returns
`FALSE` with the bytes that it has written left in the pipe. These are tokens that nobody has
been told of, and no later call takes them back: the books of a run are right exactly when no
release fails after a write of its own that succeeded (`Semaphore.tokens_conserved_iff`).
-/

namespace Libuzi

open Runs Loop

namespace Semaphore

open Handle

/-! ### The model -/

section Model

/-- `WINPR_SEMAPHORE`, together with what is in the pipe. -/
structure WinprSemaphore where
  /-- `Type`. -/
  type : HandleType
  /-- `Mode`. -/
  mode : ℕ
  /-- `pipe_fd`. -/
  pipeFd : ℤ × ℤ
  /-- How many bytes are in the pipe. -/
  bytes : ℕ
  deriving DecidableEq

/-- `SemaphoreIsHandled`. -/
def semaphoreIsHandled (s : WinprSemaphore) : Bool := decide (s.type = .semaphore)

/-- `SemaphoreGetFd`. -/
def semaphoreGetFd (s : WinprSemaphore) : ℤ := if semaphoreIsHandled s then s.pipeFd.1 else -1

/-- `read` of one byte. There is none to read from an empty pipe, and the call blocks. -/
def read (s : WinprSemaphore) : Option (WinprSemaphore × WaitTokens.ReadResult) :=
  if s.bytes = 0 then none else some ({ s with bytes := s.bytes - 1 }, .complete)

/-- `SemaphoreCleanupHandle`, unless it blocks. -/
def semaphoreCleanupHandle (s : WinprSemaphore) : Option (WinprSemaphore × ℕ) :=
  if semaphoreIsHandled s then
    (read s).map fun r => (r.1, WaitTokens.semaphoreCleanupHandle r.2)
  else some (s, waitFailed)

/-- `waitOnFd`, with a timeout of zero: the number of descriptors that `poll` reports. -/
def waitOnFd (s : WinprSemaphore) : ℤ :=
  if s.bytes ≠ 0 ∧ handleModeToPollevent s.mode &&& pollIn ≠ 0 then 1 else 0

/-- **`WaitForSingleObject(hSemaphore, 0)`**, unless it blocks. -/
def waitForSingleObject (s : WinprSemaphore) : Option (WinprSemaphore × ℕ) :=
  if semaphoreGetFd s < 0 then some (s, waitFailed)
  else if waitOnFd s < 0 then some (s, waitFailed)
  else if waitOnFd s ≠ 1 then some (s, waitTimeout)
  else semaphoreCleanupHandle s

/-- `while (count > 0) { write; count--; }`, where the state is `count` and the number of bytes
written, and `writes i` says whether the `i`-th write of the loop succeeds: the round. -/
def writeRound (writes : ℕ → Bool) (s : ℤ × ℕ) : Loop.Flow (ℤ × ℕ) Bool :=
  if writes s.2 then .next (s.1 - 1, s.2 + 1) else .stop s false

/-- The loop: how many bytes it writes, and whether all of the writes succeed. -/
def writeLoop (writes : ℕ → Bool) (count : ℤ) : ℕ × Bool :=
  let r := whileLoop (fun s => decide (0 < s.1)) (writeRound writes) true (fun s => s.1.toNat)
    (count, 0)
  (r.1.2, r.2)

/-- `CreateSemaphoreW`, given the descriptors that `pipe` returns: when a write fails, the pipe is
closed and there is no semaphore. -/
def createSemaphoreW (callocOk : Bool) (pipe : Option (ℕ × ℕ)) (writes : ℕ → Bool)
    (lInitialCount : Int32) : Option WinprSemaphore :=
  if !callocOk then none
  else
    match pipe with
    | none => none
    | some (fd₀, fd₁) =>
      let r := writeLoop writes lInitialCount.toInt
      if r.2 then
        some { type := .semaphore, mode := fdRead, pipeFd := (fd₀, fd₁), bytes := r.1 }
      else none

/-- `ReleaseSemaphore`. -/
def releaseSemaphore (writes : ℕ → Bool) (lReleaseCount : Int32) (s : WinprSemaphore) :
    WinprSemaphore × Bool :=
  if semaphoreIsHandled s then
    if s.pipeFd.1 ≠ -1 then
      let r := writeLoop writes lReleaseCount.toInt
      ({ s with bytes := s.bytes + r.1 }, r.2)
    else (s, true)
  else (s, false)

end Model

/-! ### Runs, and their books -/

section Books

/-- A call, with the outcome of its writes. -/
inductive Call
  /-- `ReleaseSemaphore(hSemaphore, lReleaseCount, ..)`. -/
  | release (lReleaseCount : Int32) (writes : ℕ → Bool)
  /-- `WaitForSingleObject(hSemaphore, 0)`. -/
  | wait

/-- What a call has returned, with the tokens before and after it. -/
inductive Entry
  | released (lReleaseCount : Int32) (result : Bool) (before after : ℕ)
  | waited (result before after : ℕ)

/-- A semaphore, and the calls so far, the latest first. -/
structure Record where
  semaphore : WinprSemaphore
  entries : List Entry

/-- A call that returns. -/
def callStep (s : Record) : Call → Option Record
  | .release lReleaseCount writes =>
    let r := releaseSemaphore writes lReleaseCount s.semaphore
    some ⟨r.1, .released lReleaseCount r.2 s.semaphore.bytes r.1.bytes :: s.entries⟩
  | .wait =>
    (waitForSingleObject s.semaphore).map fun r =>
      ⟨r.1, .waited r.2 s.semaphore.bytes r.1.bytes :: s.entries⟩

/-- **The books**: what has been promised to be there, according to what the calls have
returned. -/
def credit (lInitialCount : Int32) : List Entry → ℤ
  | [] => max lInitialCount.toInt 0
  | .released lReleaseCount true _ _ :: entries =>
    credit lInitialCount entries + max lReleaseCount.toInt 0
  | .released _ false _ _ :: entries => credit lInitialCount entries
  | .waited result _ _ :: entries =>
    credit lInitialCount entries - if result = waitObject0 then 1 else 0

/-- What is asked of a call by itself: a release that fails adds nothing, and a wait times out
exactly when there is no token. -/
def Entry.Right : Entry → Prop
  | .released _ true _ _ => True
  | .released _ false before after => after = before
  | .waited result before _ => result = waitTimeout ↔ before = 0

/-- **What is asked of a run.** -/
def Conserved (lInitialCount : Int32) (s : Record) : Prop :=
  (s.semaphore.bytes : ℤ) = credit lInitialCount s.entries ∧ ∀ e ∈ s.entries, e.Right

/-- **The condition on a call**: a release whose first write succeeds has no write that fails. -/
def NoneHalfway (_ : Record) : Call → Prop
  | .release lReleaseCount writes =>
    0 < lReleaseCount.toInt → writes 0 = true →
      ∀ i : ℕ, (i : ℤ) < lReleaseCount.toInt → writes i = true
  | .wait => True

end Books

/-! ### The loop of writes -/

section Writes

variable {writes : ℕ → Bool}

theorem decreases_writeRound (writes : ℕ → Bool) :
    Decreases (fun s : ℤ × ℕ => decide (0 < s.1)) (writeRound writes) fun s => s.1.toNat where
  pos := by
    intro s hs
    have hpos : 0 < s.1 := of_decide_eq_true hs
    omega
  lt := by
    intro s s' hs hb
    have hpos : 0 < s.1 := of_decide_eq_true hs
    rw [writeRound] at hb
    split at hb
    · obtain rfl := Loop.Flow.next.inj hb
      dsimp only
      omega
    · cases hb

/-- **What the loop writes**: everything, or what comes before the first write that fails. -/
theorem whileLoop_writeRound (writes : ℕ → Bool) (n k : ℕ) :
    ∃ m b, whileLoop (fun s => decide (0 < s.1)) (writeRound writes) true (fun s => s.1.toNat)
        ((n : ℤ), k) = ((((n - m : ℕ) : ℤ), k + m), b) ∧
      (∀ i < m, writes (k + i) = true) ∧
      (b = true ∧ m = n ∨ b = false ∧ m < n ∧ writes (k + m) = false) := by
  induction n generalizing k with
  | zero =>
    have hend : decide (0 < ((0 : ℕ) : ℤ)) = false := decide_eq_false (lt_irrefl _)
    exact ⟨0, true, whileLoop_done hend, fun i hi => absurd hi i.not_lt_zero, Or.inl ⟨rfl, rfl⟩⟩
  | succ n ih =>
    have hguard : decide (0 < ((n + 1 : ℕ) : ℤ)) = true := decide_eq_true (by omega)
    by_cases hwrite : writes k = true
    · have hround : writeRound writes (((n + 1 : ℕ) : ℤ), k) = .next ((n : ℤ), k + 1) := by
        rw [writeRound, if_pos hwrite, Nat.cast_add_one, add_sub_cancel_right]
      obtain ⟨m, b, hloop, hall, hend⟩ := ih (k + 1)
      refine ⟨m + 1, b, ?_, fun i hi => ?_, ?_⟩
      · rw [whileLoop_next (decreases_writeRound writes) hguard hround, hloop,
          Nat.add_sub_add_right, Nat.add_right_comm, Nat.add_assoc]
      · cases i with
        | zero => exact hwrite
        | succ i =>
          have := hall i (by omega)
          rwa [Nat.add_right_comm, Nat.add_assoc] at this
      · have hnext : k + 1 + m = k + (m + 1) := by omega
        rw [hnext] at hend
        exact hend.imp (fun h => ⟨h.1, by omega⟩) fun h => ⟨h.1, by omega, h.2.2⟩
    · have hround : writeRound writes (((n + 1 : ℕ) : ℤ), k) =
          .stop (((n + 1 : ℕ) : ℤ), k) false := if_neg hwrite
      refine ⟨0, false, whileLoop_stop (decreases_writeRound writes) hguard hround,
        fun i hi => absurd hi (Nat.not_lt_zero i), Or.inr ⟨rfl, n.succ_pos, ?_⟩⟩
      exact Bool.eq_false_iff.mpr hwrite

/-- **The outcome of a loop of writes.** -/
theorem writeLoop_spec (writes : ℕ → Bool) (count : ℤ) :
    (∀ i < (writeLoop writes count).1, writes i = true) ∧
      ((writeLoop writes count).2 = true ∧ (writeLoop writes count).1 = count.toNat ∨
        (writeLoop writes count).2 = false ∧ (writeLoop writes count).1 < count.toNat ∧
          writes (writeLoop writes count).1 = false) := by
  rcases le_total count 0 with hneg | hpos
  · have hloop : whileLoop (fun s => decide (0 < s.1)) (writeRound writes) true
        (fun s => s.1.toNat) (count, 0) = ((count, 0), true) :=
      whileLoop_done (decide_eq_false (not_lt.mpr hneg))
    have hdone : writeLoop writes count = (0, true) := by rw [writeLoop, hloop]
    rw [hdone]
    exact ⟨fun i hi => absurd hi (Nat.not_lt_zero i), Or.inl ⟨rfl, by omega⟩⟩
  · obtain ⟨n, rfl⟩ := Int.eq_ofNat_of_zero_le hpos
    obtain ⟨m, b, hloop, hall, hend⟩ := whileLoop_writeRound writes n 0
    simp only [Nat.zero_add] at hloop hall hend
    have hwrite : writeLoop writes n = (m, b) := by rw [writeLoop, hloop]
    rw [hwrite]
    exact ⟨hall, hend⟩

/-- A loop that fails has written something exactly when its first write succeeds and a later one
does not. -/
theorem writeLoop_zero_iff {count : ℤ} (hfail : (writeLoop writes count).2 = false) :
    (writeLoop writes count).1 = 0 ↔
      (0 < count → writes 0 = true → ∀ i : ℕ, (i : ℤ) < count → writes i = true) := by
  obtain ⟨hall, hend⟩ := writeLoop_spec writes count
  obtain ⟨-, hlt, hno⟩ := hend.resolve_left fun h => Bool.false_ne_true (hfail.symm.trans h.1)
  constructor
  · intro hzero _ hfirst
    rw [hzero] at hno
    exact absurd (hno.symm.trans hfirst) Bool.false_ne_true
  · intro h
    by_contra hne
    have hyes := h (by omega) (hall 0 (Nat.pos_of_ne_zero hne)) (writeLoop writes count).1
      (by omega)
    exact Bool.false_ne_true (hno.symm.trans hyes)

end Writes

/-! ### One call -/

section Calls

variable {c : Int32} {s : Record}

/-- A semaphore as `CreateSemaphoreW` makes it. -/
structure Ready (s : WinprSemaphore) : Prop where
  type : s.type = .semaphore
  mode : s.mode = fdRead
  fd : 0 ≤ s.pipeFd.1

theorem Ready.isHandled {s : WinprSemaphore} (h : Ready s) : semaphoreIsHandled s = true :=
  decide_eq_true h.type

/-- **What a wait does**: it times out when there is no token, and takes one otherwise. -/
theorem waitForSingleObject_eq {s : WinprSemaphore} (h : Ready s) :
    waitForSingleObject s =
      if s.bytes = 0 then some (s, waitTimeout)
      else some ({ s with bytes := s.bytes - 1 }, waitObject0) := by
  have hfd : semaphoreGetFd s = s.pipeFd.1 := if_pos h.isHandled
  have hmode : handleModeToPollevent s.mode &&& pollIn ≠ 0 := by
    rw [h.mode]
    decide
  rw [waitForSingleObject, hfd, if_neg (not_lt.mpr h.fd)]
  by_cases hbytes : s.bytes = 0
  · have hstatus : waitOnFd s = 0 := if_neg fun hand => hand.1 hbytes
    rw [hstatus, if_neg (lt_irrefl 0), if_pos zero_ne_one, if_pos hbytes]
  · have hstatus : waitOnFd s = 1 := if_pos ⟨hbytes, hmode⟩
    rw [hstatus, if_neg (by decide), if_neg (not_not.mpr rfl), if_neg hbytes,
      semaphoreCleanupHandle, if_pos h.isHandled, read, if_neg hbytes]
    rfl

/-- What `ReleaseSemaphore` does. -/
theorem releaseSemaphore_eq {s : WinprSemaphore} (h : Ready s) (writes : ℕ → Bool) (n : Int32) :
    releaseSemaphore writes n s =
      ({ s with bytes := s.bytes + (writeLoop writes n.toInt).1 },
        (writeLoop writes n.toInt).2) := by
  have hfd : s.pipeFd.1 ≠ -1 := by
    have := h.fd
    omega
  rw [releaseSemaphore, if_pos h.isHandled, if_pos hfd]

section Entries

variable {x : WinprSemaphore} {entries : List Entry} (n : Int32)

/-- An entry more, which is right or not. -/
theorem conserved_cons {e : Entry} :
    Conserved c ⟨x, e :: entries⟩ ↔
      (x.bytes : ℤ) = credit c (e :: entries) ∧ e.Right ∧ ∀ e' ∈ entries, e'.Right := by
  rw [Conserved, List.forall_mem_cons]

/-- A release of which the books know. -/
theorem conserved_released (before after : ℕ) :
    Conserved c ⟨{ x with bytes := x.bytes + n.toInt.toNat },
        .released n true before after :: entries⟩ ↔ Conserved c ⟨x, entries⟩ := by
  have hright : Entry.Right (.released n true before after) := trivial
  rw [conserved_cons, and_iff_right hright, Conserved, credit]
  refine and_congr_left fun _ => ?_
  dsimp only
  omega

/-- A release of which they do not. -/
theorem conserved_refused (k : ℕ) :
    Conserved c ⟨{ x with bytes := x.bytes + k },
        .released n false x.bytes (x.bytes + k) :: entries⟩ ↔ Conserved c ⟨x, entries⟩ ∧ k = 0 := by
  have hright : Entry.Right (.released n false x.bytes (x.bytes + k)) ↔ k = 0 := Nat.add_eq_left
  rw [conserved_cons, hright, Conserved, credit]
  constructor
  · rintro ⟨heq, rfl, hrest⟩
    exact ⟨⟨heq, hrest⟩, rfl⟩
  · rintro ⟨⟨heq, hrest⟩, rfl⟩
    exact ⟨heq, rfl, hrest⟩

/-- A wait that times out. -/
theorem conserved_timeout (hbytes : x.bytes = 0) :
    Conserved c ⟨x, .waited waitTimeout x.bytes x.bytes :: entries⟩ ↔ Conserved c ⟨x, entries⟩ := by
  have hright : Entry.Right (.waited waitTimeout x.bytes x.bytes) := iff_of_true rfl hbytes
  have hcredit : credit c (.waited waitTimeout x.bytes x.bytes :: entries) = credit c entries :=
    sub_zero _
  rw [conserved_cons, and_iff_right hright, hcredit, Conserved]

/-- A wait that takes a token. -/
theorem conserved_taken (hbytes : x.bytes ≠ 0) :
    Conserved c ⟨{ x with bytes := x.bytes - 1 },
        .waited waitObject0 x.bytes (x.bytes - 1) :: entries⟩ ↔ Conserved c ⟨x, entries⟩ := by
  have hright : Entry.Right (.waited waitObject0 x.bytes (x.bytes - 1)) :=
    iff_of_false (by decide) hbytes
  have hcredit : credit c (.waited waitObject0 x.bytes (x.bytes - 1) :: entries) =
      credit c entries - 1 := rfl
  rw [conserved_cons, and_iff_right hright, hcredit, Conserved]
  refine and_congr_left fun _ => ?_
  dsimp only
  omega

end Entries

/-- **One call** returns, and keeps the books exactly when it is not a release that fails
halfway. -/
theorem callStep_conserved (h : Ready s.semaphore) (call : Call) :
    ∃ s', callStep s call = some s' ∧ Ready s'.semaphore ∧
      (Conserved c s' ↔ Conserved c s ∧ NoneHalfway s call) := by
  obtain ⟨x, entries⟩ := s
  cases call with
  | release n writes =>
    rw [callStep, releaseSemaphore_eq h]
    refine ⟨_, rfl, ⟨h.type, h.mode, h.fd⟩, ?_⟩
    obtain ⟨hall, ⟨htrue, hcount⟩ | ⟨hfail, -⟩⟩ := writeLoop_spec writes n.toInt
    · -- every write has succeeded
      have hok : NoneHalfway ⟨x, entries⟩ (.release n writes) := by
        intro _ _ i hi
        exact hall i (by omega)
      rw [htrue, hcount, and_iff_left hok]
      exact conserved_released n _ _
    · have hok : NoneHalfway ⟨x, entries⟩ (.release n writes) ↔
          (writeLoop writes n.toInt).1 = 0 := (writeLoop_zero_iff hfail).symm
      rw [hfail, hok]
      exact conserved_refused n _
  | wait =>
    have hok : NoneHalfway ⟨x, entries⟩ .wait := trivial
    rw [callStep, waitForSingleObject_eq h, and_iff_left hok]
    by_cases hbytes : x.bytes = 0
    · rw [if_pos hbytes]
      exact ⟨_, rfl, h, conserved_timeout hbytes⟩
    · rw [if_neg hbytes]
      exact ⟨_, rfl, ⟨h.type, h.mode, h.fd⟩, conserved_taken hbytes⟩

/-- What `CreateSemaphoreW` makes. -/
theorem createSemaphoreW_spec {callocOk : Bool} {pipe : Option (ℕ × ℕ)} {writes : ℕ → Bool}
    {x : WinprSemaphore} (h : createSemaphoreW callocOk pipe writes c = some x) :
    Ready x ∧ (x.bytes : ℤ) = max c.toInt 0 := by
  unfold createSemaphoreW at h
  split at h
  · cases h
  · split at h
    · cases h
    · next fd₀ fd₁ =>
      dsimp only at h
      split at h
      · next htrue =>
        obtain rfl := Option.some.inj h
        obtain ⟨-, ⟨-, hcount⟩ | ⟨hfail, -⟩⟩ := writeLoop_spec writes c.toInt
        · refine ⟨⟨rfl, rfl, Int.natCast_nonneg fd₀⟩, ?_⟩
          dsimp only
          omega
        · exact absurd (hfail.symm.trans htrue) Bool.false_ne_true
      · cases h

/-- **Tokens are conserved if and only if no release fails halfway**: every run of releases and
waits on a new semaphore returns from all of its calls, whatever writes fail, and its books are
right exactly then. -/
theorem tokens_conserved_iff {callocOk : Bool} {pipe : Option (ℕ × ℕ)} {writes : ℕ → Bool}
    {x : WinprSemaphore} (hcreate : createSemaphoreW callocOk pipe writes c = some x)
    (calls : List Call) :
    ∃ s, run callStep ⟨x, []⟩ calls = some s ∧
      (Conserved c s ↔ AllMeet callStep NoneHalfway ⟨x, []⟩ calls) := by
  obtain ⟨hready, hbytes⟩ := createSemaphoreW_spec hcreate
  have hnew : Conserved c ⟨x, []⟩ := ⟨hbytes, fun e he => absurd he List.not_mem_nil⟩
  have hreturns : ∀ (t : Record) (call : Call), Ready t.semaphore →
      ∃ t', callStep t call = some t' ∧ Ready t'.semaphore := by
    intro t call ht
    obtain ⟨t', hstep, hready', -⟩ := callStep_conserved (c := c) ht call
    exact ⟨t', hstep, hready'⟩
  obtain ⟨s, hrun⟩ := exists_run (s := Record.mk x []) (I := fun s => Ready (Record.semaphore s))
    hready hreturns calls
  have hall := run_iff_allMeet (P := Conserved c) (I := fun s => Ready s.semaphore) hready
    (fun t t' call ht hstep => by
      obtain ⟨u, hu, hspec⟩ := callStep_conserved (c := c) ht call
      obtain rfl := Option.some.inj (hu.symm.trans hstep)
      exact hspec) hrun
  exact ⟨s, hrun, hall.trans (and_iff_right hnew)⟩

/-- A token that cannot be written, and three waits. -/
def refusedRelease : List Call := [.release 1 fun _ => false, .wait, .wait, .wait]

theorem tokens_conserved_refused :
    ∃ x s, createSemaphoreW true (some (3, 4)) (fun _ => true) 2 = some x ∧
      run callStep ⟨x, []⟩ refusedRelease = some s ∧ Conserved 2 s := by
  have hcreate : createSemaphoreW true (some (3, 4)) (fun _ => true) 2 =
      some { type := .semaphore, mode := fdRead, pipeFd := (3, 4), bytes := 2 } := by decide
  obtain ⟨s, hrun, hiff⟩ := tokens_conserved_iff hcreate refusedRelease
  refine ⟨_, s, hcreate, hrun, hiff.mpr (allMeet_of_forall fun e he t => ?_)⟩
  simp only [refusedRelease, List.mem_cons, List.not_mem_nil, or_false] at he
  obtain rfl | rfl | rfl | rfl := he
  · intro _ hfirst
    exact absurd hfirst Bool.false_ne_true
  all_goals trivial

/-- Three tokens to be released, of which only the first can be written: the call returns `FALSE`,
and a wait takes a token that is not in the books. -/
theorem tokens_halfway :
    ¬∀ (c : Int32) (x : WinprSemaphore) (calls : List Call) (s : Record),
      createSemaphoreW true (some (3, 4)) (fun _ => true) c = some x →
      run callStep ⟨x, []⟩ calls = some s → Conserved c s := by
  intro h
  have hconserved := h 0 _ [.release 3 fun i => decide (i = 0)] _ rfl rfl
  exact absurd hconserved.1 (by decide)

end Calls

end Semaphore

end Libuzi
