import Libuzi.Handle.ObjectMemory
import Mathlib.Order.Interval.Set.Basic

/-!
# Operations on handles of another type

What happens when an operation that is meant for one type of object is called with the handle
of another. `rejects_iff` says exactly when the object is turned away: always if the operation
looks at the `Type` word, and otherwise only when something that it does to the foreign words
happens to fail before it has changed any of them. `SetEventFileDescriptor` never does: given
a semaphore, it replaces the end of the pipe from which the semaphore is read
(`semaphore_takes_descriptor`).

Whatever is called, the `Type` word stays, so that an object is one of its type in every state
that calls can lead to (`call_type`).
-/

namespace Libuzi

open Handle

namespace Foreign

/-! ### When a foreign object is turned away -/

/-- The function that has been handed the `n` words of the object from `k` on leaves them as
they were, as far as they belong to the object. -/
def Answer.Keeps (a : Answer) (o : Object) (k n : ℕ) : Prop :=
  ∀ i < n, k + i < size o.type → a.contents i = o.memory (k + i)

/-- In this round, the wait for the object reports it, and has no thread to join. -/
def Round.Reported (r : Round) (o : Object) : Prop :=
  match o.type with
  | .mutex => r.timedlock.status ≠ etimedout
  | .event => 0 ≤ (o.memory 4).toInt ∧ r.poll = 1
  | .semaphore => 0 ≤ (o.memory 4).toInt ∧ r.poll = 1 ∧ r.length = 1
  | .timer => 0 ≤ (o.memory 4).toInt ∧ r.poll = 1 ∧ r.length = 8
  | .thread =>
    0 ≤ (o.memory 5).toInt ∧ r.poll = 1 ∧ o.memory 9 ≠ 0 ∧ r.lock.status = 0 ∧
      r.unlock.status = 0
  | .timerQueue | .timerQueueTimer => False

/-- After this round, the mutex that the wait for the object takes is what it was before the
call. -/
def Round.Restores (r : Round) (o : Object) : Prop :=
  match o.type with
  | .mutex => r.timedlock.Keeps o 4 10
  | .thread => r.unlock.Keeps o 18 10
  | .event | .semaphore | .timer | .timerQueue | .timerQueueTimer => True

/-- The loop of `ResetEvent` ends with a read that fails, on an object that is as it was. -/
def ReadFails (o : Object) (rounds : List Round) : Prop :=
  ∃ before r after, rounds = before ++ r :: after ∧
    (∀ q ∈ before, q.Reported o ∧ 0 ≤ q.eventfdRead) ∧
    r.Reported o ∧ r.eventfdRead < 0 ∧ r.Restores o

/-- **The condition** under which an operation does no harm to an object of another type. The
three operations that look at the `Type` word need none. Of the others, those that cannot
fail have none that would do, and the rest depend on a system function failing on the foreign
words that it is given, before the operation has changed any of them. -/
def Harmless (o : Object) : Call → Prop
  | .releaseSemaphore _ _ | .releaseMutex _ | .setWaitableTimer _ _ _ _ _ => True
  | .setEvent length => length ≠ 0
  | .resetEvent rounds => ReadFails o rounds
  | .getEventFileDescriptor => o.memory 4 = -1
  | .setEventFileDescriptor _ _ | .getExitCodeThread => False
  | .resumeThread a =>
    (a.lock.status ≠ 0 ∧ a.lock.Keeps o 18 10) ∨
      (a.lock.status = 0 ∧ o.memory 4 ≠ 0 ∧ a.unlock.status ≠ 0 ∧ a.unlock.Keeps o 18 10)
  | .terminateThread dwExitCode lock unlock =>
    (11 < size o.type → o.memory 10 = 1 ∧ o.memory 11 = dwExitCode) ∧
      ((lock.status ≠ 0 ∧ lock.Keeps o 18 10) ∨
        (lock.status = 0 ∧ unlock.status ≠ 0 ∧ unlock.Keeps o 18 10))

/-! ### The operations other than `ResetEvent` -/

/-- Replacing words by what they are, and only then, leaves the object as it was. -/
theorem same_overwrite_iff (o : Object) (k n : ℕ) (a : Answer) :
    Same o.type o.memory (overwrite o.memory k n a.contents) ↔ a.Keeps o k n := by
  constructor
  · intro h i hi hk
    rw [← h (k + i) hk, overwrite_add hi]
  · intro h j hj
    unfold overwrite
    split
    · next hkj =>
      rw [h (j - k) (by omega) (by omega), Nat.add_sub_cancel' hkj.1]
    · rfl

/-- A call whose result is known rejects the object when the result is the failure value and
the memory is the same. -/
theorem rejects_of_call {o : Object} {c : Call} {m' : Memory} {v : ℤ}
    (h : call o c = some (m', v)) :
    Rejects o c ↔ v = c.failure ∧ Same o.type o.memory m' := by
  unfold Rejects
  rw [h]
  constructor
  · rintro ⟨m'', hm, hsame⟩
    obtain ⟨rfl, rfl⟩ := Prod.mk.inj (Option.some.inj hm)
    exact ⟨rfl, hsame⟩
  · rintro ⟨rfl, hsame⟩
    exact ⟨m', rfl, hsame⟩

/-- An object whose type differs from `t` does not carry its code. -/
theorem type_word_ne {o : Object} {t : HandleType} (h : t ≠ o.type) : o.memory 0 ≠ code t := by
  rw [o.type_word]
  exact fun heq => h (code_injective heq).symm

theorem releaseSemaphore_foreign {o : Object} (h : HandleType.semaphore ≠ o.type)
    (lReleaseCount : ℤ) (write : ℕ → ℤ) :
    releaseSemaphore lReleaseCount write o.memory = (o.memory, 0) :=
  if_neg (type_word_ne h)

theorem releaseMutex_foreign {o : Object} (h : HandleType.mutex ≠ o.type) (unlock : Answer) :
    releaseMutex unlock o.memory = (o.memory, 0) :=
  if_neg (type_word_ne h)

theorem setWaitableTimer_foreign {o : Object} (h : HandleType.timer ≠ o.type)
    (lpDueTime : Option Int64) (lPeriod : Word)
    (pfnCompletionRoutine lpArgToCompletionRoutine : BitVec 64) (a : TimerAnswers) :
    setWaitableTimer lpDueTime lPeriod pfnCompletionRoutine lpArgToCompletionRoutine a o.memory =
      (o.memory, 0) :=
  if_pos (type_word_ne h)

/-- A thread that has been started says so, whatever else happened. -/
theorem winprStartThread_started (a : ResumeAnswers) (m : Memory) :
    (winprStartThread a m).1 4 = 1 := by
  unfold winprStartThread
  simp only
  split_ifs <;> simp [overwrite]

/-- `ResumeThread`, when the lock of what it takes for the mutex fails. -/
theorem resumeThread_of_lock_fails {a : ResumeAnswers} (h : a.lock.status ≠ 0) (m : Memory) :
    resumeThread a m = (overwrite m 18 10 a.lock.contents, dwordMinusOne) :=
  if_pos h

/-- `ResumeThread`, when the object seems to have been started. -/
theorem resumeThread_of_started {a : ResumeAnswers} {m : Memory} (h : a.lock.status = 0)
    (hstarted : m 4 ≠ 0) :
    resumeThread a m =
      (overwrite m 18 10 a.unlock.contents, if a.unlock.status ≠ 0 then dwordMinusOne else 0) := by
  have hword : overwrite m 18 10 a.lock.contents 4 ≠ 0 := by
    rwa [overwrite_of_lt (by decide)]
  unfold resumeThread
  simp only [h, ne_eq, not_true_eq_false, if_false, if_neg hword, overwrite_overwrite,
    Bool.true_eq_false]
  split_ifs <;> rfl

/-- `ResumeThread`, when the object seems not to have been started: afterwards it does. -/
theorem resumeThread_of_not_started {a : ResumeAnswers} {m : Memory} (h : a.lock.status = 0)
    (hstarted : m 4 = 0) : (resumeThread a m).1 4 = 1 := by
  have hword : overwrite m 18 10 a.lock.contents 4 = 0 := by
    rwa [overwrite_of_lt (by decide)]
  unfold resumeThread
  simp only [h, ne_eq, not_true_eq_false, if_false, if_pos hword]
  split_ifs
  all_goals
    dsimp only
    rw [overwrite_of_lt (by decide), winprStartThread_started]

/-- **`ResumeThread`** on an object that it takes for a thread. -/
theorem resumeThread_rejects_iff (o : Object) (a : ResumeAnswers) :
    Rejects o (.resumeThread a) ↔ Harmless o (.resumeThread a) := by
  have hcall : call o (.resumeThread a) =
      some ((resumeThread a o.memory).1, (resumeThread a o.memory).2) := rfl
  rw [rejects_of_call hcall]
  by_cases hlock : a.lock.status ≠ 0
  · rw [resumeThread_of_lock_fails hlock]
    simp [Harmless, Call.failure, hlock, same_overwrite_iff]
  · rw [not_not] at hlock
    by_cases hstarted : o.memory 4 = 0
    · -- the word that is taken for `started` was zero and is set
      have hchanged : ¬Same o.type o.memory (resumeThread a o.memory).1 := by
        intro hsame
        have h4 := hsame 4 (by have := eight_le_size o.type; omega)
        rw [resumeThread_of_not_started hlock hstarted, hstarted] at h4
        exact absurd h4 (by decide)
      have hharm : ¬Harmless o (.resumeThread a) := by
        rintro (⟨h, -⟩ | ⟨-, h, -⟩)
        · exact h hlock
        · exact h hstarted
      exact iff_of_false (fun h => hchanged h.2) hharm
    · rw [resumeThread_of_started hlock hstarted]
      by_cases hunlock : a.unlock.status = 0
      · simp [Harmless, Call.failure, hlock, hunlock, dwordMinusOne]
      · have hstarted' : o.memory 4 ≠ 0 := hstarted
        simp only [Harmless, Call.failure, hlock, hunlock, hstarted', same_overwrite_iff, ne_eq,
          not_true_eq_false, not_false_eq_true, if_true, true_and, false_and, false_or]

theorem eleven_lt_size {t : HandleType} (h : 10 < size t) : 11 < size t := by
  cases t <;> revert h <;> decide

/-- Storing an exit code and replacing what is taken for the mutex leaves the object as it was
if the words had these values before. -/
theorem same_terminated_iff (o : Object) (dwExitCode : Word) (a : Answer) :
    Same o.type o.memory
        (overwrite (store (store o.memory 10 1) 11 dwExitCode) 18 10 a.contents) ↔
      (11 < size o.type → o.memory 10 = 1 ∧ o.memory 11 = dwExitCode) ∧ a.Keeps o 18 10 := by
  constructor
  · intro h
    refine ⟨fun hsize => ⟨?_, ?_⟩, fun i hi hk => ?_⟩
    · rw [← h 10 (by omega), overwrite_of_lt (by decide), store_of_ne (by decide), store_self]
    · rw [← h 11 hsize, overwrite_of_lt (by decide), store_self]
    · rw [← h (18 + i) hk, overwrite_add hi]
  · rintro ⟨hwords, hkeeps⟩ j hj
    by_cases hregion : 18 ≤ j ∧ j < 18 + 10
    · obtain ⟨i, rfl⟩ := Nat.exists_eq_add_of_le hregion.1
      rw [overwrite_add (by omega), hkeeps i (by omega) hj]
    · rw [overwrite, if_neg hregion]
      by_cases h11 : j = 11
      · rw [h11, store_self, (hwords (h11 ▸ hj)).2]
      · rw [store_of_ne h11]
        by_cases h10 : j = 10
        · rw [h10, store_self, (hwords (eleven_lt_size (h10 ▸ hj))).1]
        · rw [store_of_ne h10]

/-- **`TerminateThread`** on an object that it takes for a thread. The words for `exited` and
`dwExitCode` are not part of an event or a semaphore, which end before them. -/
theorem terminateThread_rejects_iff (o : Object) (dwExitCode : Word) (lock unlock : Answer) :
    Rejects o (.terminateThread dwExitCode lock unlock) ↔
      Harmless o (.terminateThread dwExitCode lock unlock) := by
  have hcall : call o (.terminateThread dwExitCode lock unlock) =
      some ((terminateThread dwExitCode lock unlock o.memory).1,
        (terminateThread dwExitCode lock unlock o.memory).2) := rfl
  rw [rejects_of_call hcall]
  by_cases hlock : lock.status = 0
  · by_cases hunlock : unlock.status = 0
    · simp [terminateThread, Harmless, Call.failure, hlock, hunlock]
    · simpa [terminateThread, Harmless, Call.failure, hlock, hunlock] using
        same_terminated_iff o dwExitCode unlock
  · simpa [terminateThread, Harmless, Call.failure, hlock] using
      same_terminated_iff o dwExitCode lock

/-! ### `ResetEvent` -/

/-- The words of an object of type `t` that a wait may change when the thread has been joined:
those of the mutex that it takes. -/
def mutexWords : HandleType → Set ℕ
  | .mutex => Set.Ico 4 14
  | .thread => Set.Ico 18 28
  | .event | .semaphore | .timer | .timerQueue | .timerQueueTimer => ∅

/-- The memory during a call: it differs from that of the object in the words of the mutex
only. -/
def During (o : Object) (m : Memory) : Prop := ∀ k, k ∉ mutexWords o.type → m k = o.memory k

theorem During.refl (o : Object) : During o o.memory := fun _ _ => rfl

/-- The `Type` word is not part of a mutex. -/
theorem During.type_word {o : Object} {m : Memory} (h : During o m) : m 0 = code o.type := by
  have h0 : 0 ∉ mutexWords o.type := by
    cases o.type <;> simp [mutexWords]
  rw [h 0 h0, o.type_word]

/-- Only the mutex of an object of the type is replaced. -/
theorem During.overwrite {o : Object} {m : Memory} {k n : ℕ} (h : During o m)
    (hwords : mutexWords o.type = Set.Ico k (k + n)) (contents : ℕ → Word) :
    During o (overwrite m k n contents) := by
  intro j hj
  rw [hwords, Set.mem_Ico] at hj
  rw [Foreign.overwrite, if_neg hj, h j (by rwa [hwords, Set.mem_Ico])]

/-- Replacing the mutex restores the object exactly when its words are what they were. -/
theorem During.same_overwrite_iff {o : Object} {m : Memory} {k n : ℕ} (h : During o m)
    (hwords : mutexWords o.type = Set.Ico k (k + n)) (a : Answer) :
    Same o.type o.memory (Foreign.overwrite m k n a.contents) ↔ a.Keeps o k n := by
  have heq : Foreign.overwrite m k n a.contents = Foreign.overwrite o.memory k n a.contents := by
    funext j
    by_cases hj : k ≤ j ∧ j < k + n
    · rw [Foreign.overwrite, Foreign.overwrite, if_pos hj, if_pos hj]
    · rw [Foreign.overwrite, Foreign.overwrite, if_neg hj, if_neg hj]
      exact h j (by rwa [hwords, Set.mem_Ico])
  rw [heq, Foreign.same_overwrite_iff]

/-- Without a mutex, the memory during a call is that of the object. -/
theorem During.eq {o : Object} {m : Memory} (h : During o m) (hwords : mutexWords o.type = ∅) :
    m = o.memory := by
  funext k
  exact h k (by simp [hwords])

/-- When the wait for a mutex reports it. -/
theorem mutexWait_iff {r : Round} {m m' : Memory} (h0 : m 0 = code .mutex) :
    waitForSingleObject .mutex r m = some (m', waitObject0) ↔
      r.timedlock.status ≠ etimedout ∧ m' = overwrite m 4 10 r.timedlock.contents := by
  simp only [waitForSingleObject, h0, if_true]
  split_ifs with h
  · simp [h, waitObject0, waitTimeout]
  · simp [h, eq_comm]

/-- When the wait for anything else reports it: the descriptor is there, `poll` reports it, and
the cleanup function succeeds. -/
theorem fdWait_iff {t : HandleType} {r : Round} {m m' : Memory} (h0 : m 0 = code t)
    (hmutex : t ≠ .mutex) (htimer : t ≠ .timerQueueTimer) :
    waitForSingleObject t r m = some (m', waitObject0) ↔
      0 ≤ winprHandleGetFd (ops r t) m ∧ r.poll = 1 ∧
        winprHandleCleanup (ops r t) m = (m', waitObject0) := by
  have hne : m 0 ≠ code .mutex := by
    rw [h0]
    exact fun heq => hmutex (code_injective heq)
  simp only [waitForSingleObject, if_neg hne, htimer, false_and, if_false]
  split_ifs with hfd hneg hpoll
  · simp [waitObject0, waitFailed, hfd]
  · have hpoll : r.poll ≠ 1 := by omega
    simp [waitObject0, waitFailed, hpoll]
  · simp [waitObject0, waitTimeout, hpoll]
  · rw [not_not] at hpoll
    simp [hpoll, not_lt.1 hfd]

/-- When the wait for a semaphore reports it. -/
theorem semaphoreWait_iff {r : Round} {m m' : Memory} (h0 : m 0 = code .semaphore) :
    waitForSingleObject .semaphore r m = some (m', waitObject0) ↔
      (0 ≤ (m 4).toInt ∧ r.poll = 1 ∧ r.length = 1) ∧ m' = m := by
  rw [fdWait_iff h0 (by decide) (by decide)]
  by_cases hlength : r.length = 1
  · simp [ops, winprHandleGetFd, winprHandleCleanup, semaphoreGetFd, getFd,
      semaphoreCleanupHandle, h0, hlength, and_assoc, eq_comm]
  · simp [ops, winprHandleCleanup, semaphoreCleanupHandle, h0, hlength, waitFailed, waitObject0]

/-- When the wait for a timer reports it. -/
theorem timerWait_iff {r : Round} {m m' : Memory} (h0 : m 0 = code .timer) :
    waitForSingleObject .timer r m = some (m', waitObject0) ↔
      (0 ≤ (m 4).toInt ∧ r.poll = 1 ∧ r.length = 8) ∧ m' = m := by
  rw [fdWait_iff h0 (by decide) (by decide)]
  by_cases hlength : r.length = 8
  · simp [ops, winprHandleGetFd, winprHandleCleanup, timerGetFd, getFd,
      timerCleanupHandle, h0, hlength, and_assoc, eq_comm]
  · have hcleanup : (timerCleanupHandle r m).2 ≠ waitObject0 := by
      simp only [timerCleanupHandle, h0, hlength, ne_eq, not_true_eq_false, not_false_eq_true,
        if_false, if_true]
      split_ifs <;> simp [waitTimeout, waitFailed, waitObject0]
    constructor
    · rintro ⟨-, -, h⟩
      exact absurd (congrArg Prod.snd h) hcleanup
    · rintro ⟨⟨-, -, h⟩, -⟩
      exact absurd h hlength

/-- The cleanup function of a thread, when it succeeds. -/
theorem threadCleanupHandle_iff {r : Round} {m m' : Memory} (h0 : m 0 = code .thread) :
    threadCleanupHandle r m = (m', waitObject0) ↔
      (r.lock.status = 0 ∧ (m 9 = 0 → r.join = 0) ∧ r.unlock.status = 0) ∧
        m' = overwrite (if m 9 = 0 then store m 9 1 else m) 18 10 r.unlock.contents := by
  have hjoined : overwrite m 18 10 r.lock.contents 9 = m 9 := overwrite_of_lt (by decide)
  have hmemory : overwrite (if m 9 = 0 then store (overwrite m 18 10 r.lock.contents) 9 1
      else overwrite m 18 10 r.lock.contents) 18 10 r.unlock.contents =
      overwrite (if m 9 = 0 then store m 9 1 else m) 18 10 r.unlock.contents := by
    split_ifs
    · funext j
      unfold overwrite store
      by_cases hj : j = 9
      · simp [hj]
      · simp only [Function.update_of_ne hj]
        split <;> rfl
    · rw [overwrite_overwrite]
  simp only [threadCleanupHandle, h0, ne_eq, not_true_eq_false, if_false, hjoined, hmemory]
  generalize overwrite (if m 9 = 0 then store m 9 1 else m) 18 10 r.unlock.contents = after
  have hfailed : ∀ x : Memory, (x, waitFailed) ≠ (m', waitObject0) := by
    simp [waitFailed, waitObject0]
  split_ifs with hlock hjoin hunlock
  · exact iff_of_false (hfailed _) fun h => hjoin.2 (h.1.2.1 hjoin.1)
  · have hjoin' : m 9 = 0 → r.join = 0 := by
      intro h
      by_contra hne
      exact hjoin ⟨h, hne⟩
    constructor
    · intro h
      exact ⟨⟨hlock, hjoin', hunlock⟩, (congrArg Prod.fst h).symm⟩
    · rintro ⟨-, rfl⟩
      rfl
  · exact iff_of_false (hfailed _) fun h => hunlock h.1.2.2
  · exact iff_of_false (hfailed _) fun h => hlock h.1.1

/-- When the wait for a thread reports it. -/
theorem threadWait_iff {r : Round} {m m' : Memory} (h0 : m 0 = code .thread) :
    waitForSingleObject .thread r m = some (m', waitObject0) ↔
      (0 ≤ (m 5).toInt ∧ r.poll = 1 ∧ r.lock.status = 0 ∧ (m 9 = 0 → r.join = 0) ∧
        r.unlock.status = 0) ∧
        m' = overwrite (if m 9 = 0 then store m 9 1 else m) 18 10 r.unlock.contents := by
  rw [fdWait_iff h0 (by decide) (by decide)]
  have hfd : winprHandleGetFd (ops r .thread) m = (m 5).toInt := by
    simp [ops, winprHandleGetFd, threadGetFd, getFd, h0]
  have hcleanup : winprHandleCleanup (ops r .thread) m = threadCleanupHandle r m := rfl
  rw [hfd, hcleanup, threadCleanupHandle_iff h0]
  simp only [and_assoc]

/-- The wait for a timer queue, or for a timer in one, never reports it. -/
theorem timerQueueWait_ne {t : HandleType} (ht : t = .timerQueue ∨ t = .timerQueueTimer)
    {r : Round} {m m' : Memory} (h0 : m 0 = code t) :
    waitForSingleObject t r m ≠ some (m', waitObject0) := by
  have hne : m 0 ≠ code .mutex := by
    rcases ht with rfl | rfl <;> rw [h0] <;> decide
  have hfd : winprHandleGetFd (ops r t) m < 0 := by
    rcases ht with rfl | rfl <;> simp [ops, winprHandleGetFd]
  simp only [waitForSingleObject, if_neg hne, if_pos hfd]
  split_ifs <;> simp [waitFailed, waitObject0]

/-- A round whose wait reports the object, during a call: only the mutex has changed, and the
object is as it was if the mutex is. -/
theorem wait_of_reported {o : Object} {r : Round} {m : Memory} (hforeign : o.type ≠ .event)
    (hm : During o m) (h : r.Reported o) :
    ∃ m', waitForSingleObject o.type r m = some (m', waitObject0) ∧ During o m' ∧
      (Same o.type o.memory m' ↔ r.Restores o) := by
  have h0 : m 0 = code o.type := hm.type_word
  obtain ⟨t, memory, hw⟩ := o
  cases t with
  | event => exact absurd rfl hforeign
  | mutex =>
    refine ⟨_, (mutexWait_iff h0).2 ⟨h, rfl⟩, hm.overwrite rfl _, hm.same_overwrite_iff rfl _⟩
  | semaphore =>
    obtain rfl := hm.eq rfl
    exact ⟨_, (semaphoreWait_iff h0).2 ⟨h, rfl⟩, hm, iff_of_true (Same.refl _ _) trivial⟩
  | timer =>
    obtain rfl := hm.eq rfl
    exact ⟨_, (timerWait_iff h0).2 ⟨h, rfl⟩, hm, iff_of_true (Same.refl _ _) trivial⟩
  | thread =>
    obtain ⟨hfd, hpoll, hjoined, hlock, hunlock⟩ := h
    have h5 : m 5 = memory 5 := hm 5 (by simp [mutexWords])
    have h9 : m 9 ≠ 0 := by
      rw [hm 9 (by simp [mutexWords])]
      exact hjoined
    refine ⟨_, (threadWait_iff h0).2 ⟨⟨by rw [h5]; exact hfd, hpoll, hlock, fun h => absurd h h9,
      hunlock⟩, rfl⟩, ?_⟩
    rw [if_neg h9]
    exact ⟨hm.overwrite rfl _, hm.same_overwrite_iff rfl _⟩
  | timerQueue => exact h.elim
  | timerQueueTimer => exact h.elim

/-- Any other round whose wait reports the object has joined a thread. -/
theorem joined_of_wait {o : Object} {r : Round} {m m' : Memory} (hforeign : o.type ≠ .event)
    (hm : During o m) (h : ¬r.Reported o)
    (hwait : waitForSingleObject o.type r m = some (m', waitObject0)) :
    o.type = .thread ∧ o.memory 9 = 0 ∧ m' 9 ≠ 0 ∧ m' 0 = code .thread := by
  have h0 : m 0 = code o.type := hm.type_word
  obtain ⟨t, memory, hw⟩ := o
  cases t with
  | event => exact absurd rfl hforeign
  | mutex => exact absurd ((mutexWait_iff h0).1 hwait).1 h
  | semaphore =>
    obtain rfl := hm.eq rfl
    exact absurd ((semaphoreWait_iff h0).1 hwait).1 h
  | timer =>
    obtain rfl := hm.eq rfl
    exact absurd ((timerWait_iff h0).1 hwait).1 h
  | thread =>
    obtain ⟨⟨hfd, hpoll, hlock, -, hunlock⟩, rfl⟩ := (threadWait_iff h0).1 hwait
    have h5 : m 5 = memory 5 := hm 5 (by simp [mutexWords])
    have h9 : m 9 = memory 9 := hm 9 (by simp [mutexWords])
    rw [h5] at hfd
    have hjoined : memory 9 = 0 := by
      by_contra hne
      exact h ⟨hfd, hpoll, hne, hlock, hunlock⟩
    rw [if_pos (h9.trans hjoined), overwrite_of_lt (by decide), overwrite_of_lt (by decide),
      store_self, store_of_ne (by decide)]
    exact ⟨rfl, hjoined, by decide, h0⟩
  | timerQueue => exact absurd hwait (timerQueueWait_ne (.inl rfl) h0)
  | timerQueueTimer => exact absurd hwait (timerQueueWait_ne (.inr rfl) h0)

/-- The first eighteen words after the cleanup function of a thread: only `joined` may have
been set. -/
theorem threadCleanupHandle_word {r : Round} {m : Memory} {k : ℕ} (hk : k < 18)
    (hjoined : k ≠ 9 ∨ m 9 ≠ 0) : (threadCleanupHandle r m).1 k = m k := by
  have h9 : overwrite m 18 10 r.lock.contents 9 = m 9 := overwrite_of_lt (by decide)
  have hword : ∀ c, overwrite m 18 10 c k = m k := fun c => overwrite_of_lt hk
  have hword' : ∀ c c', overwrite (if m 9 = 0 then store (overwrite m 18 10 c) 9 1
      else overwrite m 18 10 c) 18 10 c' k = m k := by
    intro c c'
    rw [overwrite_of_lt hk]
    split
    · next h => rw [store_of_ne (hjoined.resolve_right (not_not.2 h)), hword]
    · exact hword c
  simp only [threadCleanupHandle, h9, overwrite_overwrite]
  split
  · rfl
  split
  · exact hword _
  split
  · exact hword _
  split <;> exact hword' _ _

/-- What the cleanup functions do not write: of the first eighteen words, all but the `joined` of
a thread that had not been joined. -/
theorem cleanup_word {t : HandleType} {r : Round} {m : Memory} {k : ℕ} (hk : k < 18)
    (hjoined : k ≠ 9 ∨ m 9 ≠ 0) : (winprHandleCleanup (ops r t) m).1 k = m k := by
  cases t with
  | thread => exact threadCleanupHandle_word hk hjoined
  | semaphore =>
    simp only [ops, winprHandleCleanup, semaphoreCleanupHandle]
    split_ifs <;> rfl
  | timer =>
    simp only [ops, winprHandleCleanup, timerCleanupHandle]
    split_ifs <;> rfl
  | event | mutex | timerQueue | timerQueueTimer => rfl

/-- What a wait does not write, whatever the answers: the words before the mutex of a mutex,
and, of anything else, what the cleanup functions do not. -/
theorem wait_word {t : HandleType} {r : Round} {m m' : Memory} {w k : ℕ} (hk : k < 18)
    (hmutex : k < 4 ∨ m 0 ≠ code .mutex) (hjoined : k ≠ 9 ∨ m 9 ≠ 0)
    (h : waitForSingleObject t r m = some (m', w)) : m' k = m k := by
  have hcleanup := cleanup_word (t := t) (r := r) hk hjoined
  unfold waitForSingleObject at h
  by_cases h0 : m 0 = code .mutex
  · have hk4 : k < 4 := hmutex.resolve_right (not_not.2 h0)
    simp only [h0, if_true] at h
    split_ifs at h <;> (cases h; exact overwrite_of_lt hk4)
  · simp only [h0, if_false] at h
    split_ifs at h
    · cases h; rfl
    · cases h; rfl
    · cases h; rfl
    · have heq : winprHandleCleanup (ops r t) m = (m', w) := Option.some.inj h
      rwa [heq] at hcleanup

/-- The same over the whole loop of `ResetEvent`. -/
theorem resetEvent_word {t : HandleType} {k : ℕ} (hk : k < 18) (rounds : List Round) :
    ∀ {m m' : Memory} {v : ℤ}, (k < 4 ∨ m 0 ≠ code .mutex) → (k ≠ 9 ∨ m 9 ≠ 0) →
      resetEvent t rounds m = some (m', v) → m' k = m k := by
  induction rounds with
  | nil =>
    intro m m' v _ _ h
    cases h
  | cons r rs ih =>
    intro m m' v hmutex hjoined h
    rw [resetEvent] at h
    cases hwait : waitForSingleObject t r m with
    | none =>
      rw [hwait] at h
      cases h
    | some result =>
      obtain ⟨m₁, w⟩ := result
      rw [hwait] at h
      have hword : m₁ k = m k := wait_word hk hmutex hjoined hwait
      have htype : m₁ 0 = m 0 := wait_word (by decide) (.inl (by decide)) (.inl (by decide)) hwait
      have hjoined₁ : k ≠ 9 ∨ m₁ 9 ≠ 0 := by
        rcases hjoined with hne | hne
        · exact .inl hne
        · by_cases h9 : k = 9
          · subst h9
            exact .inr (hword ▸ hne)
          · exact .inl h9
      dsimp only at h
      split_ifs at h
      · cases h
        exact hword
      · rw [ih (htype ▸ hmutex) hjoined₁ h, hword]
      · cases h
        exact hword

/-- The condition, round by round. -/
theorem readFails_cons_iff {o : Object} {r : Round} {rs : List Round} :
    ReadFails o (r :: rs) ↔ r.Reported o ∧
      ((r.eventfdRead < 0 ∧ r.Restores o) ∨ (0 ≤ r.eventfdRead ∧ ReadFails o rs)) := by
  constructor
  · rintro ⟨before, q, after, heq, hbefore, hq, hread, hrestores⟩
    cases before with
    | nil =>
      obtain ⟨rfl, rfl⟩ := List.cons.inj heq
      exact ⟨hq, .inl ⟨hread, hrestores⟩⟩
    | cons p before =>
      obtain ⟨rfl, rfl⟩ := List.cons.inj heq
      have hr := hbefore r (by simp)
      exact ⟨hr.1, .inr ⟨hr.2, before, q, after, rfl,
        fun p hp => hbefore p (List.mem_cons_of_mem _ hp), hq, hread, hrestores⟩⟩
  · rintro ⟨hr, ⟨hread, hrestores⟩ | ⟨hread, before, q, after, rfl, hbefore, hq⟩⟩
    · exact ⟨[], r, rs, rfl, by simp, hr, hread, hrestores⟩
    · refine ⟨r :: before, q, after, rfl, ?_, hq⟩
      intro p hp
      rcases List.mem_cons.1 hp with rfl | hp
      · exact ⟨hr, hread⟩
      · exact hbefore p hp

/-- **The loop of `ResetEvent`** on an object of another type, from any state that it can be in
during the call. -/
theorem resetEvent_fails_iff {o : Object} (hforeign : o.type ≠ .event) (rounds : List Round) :
    ∀ {m : Memory}, During o m →
      ((∃ m', resetEvent o.type rounds m = some (m', 0) ∧ Same o.type o.memory m') ↔
        ReadFails o rounds) := by
  induction rounds with
  | nil =>
    intro m _
    refine iff_of_false ?_ ?_
    · rintro ⟨m', h, -⟩
      cases h
    · rintro ⟨before, r, after, h, -⟩
      simp at h
  | cons r rs ih =>
    intro m hm
    rw [readFails_cons_iff]
    by_cases hr : r.Reported o
    · obtain ⟨m₁, hwait, hm₁, hsame⟩ := wait_of_reported hforeign hm hr
      by_cases hread : r.eventfdRead < 0
      · have hreset : resetEvent o.type (r :: rs) m = some (m₁, 0) := by
          simp [resetEvent, hwait, hread]
        simp only [hreset, hr, hread, not_le.2 hread, true_and, false_and, or_false, ← hsame]
        constructor
        · rintro ⟨m', h, hm'⟩
          cases h
          exact hm'
        · exact fun h => ⟨m₁, rfl, h⟩
      · have hreset : resetEvent o.type (r :: rs) m = resetEvent o.type rs m₁ := by
          simp [resetEvent, hwait, hread]
        simp only [hreset, hr, hread, not_lt.1 hread, true_and, false_and, false_or, ih hm₁]
    · -- otherwise a thread has been joined, which stays, or the loop ends without a failure
      refine iff_of_false ?_ fun h => hr h.1
      rintro ⟨m', hreset, hsame⟩
      rw [resetEvent] at hreset
      cases hwait : waitForSingleObject o.type r m with
      | none =>
        rw [hwait] at hreset
        cases hreset
      | some result =>
        obtain ⟨m₁, w⟩ := result
        rw [hwait] at hreset
        dsimp only at hreset
        split_ifs at hreset with hw hread
        · subst hw
          obtain ⟨ht, hjoined, h9, -⟩ := joined_of_wait hforeign hm hr hwait
          cases hreset
          exact h9 ((hsame 9 (by rw [ht]; decide)).trans hjoined)
        · subst hw
          obtain ⟨ht, hjoined, h9, h0⟩ := joined_of_wait hforeign hm hr hwait
          have hne : m₁ 0 ≠ code .mutex := by
            rw [h0]
            decide
          have h9' := resetEvent_word (k := 9) (by decide) rs (.inr hne) (.inr h9) hreset
          exact h9 (h9'.symm.trans ((hsame 9 (by rw [ht]; decide)).trans hjoined))
        · cases hreset

/-! ### The type of an object -/

theorem initializeWaitableTimer_word (a : TimerAnswers) (m : Memory) {k : ℕ} (hk : k < 4) :
    (initializeWaitableTimer a m).1 k = m k := by
  unfold initializeWaitableTimer
  simp only
  split_ifs <;>
    simp only [overwrite_of_lt (show k < 12 by omega), store_of_ne (show k ≠ 4 by omega),
      store_of_ne (show k ≠ 5 by omega)]

theorem setTimeout_word (due : Int64) (lPeriod : Word) (m : Memory) {k : ℕ} (hk : k < 14) :
    setTimeout due lPeriod m k = m k := by
  unfold setTimeout
  split_ifs <;>
    simp only [store64_of_lt (show k < 20 by omega), store64_of_lt (show k < 18 by omega),
      store64_of_lt (show k < 16 by omega), store64_of_lt hk, overwrite_of_lt hk]

theorem setWaitableTimer_word (lpDueTime : Option Int64) (lPeriod : Word)
    (pfnCompletionRoutine lpArgToCompletionRoutine : BitVec 64) (a : TimerAnswers) (m : Memory)
    {k : ℕ} (hk : k < 4) :
    (setWaitableTimer lpDueTime lPeriod pfnCompletionRoutine lpArgToCompletionRoutine a m).1 k =
      m k := by
  have harguments : store64 (store64 (store m 6 lPeriod) 8 pfnCompletionRoutine) 10
      lpArgToCompletionRoutine k = m k := by
    rw [store64_of_lt (by omega), store64_of_lt (by omega), store_of_ne (by omega)]
  unfold setWaitableTimer
  cases lpDueTime with
  | none => split <;> rfl
  | some due =>
    simp only
    split_ifs <;>
      simp only [setTimeout_word due lPeriod _ (show k < 14 by omega),
        overwrite_of_lt (show k < 14 by omega), initializeWaitableTimer_word a _ hk, harguments]

theorem winprStartThread_word (a : ResumeAnswers) (m : Memory) {k : ℕ} (hk : k < 4) :
    (winprStartThread a m).1 k = m k := by
  unfold winprStartThread
  simp only
  split_ifs <;>
    simp only [overwrite_of_lt (show k < 12 by omega), overwrite_of_lt (show k < 28 by omega),
      overwrite_of_lt (show k < 38 by omega), store_of_ne (show k ≠ 4 by omega)]

theorem resumeThread_word (a : ResumeAnswers) (m : Memory) {k : ℕ} (hk : k < 4) :
    (resumeThread a m).1 k = m k := by
  unfold resumeThread
  simp only
  split_ifs <;>
    simp only [overwrite_of_lt (show k < 18 by omega), winprStartThread_word a _ hk]

/-- **No call changes the words of `Type` and `ops`**, whether it is meant for the object or
not. -/
theorem call_word {o : Object} {c : Call} {m' : Memory} {v : ℤ} {k : ℕ} (hk : k < 4)
    (hmode : k ≠ 1) (h : call o c = some (m', v)) : m' k = o.memory k := by
  have hfst : ∀ {x : Memory × ℤ}, some x = some (m', v) → x.1 = m' :=
    fun h => congrArg Prod.fst (Option.some.inj h)
  cases c with
  | setEvent length => rw [← hfst h, setEvent]
  | resetEvent rounds =>
    exact resetEvent_word (by omega) rounds (.inl hk) (.inl (by omega)) h
  | setEventFileDescriptor fileDescriptor mode =>
    rw [← hfst h]
    simp only [setEventFileDescriptor, store_of_ne (show k ≠ 4 by omega), store_of_ne hmode,
      store_of_ne (show k ≠ 6 by omega)]
  | getEventFileDescriptor => rw [← hfst h, getEventFileDescriptor]
  | releaseSemaphore lReleaseCount write =>
    rw [← hfst h, releaseSemaphore]
    split_ifs <;> rfl
  | releaseMutex unlock =>
    rw [← hfst h, releaseMutex]
    split_ifs <;> first | rfl | exact overwrite_of_lt hk
  | setWaitableTimer lpDueTime lPeriod pfnCompletionRoutine lpArgToCompletionRoutine a =>
    rw [← hfst h, setWaitableTimer_word _ _ _ _ _ _ hk]
  | resumeThread a => rw [← hfst h, resumeThread_word _ _ hk]
  | terminateThread dwExitCode lock unlock =>
    rw [← hfst h, terminateThread]
    simp only
    split_ifs <;>
      simp only [overwrite_of_lt (show k < 18 by omega), store_of_ne (show k ≠ 11 by omega),
        store_of_ne (show k ≠ 10 by omega)]
  | getExitCodeThread => rw [← hfst h]

/-- **No call changes the type of an object**: the object stays one of its type over any number
of calls. -/
theorem call_type {o : Object} {c : Call} {m' : Memory} {v : ℤ} (h : call o c = some (m', v)) :
    m' 0 = code o.type :=
  (call_word (by decide) (by decide) h).trans o.type_word

/-! ### All operations -/

/-- **An operation turns an object of another type away exactly under the condition**: for
every object, in every state, and every call of an operation that is meant for another type,
the call returns its failure value and leaves every word of the object as it was if and only
if it is harmless. -/
theorem rejects_iff (o : Object) (c : Call) (hforeign : c.objectType ≠ o.type) :
    Rejects o c ↔ Harmless o c := by
  cases c with
  | setEvent length =>
    have hcall : call o (.setEvent length) = some (o.memory, if length = 0 then 1 else 0) := rfl
    rw [rejects_of_call hcall]
    by_cases h : length = 0 <;> simp [h, Harmless, Call.failure, Same.refl]
  | resetEvent rounds => exact resetEvent_fails_iff (Ne.symm hforeign) rounds (During.refl o)
  | setEventFileDescriptor fileDescriptor mode =>
    refine iff_of_false ?_ id
    rintro ⟨m', h, -⟩
    have hvalue : (0 : ℤ) = -1 := congrArg Prod.snd (Option.some.inj h)
    omega
  | getEventFileDescriptor =>
    have hcall : call o .getEventFileDescriptor = some (o.memory, (o.memory 4).toInt) := rfl
    have hword : (o.memory 4).toInt = -1 ↔ o.memory 4 = -1 :=
      BitVec.toInt_inj (y := (-1 : Word))
    rw [rejects_of_call hcall, Call.failure, hword]
    exact and_iff_left (Same.refl _ _)
  | releaseSemaphore lReleaseCount write =>
    exact iff_of_true ⟨o.memory, congrArg some (releaseSemaphore_foreign hforeign _ _),
      Same.refl _ _⟩ trivial
  | releaseMutex unlock =>
    exact iff_of_true ⟨o.memory, congrArg some (releaseMutex_foreign hforeign _),
      Same.refl _ _⟩ trivial
  | setWaitableTimer lpDueTime lPeriod pfnCompletionRoutine lpArgToCompletionRoutine a =>
    exact iff_of_true ⟨o.memory, congrArg some (setWaitableTimer_foreign hforeign _ _ _ _ _),
      Same.refl _ _⟩ trivial
  | resumeThread a => exact resumeThread_rejects_iff o a
  | terminateThread dwExitCode lock unlock => exact terminateThread_rejects_iff o _ _ _
  | getExitCodeThread =>
    refine iff_of_false ?_ id
    rintro ⟨m', h, -⟩
    have hvalue : (1 : ℤ) = 0 := congrArg Prod.snd (Option.some.inj h)
    omega

/-- A mutex is not what a waitable timer is, and `ReleaseMutex` says so. -/
theorem rejects_iff_createWaitableTimer :
    (Call.releaseMutex ⟨0, fun _ => 0⟩).objectType ≠
        (createWaitableTimer (fun _ => 0) 1 0x5000).type ∧
      Rejects (createWaitableTimer (fun _ => 0) 1 0x5000) (.releaseMutex ⟨0, fun _ => 0⟩) :=
  ⟨by decide, (rejects_iff _ _ (by decide)).2 trivial⟩

/-- **A descriptor for an event, given to a semaphore**: `SetEventFileDescriptor` reports
success and replaces the end of the pipe from which the semaphore is read. -/
theorem semaphore_takes_descriptor :
    ¬∀ (o : Object) (c : Call), c.objectType ≠ o.type → Rejects o c := by
  intro h
  obtain ⟨m', hcall, -⟩ := h (createSemaphore (fun _ => 0) (3, 4) 0x5000)
    (.setEventFileDescriptor 7 1) (by decide)
  have hvalue : (0 : ℤ) = -1 := congrArg Prod.snd (Option.some.inj hcall)
  omega

end Foreign

end Libuzi
