import Libuzi.Handle.Heading
import Libuzi.Handle.WaitMultiple
import Libuzi.Runs

/-!
# Generic operations on handles

`CloseHandle`, `winpr_Handle_getFd` and `winpr_Handle_cleanup` follow the `ops` of the object
that they are given. This goes well when `ops` is null or the table of the type of the object:
then the functions of that type are called, or the operation fails (`Dispatch.Founded.dispatches`).
It is so for every object in every state that the library can bring it to, as long as its
memory is not released, with one exception: `CreateTimerQueueTimer` takes its memory from
`malloc` and does not set `ops`, which is then whatever the memory held before
(`Dispatch.dispatch_iff`). Memory is released under an open handle when a waitable timer gets
no descriptor (`Dispatch.setWaitableTimer_released`), or when a thread ends whose object says
that it is detached or not started.

A pointer that is neither null nor the address of a table is not followed: there is no result.
-/

namespace Libuzi

open Handle Foreign Runs

namespace Dispatch

/-! ### Following `ops` -/

/-- The functions that a wait calls through `ops`. -/
structure Dispatcher where
  /-- `winpr_Handle_getFd`, which looks at nothing of the round. -/
  getFd : Round → Memory → Option ℤ
  /-- `winpr_Handle_cleanup`. -/
  cleanup : Round → Memory → Option (Memory × ℕ)

/-- The type whose table is at `p`. -/
def Tables.find (T : Tables) (p : BitVec 64) : Option HandleType :=
  tabled.find? fun t => T.address t = p

/-- **`ops` of an object**: null, the table of a type, or neither. -/
def Tables.follow (T : Tables) (m : Memory) : Option (Option HandleType) :=
  if load64 m 2 = 0 then some none else (T.find (load64 m 2)).map some

/-- The functions that are called through `ops`. -/
def Tables.dispatcher (T : Tables) : Dispatcher where
  getFd r m := (T.follow m).map fun t => winprHandleGetFd (t.bind (ops r)) m
  cleanup r m := (T.follow m).map fun t => winprHandleCleanup (t.bind (ops r)) m

/-- **The functions of type `t`**, which fail if it has none. -/
def typed (t : HandleType) : Dispatcher where
  getFd r m := some (winprHandleGetFd (ops r t) m)
  cleanup r m := some (winprHandleCleanup (ops r t) m)

/-! ### Waiting -/

/-- **`WaitForSingleObject`**, the timeout being `INFINITE` or not. -/
def waitForSingleObject (D : Dispatcher) (infinite : Bool) (r : Round) (m : Memory) :
    Option (Memory × ℕ) :=
  if m 0 = code .mutex then
    let m := overwrite m 4 10 r.timedlock.contents
    if infinite = false ∧ r.timedlock.status = etimedout then some (m, waitTimeout)
    else some (m, waitObject0)
  else
    match D.getFd r m with
    | none => none
    | some fd =>
      if fd < 0 then some (m, waitFailed)
      else if r.poll < 0 then some (m, waitFailed)
      else if r.poll ≠ 1 then some (m, waitTimeout)
      else D.cleanup r m

section Many

variable (D : ℕ → Dispatcher) (objects : List Memory) (rs : ℕ → Round)

/-- `winpr_Handle_getFd` for the handle at `idx` of the array. -/
def getFdAt (idx : ℕ) : Option ℤ := objects[idx]?.bind ((D idx).getFd (rs idx))

/-- The loop of `WaitForMultipleObjects` before the poll, over the handles at the given positions:
it ends at the first one without a descriptor. -/
def descriptors : List ℕ → Option Unit
  | [] => some ()
  | idx :: rest =>
    match getFdAt D objects rs idx with
    | none => none
    | some fd => if fd = -1 then some () else descriptors rest

/-- The array, as the rest of the call sees it. -/
def waitables : List (Option Wait.Waitable) :=
  objects.mapIdx fun idx m =>
    some { fd := (getFdAt D objects rs idx).getD (-1), mode := (m 1).toNat }

/-- What `winpr_Handle_cleanup` returns for the handle at `idx`. -/
def cleanupAt (idx : ℕ) : ℕ :=
  ((objects[idx]?.bind ((D idx).cleanup (rs idx))).map Prod.snd).getD waitFailed

/-- **A round of `WaitForMultipleObjects`**. Where the descriptors of all handles that are polled
have been got, the `ops` of each has been followed, and it is the same for the cleanup. -/
def waitRound (bWaitAll : Bool) (w : Wait.Waiting) (r : Wait.Round) : Option Wait.Status :=
  (descriptors D objects rs (w.polled (waitables D objects rs) bWaitAll)).map fun _ =>
    Wait.round (waitables D objects rs) bWaitAll w { r with cleanup := cleanupAt D objects rs }

end Many

/-! ### Closing -/

/-- What `CloseHandle` does. -/
structure Closing where
  /-- What becomes of the object. -/
  state : State
  /-- The descriptors that are closed. -/
  closed : List ℤ
  /-- What is returned. -/
  value : Bool

/-- The answers during `ThreadCloseHandle`. -/
structure CloseAnswers where
  /-- There is a `thread_list`, and the thread is on it. -/
  contains : Bool
  /-- The answers during the wait for the thread. -/
  wait : Round

/-- `EventCloseHandle`. -/
def eventCloseHandle (m : Memory) : Closing :=
  if m 0 ≠ code .event then ⟨.live m, [], false⟩
  else if m 6 = 0 then ⟨.released, [(m 4).toInt, (m 5).toInt].filter (· ≠ -1), true⟩
  else ⟨.released, [], true⟩

/-- `SemaphoreCloseHandle`. -/
def semaphoreCloseHandle (m : Memory) : Closing :=
  if m 0 ≠ code .semaphore then ⟨.live m, [], false⟩
  else if m 4 = -1 then ⟨.released, [], true⟩
  else ⟨.released, (m 4).toInt :: [(m 5).toInt].filter (· ≠ -1), true⟩

/-- `MutexCloseHandle`. -/
def mutexCloseHandle (m : Memory) : Closing :=
  if m 0 ≠ code .mutex then ⟨.live m, [], false⟩ else ⟨.released, [], true⟩

/-- `TimerCloseHandle`. -/
def timerCloseHandle (m : Memory) : Closing :=
  if m 0 ≠ code .timer then ⟨.live m, [], false⟩
  else ⟨.released, [(m 4).toInt].filter (· ≠ -1), true⟩

/-- `cleanup_handle`. -/
def cleanupHandle (m : Memory) : Closing :=
  ⟨.released, [(m 5).toInt, (m 6).toInt].filter (0 ≤ ·), true⟩

/-- `ThreadCloseHandle`, which does not look at `Type`. -/
def threadCloseHandle (D : Dispatcher) (a : CloseAnswers) (m : Memory) : Option Closing :=
  if !a.contains then some ⟨.live m, [], true⟩
  else if m 4 = 0 then some (cleanupHandle m)
  else
    (waitForSingleObject D false a.wait m).map fun w =>
      if w.2 ≠ waitObject0 then ⟨.live (store w.1 8 1), [], true⟩ else cleanupHandle w.1

/-- `CloseHandle` in the table of each type. -/
def closeFunction (D : Dispatcher) (a : CloseAnswers) :
    HandleType → Option (Memory → Option Closing)
  | .event => some fun m => some (eventCloseHandle m)
  | .semaphore => some fun m => some (semaphoreCloseHandle m)
  | .mutex => some fun m => some (mutexCloseHandle m)
  | .timer => some fun m => some (timerCloseHandle m)
  | .thread => some (threadCloseHandle D a)
  | .timerQueue | .timerQueueTimer => none

/-- `CloseHandle` with what it has found in `ops`: without a function, it fails. -/
def closeWith (f : Option (Memory → Option Closing)) (m : Memory) : Option Closing :=
  match f with
  | none => some ⟨.live m, [], false⟩
  | some f => f m

/-- **`CloseHandle`.** -/
def closeHandle (T : Tables) (a : CloseAnswers) (m : Memory) : Option Closing :=
  match T.follow m with
  | none => none
  | some t => closeWith (t.bind (closeFunction T.dispatcher a)) m

/-- **`CloseHandle` with the functions of type `t`**, which fails if it has none. -/
def closeTyped (t : HandleType) (a : CloseAnswers) (m : Memory) : Option Closing :=
  closeWith (closeFunction (typed t) a t) m

/-! ### Steps -/

/-- **What can happen to an object**: an operation of the library is called with its handle, it
is waited for, alone or with others, or the thread, the timer or the timer queue that it
belongs to does something to it. -/
inductive Action
  | call (c : Call)
  | wait (infinite : Bool) (r : Round)
  | cleanup (r : Round)
  | alarm
  | threadLauncher (lock wait unlock : Answer)
  | threadExit (rc : Word)
  | exitThread (dwExitCode : Word)
  | queueUnderLock (lock : Answer) (activeHead inactiveHead : BitVec 64) (cond unlock : Answer)
  | setNext (next : BitVec 64)
  | changeTimerQueueTimer (dueTime period : Word) (currentTime : Timer.Timespec)
      (next : BitVec 64)
  | fireTimer (expirationTime : Timer.Timespec) (next : BitVec 64)

/-- **The step releases the object**, which has not been closed. -/
def Releases (m : Memory) : Action → Prop
  | .call c => callReleases m c
  | .threadExit _ | .exitThread _ => endReleases m
  | _ => False

instance (m : Memory) : (e : Action) → Decidable (Releases m e)
  | .call c => inferInstanceAs (Decidable (callReleases m c))
  | .threadExit _ | .exitThread _ => inferInstanceAs (Decidable (endReleases m))
  | .wait _ _ | .cleanup _ | .alarm | .threadLauncher _ _ _ | .queueUnderLock _ _ _ _ _
  | .setNext _ | .changeTimerQueueTimer _ _ _ _ | .fireTimer _ _ => isFalse id

/-- What a step that does not release the object does to its memory. It has no result when a
pointer is followed that points nowhere, and when an operation does not return. -/
def act (T : Tables) (t : HandleType) (m : Memory) : Action → Option Memory
  | .call c => if h : m 0 = code t then (call ⟨t, m, h⟩ c).map Prod.fst else none
  | .wait infinite r => (waitForSingleObject T.dispatcher infinite r m).map Prod.fst
  | .cleanup r => (T.dispatcher.cleanup r m).map Prod.fst
  | .alarm => some (waitableTimerSignalHandler m)
  | .threadLauncher lock wait unlock => some (threadLauncher lock wait unlock m)
  | .threadExit rc => some (threadExit rc m)
  | .exitThread dwExitCode => some (exitThread dwExitCode m)
  | .queueUnderLock lock activeHead inactiveHead cond unlock =>
    some (queueUnderLock lock activeHead inactiveHead cond unlock m)
  | .setNext next => some (setNext next m)
  | .changeTimerQueueTimer dueTime period currentTime next =>
    some (changeTimerQueueTimer dueTime period currentTime next m)
  | .fireTimer expirationTime next => some (fireTimer expirationTime next m)

/-- **One step** of an object that has been created with type `t`. -/
def step (T : Tables) (t : HandleType) : State → Action → Option State
  | .live m, e => if Releases m e then some .released else (act T t m e).map .live
  | .released, _ => none

/-- The condition on a step: it does not release the object. -/
def Keeps : State → Action → Prop
  | .live m, e => ¬Releases m e
  | .released, _ => True

/-! ### What is asked of an object -/

section Law

/-- The functions of the type of the object at `idx`. -/
def typedAt (objects : List (HandleType × Memory)) (idx : ℕ) : Dispatcher :=
  match objects[idx]? with
  | some o => typed o.1
  | none => typed .event

variable (T : Tables) (t : HandleType) (m : Memory)

/-- **The heading is what the type asks for.** -/
def Founded : Prop := heading m = (code t, T.own t)

/-- **Generic operations are well founded** on an object of type `t`: its `ops` is null or the
table of `t`, and what is called through it are the functions of `t`, if there are any. -/
structure Dispatches : Prop where
  /-- `ops` is null or the table of the type. -/
  ops : load64 m 2 = 0 ∨ t ∈ tabled ∧ load64 m 2 = T.address t
  /-- `CloseHandle` calls the function of the type, or fails. -/
  closeHandle : ∀ a, closeHandle T a m = closeTyped t a m ∧ (closeTyped t a m).isSome
  /-- `WaitForSingleObject` calls the functions of the type, or fails. -/
  waitForSingleObject : ∀ infinite r,
    waitForSingleObject T.dispatcher infinite r m = waitForSingleObject (typed t) infinite r m ∧
      (waitForSingleObject (typed t) infinite r m).isSome
  /-- `WaitForMultipleObjects` calls, for each object of an array in which this one is, the
  functions of its type, or fails. -/
  waitForMultipleObjects : ∀ objects : List (HandleType × Memory), (t, m) ∈ objects →
    (∀ o ∈ objects, Founded T o.1 o.2) → ∀ rs bWaitAll w r,
      waitRound (fun _ => T.dispatcher) (objects.map Prod.snd) rs bWaitAll w r =
          waitRound (typedAt objects) (objects.map Prod.snd) rs bWaitAll w r ∧
        (waitRound (typedAt objects) (objects.map Prod.snd) rs bWaitAll w r).isSome

end Law

/-! ### The functions of the type -/

section Founded

variable {T : Tables} {t : HandleType} {m m' : Memory}

theorem Tables.find_address (ht : t ∈ tabled) : T.find (T.address t) = some t := by
  obtain ⟨u, hu⟩ : ∃ u, T.find (T.address t) = some u :=
    Option.isSome_iff_exists.mp (List.find?_isSome.mpr ⟨t, ht, decide_eq_true rfl⟩)
  have heq : T.address u = T.address t :=
    of_decide_eq_true (List.find?_some (p := fun u => T.address u = T.address t) hu)
  rw [hu, T.injective u (List.mem_of_find?_eq_some hu) t ht heq]

theorem Founded.type_word (h : Founded T t m) : m 0 = code t := congrArg Prod.fst h

theorem Founded.ops_eq (h : Founded T t m) : load64 m 2 = T.own t := congrArg Prod.snd h

theorem Founded.follow (h : Founded T t m) :
    T.follow m = some (if t ∈ tabled then some t else none) := by
  rw [Tables.follow, h.ops_eq]
  by_cases ht : t ∈ tabled
  · rw [Tables.own_of_mem ht, if_neg (T.ne_zero t ht), Tables.find_address ht, if_pos ht,
      Option.map_some]
  · rw [Tables.own, if_neg ht, if_pos rfl, if_neg ht]

/-- Only the types with a table have functions. -/
theorem bind_tabled {β : Type} {f : HandleType → Option β} (hf : ∀ t ∉ tabled, f t = none) :
    (if t ∈ tabled then some t else none).bind f = f t := by
  by_cases ht : t ∈ tabled
  · rw [if_pos ht, Option.bind_some]
  · rw [if_neg ht, Option.bind_none, hf t ht]

theorem ops_of_not_tabled (r : Round) : ∀ t ∉ tabled, ops r t = none := by
  intro t ht
  cases t with
  | timerQueue | timerQueueTimer => rfl
  | thread | event | mutex | semaphore | timer => exact absurd (by decide) ht

theorem closeFunction_of_not_tabled (D : Dispatcher) (a : CloseAnswers) :
    ∀ t ∉ tabled, closeFunction D a t = none := by
  intro t ht
  cases t with
  | timerQueue | timerQueueTimer => rfl
  | thread | event | mutex | semaphore | timer => exact absurd (by decide) ht

theorem Founded.getFd_eq (h : Founded T t m) (r : Round) :
    T.dispatcher.getFd r m = (typed t).getFd r m := by
  simp only [Tables.dispatcher, typed, h.follow, Option.map_some, bind_tabled (ops_of_not_tabled r)]

theorem Founded.cleanup_eq (h : Founded T t m) (r : Round) :
    T.dispatcher.cleanup r m = (typed t).cleanup r m := by
  simp only [Tables.dispatcher, typed, h.follow, Option.map_some, bind_tabled (ops_of_not_tabled r)]

theorem Founded.wait_eq (h : Founded T t m) (infinite : Bool) (r : Round) :
    waitForSingleObject T.dispatcher infinite r m =
      waitForSingleObject (typed t) infinite r m := by
  simp only [waitForSingleObject, h.getFd_eq, h.cleanup_eq]

theorem wait_typed_isSome (infinite : Bool) (r : Round) :
    (waitForSingleObject (typed t) infinite r m).isSome := by
  simp only [waitForSingleObject, typed]
  split_ifs <;> rfl

/-- With a timeout, this is the wait of the operations that go by the type of the object. -/
theorem Founded.wait_eq_foreign (h : Founded T t m) (r : Round) :
    waitForSingleObject T.dispatcher false r m = Foreign.waitForSingleObject t r m := by
  have htimer : ¬(t = .timerQueueTimer ∧ load64 m 2 ≠ 0) := by
    rintro ⟨rfl, hne⟩
    exact hne h.ops_eq
  rw [h.wait_eq]
  simp only [waitForSingleObject, Foreign.waitForSingleObject, typed, if_neg htimer, true_and]

theorem Founded.closeHandle_eq (h : Founded T t m) (a : CloseAnswers) :
    closeHandle T a m = closeTyped t a m := by
  simp only [closeHandle, closeTyped, h.follow, bind_tabled (closeFunction_of_not_tabled _ a)]
  cases t with
  | thread => simp only [closeFunction, closeWith, threadCloseHandle, h.wait_eq]
  | event | mutex | semaphore | timer | timerQueue | timerQueueTimer => rfl

theorem closeTyped_isSome (a : CloseAnswers) : (closeTyped t a m).isSome := by
  cases t with
  | thread =>
    simp only [closeTyped, closeFunction, closeWith, threadCloseHandle]
    split_ifs
    · rfl
    · rfl
    · rw [Option.isSome_map]
      exact wait_typed_isSome false a.wait
  | event | mutex | semaphore | timer | timerQueue | timerQueueTimer => rfl

end Founded

/-! ### Waiting for several objects -/

section Many

variable {D D' : ℕ → Dispatcher} {objects : List Memory} {rs : ℕ → Round}

theorem length_waitables : (waitables D objects rs).length = objects.length := by
  rw [waitables, List.length_mapIdx]

theorem descriptors_congr (h : getFdAt D objects rs = getFdAt D' objects rs) (l : List ℕ) :
    descriptors D objects rs l = descriptors D' objects rs l := by
  induction l with
  | nil => rfl
  | cons idx rest ih => rw [descriptors, descriptors, h, ih]

/-- **A round goes by what the functions return** for the objects of the array. -/
theorem waitRound_congr
    (hgetFd : ∀ idx m, objects[idx]? = some m →
      (D idx).getFd (rs idx) m = (D' idx).getFd (rs idx) m)
    (hcleanup : ∀ idx m, objects[idx]? = some m →
      (D idx).cleanup (rs idx) m = (D' idx).cleanup (rs idx) m)
    (bWaitAll : Bool) (w : Wait.Waiting) (r : Wait.Round) :
    waitRound D objects rs bWaitAll w r = waitRound D' objects rs bWaitAll w r := by
  have hfd : getFdAt D objects rs = getFdAt D' objects rs := by
    funext idx
    exact Option.bind_congr fun m hm => hgetFd idx m hm
  have hcl : cleanupAt D objects rs = cleanupAt D' objects rs := by
    funext idx
    rw [cleanupAt, cleanupAt, Option.bind_congr fun m hm => hcleanup idx m hm]
  have hwaitables : waitables D objects rs = waitables D' objects rs := by
    rw [waitables, waitables, hfd]
  rw [waitRound, waitRound, hwaitables, hcl, descriptors_congr hfd]

theorem descriptors_isSome {l : List ℕ} (h : ∀ idx ∈ l, (getFdAt D objects rs idx).isSome) :
    (descriptors D objects rs l).isSome := by
  induction l with
  | nil => rfl
  | cons idx rest ih =>
    obtain ⟨hidx, hrest⟩ := List.forall_mem_cons.mp h
    obtain ⟨fd, hfd⟩ := Option.isSome_iff_exists.mp hidx
    simp only [descriptors, hfd]
    split
    · rfl
    · exact ih hrest

/-- A round has a result when the descriptor of every object can be asked for. -/
theorem waitRound_isSome (h : ∀ idx < objects.length, (getFdAt D objects rs idx).isSome)
    (bWaitAll : Bool) (w : Wait.Waiting) (r : Wait.Round) :
    (waitRound D objects rs bWaitAll w r).isSome := by
  rw [waitRound, Option.isSome_map]
  refine descriptors_isSome fun idx hidx => h idx ?_
  unfold Wait.Waiting.polled at hidx
  rw [length_waitables] at hidx
  split at hidx
  · exact List.mem_range.mp (List.mem_of_mem_filter hidx)
  · exact List.mem_range.mp hidx

end Many

/-! ### Well-founded objects -/

section Founded

variable {T : Tables} {t : HandleType} {m m' : Memory}

theorem waitRound_founded {objects : List (HandleType × Memory)}
    (hobjects : ∀ o ∈ objects, Founded T o.1 o.2) (rs : ℕ → Round) (bWaitAll : Bool)
    (w : Wait.Waiting) (r : Wait.Round) :
    waitRound (fun _ => T.dispatcher) (objects.map Prod.snd) rs bWaitAll w r =
        waitRound (typedAt objects) (objects.map Prod.snd) rs bWaitAll w r ∧
      (waitRound (typedAt objects) (objects.map Prod.snd) rs bWaitAll w r).isSome := by
  -- each object of the array has functions of its own type
  have hat : ∀ idx m, (objects.map Prod.snd)[idx]? = some m →
      ∃ t, typedAt objects idx = typed t ∧ Founded T t m := by
    intro idx m hm
    rw [List.getElem?_map, Option.map_eq_some_iff] at hm
    obtain ⟨o, ho, rfl⟩ := hm
    exact ⟨o.1, by rw [typedAt, ho], hobjects o (List.mem_of_getElem? ho)⟩
  constructor
  · refine waitRound_congr (fun idx m hm => ?_) (fun idx m hm => ?_) bWaitAll w r
    · obtain ⟨t, ht, hfounded⟩ := hat idx m hm
      rw [ht, hfounded.getFd_eq]
    · obtain ⟨t, ht, hfounded⟩ := hat idx m hm
      rw [ht, hfounded.cleanup_eq]
  · refine waitRound_isSome (fun idx hidx => ?_) bWaitAll w r
    have hm := List.getElem?_eq_getElem hidx
    obtain ⟨t, ht, -⟩ := hat idx _ hm
    rw [getFdAt, hm, ht]
    rfl

/-- **The heading is all that generic operations need.** -/
theorem Founded.dispatches (h : Founded T t m) : Dispatches T t m where
  ops := by
    rw [h.ops_eq, Tables.own]
    split_ifs with ht
    · exact .inr ⟨ht, rfl⟩
    · exact .inl rfl
  closeHandle a := ⟨h.closeHandle_eq a, closeTyped_isSome a⟩
  waitForSingleObject infinite r := ⟨h.wait_eq infinite r, wait_typed_isSome infinite r⟩
  waitForMultipleObjects _ _ hobjects rs bWaitAll w r :=
    waitRound_founded hobjects rs bWaitAll w r

/-! ### Runs -/

theorem heading_cleanup (r : Round) : heading (winprHandleCleanup (ops r t) m).1 = heading m :=
  heading_congr fun _ hk _ => cleanup_word (by omega) (.inl (by omega))

theorem heading_wait {infinite : Bool} {r : Round} {v : ℕ}
    (h : waitForSingleObject (typed t) infinite r m = some (m', v)) : heading m' = heading m := by
  simp only [waitForSingleObject, typed] at h
  split_ifs at h
  · cases h
    exact heading_overwrite (by decide) _
  · cases h
    exact heading_overwrite (by decide) _
  · cases h
    rfl
  · cases h
    rfl
  · cases h
    rfl
  · have hcleanup := heading_cleanup (t := t) (m := m) r
    rwa [Option.some.inj h] at hcleanup

/-- **Whatever happens to an object, its heading stays.** -/
theorem Founded.act {e : Action} (h : Founded T t m) (hact : act T t m e = some m') :
    Founded T t m' := by
  suffices heading m' = heading m from this.trans h
  cases e with
  | call c =>
    simp only [Dispatch.act, dif_pos h.type_word] at hact
    obtain ⟨r, hr, rfl⟩ := Option.map_eq_some_iff.mp hact
    exact heading_call hr
  | wait infinite r =>
    simp only [Dispatch.act, h.wait_eq] at hact
    obtain ⟨v, hv, rfl⟩ := Option.map_eq_some_iff.mp hact
    exact heading_wait hv
  | cleanup r =>
    simp only [Dispatch.act, h.cleanup_eq] at hact
    obtain rfl := Option.some.inj hact
    exact heading_cleanup r
  | alarm => exact Option.some.inj hact ▸ heading_waitableTimerSignalHandler
  | threadLauncher lock wait unlock =>
    exact Option.some.inj hact ▸ heading_threadLauncher lock wait unlock
  | threadExit rc => exact Option.some.inj hact ▸ heading_threadExit rc
  | exitThread dwExitCode => exact Option.some.inj hact ▸ heading_exitThread dwExitCode
  | queueUnderLock lock activeHead inactiveHead cond unlock =>
    exact Option.some.inj hact ▸ heading_queueUnderLock lock activeHead inactiveHead cond unlock
  | setNext next => exact Option.some.inj hact ▸ heading_setNext next
  | changeTimerQueueTimer dueTime period currentTime next =>
    exact Option.some.inj hact ▸ heading_changeTimerQueueTimer dueTime period currentTime next
  | fireTimer expirationTime next =>
    exact Option.some.inj hact ▸ heading_fireTimer expirationTime next

theorem Founded.step {e : Action} {s : State} (h : Founded T t m) (hkeeps : Keeps (.live m) e)
    (hstep : step T t (.live m) e = some s) : ∃ m', s = .live m' ∧ Founded T t m' := by
  rw [Dispatch.step, if_neg hkeeps] at hstep
  obtain ⟨m', hact, rfl⟩ := Option.map_eq_some_iff.mp hstep
  exact ⟨m', rfl, h.act hact⟩

/-- **An object stays well founded** over every run that does not release it. -/
theorem Founded.run {s : State} (h : Founded T t m)
    (hrun : ReachesIf (Dispatch.step T t) Keeps (.live m) s) :
    ∃ m', s = .live m' ∧ Founded T t m' := by
  refine hrun.invariant (P := fun s => ∃ m', s = .live m' ∧ Founded T t m') ⟨m, rfl, h⟩ ?_
  rintro _ s e ⟨m, rfl, hm⟩ hkeeps hstep
  exact hm.step hkeeps hstep

end Founded

/-! ### All objects -/

/-- The call takes the memory of a timer queue timer from `malloc`: it is one of
`CreateTimerQueueTimer`, for a queue that is not null. -/
def Creation.TakesMalloc : Creation → Prop
  | .timerQueueTimer queue _ _ _ _ _ _ _ => queue ≠ 0
  | _ => False

/-- From memory that held something, it makes a timer whose `ops` points nowhere. -/
theorem Creation.TakesMalloc.create {c : Creation} (h : c.TakesMalloc) (T : Tables) :
    ∃ rest m, Dispatch.create T c (some rest) = some m ∧ load64 m 2 ≠ 0 ∧
      c.objectType ∉ tabled := by
  cases c with
  | timerQueueTimer queue callback parameter dueTime period flags currentTime next =>
    have hqueue : ¬queue = 0 := h
    obtain ⟨m, hm⟩ : ∃ m, createTimerQueueTimer queue callback parameter dueTime period flags
        currentTime next (fun _ => -1) = some m := ⟨_, if_neg hqueue⟩
    have hops : load64 m 2 = load64 (fun _ => -1) 2 :=
      congrArg Prod.snd (createTimerQueueTimer_heading hm)
    refine ⟨fun _ => -1, m, hm, ?_, ?_⟩
    · rw [hops]
      decide
    · change HandleType.timerQueueTimer ∉ tabled
      decide
  | event | fileDescriptorEvent | mutex | semaphore | waitableTimer | thread | timerQueue =>
    exact False.elim h

/-- Any other call makes an object of another type. -/
theorem objectType_ne {T : Tables} {c : Creation} {memory : Option Memory} {m : Memory}
    (hc : ¬c.TakesMalloc) (h : create T c memory = some m) :
    c.objectType ≠ .timerQueueTimer := by
  cases c with
  | timerQueueTimer queue callback parameter dueTime period flags currentTime next =>
    have hqueue : queue = 0 := not_not.mp hc
    obtain ⟨rest, -, hrest⟩ := Option.bind_eq_some_iff.mp h
    simp only [createTimerQueueTimer, if_pos hqueue, reduceCtorEq] at hrest
  | event | fileDescriptorEvent | mutex | semaphore | waitableTimer | thread | timerQueue =>
    exact HandleType.noConfusion

/-- **Generic operations are well founded on every object but the timers of a timer queue**:
for each call that creates an object, they are well founded in every state that the object is
in before it is closed or released, whatever its memory held before, exactly when the call is
not one of `CreateTimerQueueTimer`. -/
theorem dispatch_iff (T : Tables) (c : Creation) :
    (∀ memory m s, create T c memory = some m →
        ReachesIf (step T c.objectType) Keeps (.live m) s →
        ∃ m', s = .live m' ∧ Dispatches T c.objectType m') ↔
      ¬c.TakesMalloc := by
  constructor
  · intro h hmalloc
    obtain ⟨rest, m, hcreate, hops, htabled⟩ := hmalloc.create T
    obtain ⟨_, heq, hdispatches⟩ := h (some rest) m _ hcreate .refl
    obtain rfl := State.live.inj heq
    rcases hdispatches.ops with hzero | ⟨hmem, -⟩
    · exact hops hzero
    · exact htabled hmem
  · intro hc memory m s hcreate hrun
    have hfounded : Founded T c.objectType m := create_heading (objectType_ne hc hcreate) hcreate
    obtain ⟨m', rfl, hm'⟩ := hfounded.run hrun
    exact ⟨m', rfl, hm'.dispatches⟩

/-! ### Where it goes wrong -/

/-- `CloseHandle` with an `ops` that is neither null nor a table. -/
theorem closeHandle_of_wild {T : Tables} {m : Memory} (hops : load64 m 2 ≠ 0)
    (hfind : T.find (load64 m 2) = none) (a : CloseAnswers) : closeHandle T a m = none := by
  simp only [closeHandle, Tables.follow, if_neg hops, hfind, Option.map_none]

/-- **A waitable timer without a descriptor**: the first `SetWaitableTimer` returns `FALSE` and
releases the object, whose handle has not been closed. -/
theorem setWaitableTimer_released {T : Tables} {bManualReset : Word} {rest m : Memory}
    (hcreate : createWaitableTimerA T bManualReset rest = some m) {lPeriod : Word}
    (hperiod : 0 ≤ lPeriod.toInt) {a : TimerAnswers}
    (hfd : (BitVec.ofInt 32 a.timerfdCreate).toInt ≤ 0) (due : Int64)
    (pfnCompletionRoutine : BitVec 64) :
    (setWaitableTimer (some due) lPeriod pfnCompletionRoutine 0 a m).2 = 0 ∧
      step T .timer (.live m)
        (.call (.setWaitableTimer (some due) lPeriod pfnCompletionRoutine 0 a)) =
          some .released := by
  have htype : m 0 = code .timer := congrArg Prod.fst (createWaitableTimerA_heading hcreate)
  have hinit : m 5 = 0 := by
    obtain rfl := Option.some.inj hcreate
    rfl
  constructor
  · -- There is no argument for a completion routine, so that a descriptor is asked for.
    have hnew : load64 (store64 (store64 (store m 6 lPeriod) 8 pfnCompletionRoutine) 10 0) 10 = 0 :=
      load64_store64 0
    have hbInit : store64 (store64 (store m 6 lPeriod) 8 pfnCompletionRoutine) 10 0 5 = 0 := by
      rw [store64_of_lt (by decide), store64_of_lt (by decide), store_of_ne (by decide), hinit]
    simp only [setWaitableTimer, htype, ne_eq, not_true_eq_false, if_false, not_lt.mpr hperiod,
      if_pos hbInit, initializeWaitableTimer, if_pos hnew, store_self, if_pos hfd]
    rfl
  · exact if_pos ⟨htype, nofun, hperiod, hinit, rfl, hfd⟩

/-- Tables in five places. -/
def layout : Tables where
  address t := 0x5000 + (code t).setWidth 64
  ne_zero := by decide
  injective := by decide

/-- A timer that is to fire after 50 ms. -/
def timerOfQueue : Creation :=
  .timerQueueTimer 0x6000 0x7000 0 50 0 0 ⟨0, 0, Timer.zero_lt_nsecPerSec⟩ 0

/-- Nothing is on the `thread_list`. -/
def noThread : CloseAnswers where
  contains := false
  wait :=
    { timedlock := ⟨0, fun _ => 0⟩, poll := 0, length := 0, errno := 0, lock := ⟨0, fun _ => 0⟩
      join := 0, unlock := ⟨0, fun _ => 0⟩, eventfdRead := 0 }

/-- **`CloseHandle` on the timer of a timer queue**, in memory that has been used before, calls
through a pointer that points nowhere. -/
theorem timerOfQueue_not_dispatches :
    ¬∀ (T : Tables) (c : Creation) (memory : Option Memory) (m : Memory) (s : State),
      create T c memory = some m → Reaches (step T c.objectType) (.live m) s →
      ∃ m', s = .live m' ∧ Dispatches T c.objectType m' := by
  intro h
  obtain ⟨m, hm⟩ : ∃ m, create layout timerOfQueue (some fun _ => 0x41414141) = some m := ⟨_, rfl⟩
  obtain ⟨_, heq, hdispatches⟩ := h layout timerOfQueue _ m _ hm .refl
  obtain rfl := State.live.inj heq
  have hnew : createTimerQueueTimer 0x6000 0x7000 0 50 0 0 ⟨0, 0, by decide⟩ 0
      (fun _ => 0x41414141) = some m := hm
  have hops : load64 m 2 = 0x4141414141414141 :=
    congrArg Prod.snd (createTimerQueueTimer_heading hnew)
  have hwild : closeHandle layout noThread m = none :=
    closeHandle_of_wild (by rw [hops]; decide) (by rw [hops]; decide) noThread
  obtain ⟨hclose, hsome⟩ := hdispatches.closeHandle noThread
  rw [← hclose, hwild] at hsome
  cases hsome

end Dispatch

end Libuzi
