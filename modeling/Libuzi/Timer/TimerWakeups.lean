import Libuzi.Timer.TimerRefinement

/-!
# When the thread of a timer queue wakes up

The thread of a timer queue sleeps until the first active timer is due, and is signalled by the
callers. A signal that comes while it is not asleep is lost. Two things are asked of that.

* **No timer is slept through.** What the thread has computed from the lists under the mutex it
  takes to sleep with it, and whoever touches the lists afterwards signals before giving the mutex
  back. So as long as it sleeps unsignalled and nobody has the mutex, it waits for what it would
  wait for if it looked at the lists now (`Timer.deadline_of_asleep`).
* **A cancellation can be slept through.** `bCancelled` is read after the mutex has been given
  back. When `DeleteTimerQueueEx` sets it and signals after it has been read and before the mutex
  is taken again, the thread does not learn of it before it has slept. This is the only way
  (`Timer.cancellation_lost_iff`), and then `DeleteTimerQueueEx` is in `pthread_join` until the
  sleep is over.
-/

namespace Libuzi

open Runs Threads Chain

namespace Timer

section Wakeups

variable {ι : Type*} {w i j : ι} {s : Shared ι} {l l₀ : Local} {x : Choice}
  {c d : Config ι (Shared ι) Local} {read timeout : Timespec}

/-! ### The deadline of a sleeping thread -/

/-- The thread is about to signal. -/
def Local.Signals : Local → Prop
  | .caller (.signal _) => True
  | _ => False

/-- **The thread of the queue waits for the first timer**: when it goes to sleep, and, unless it
has been signalled or is about to be, when it sleeps. -/
structure Awaits (w : ι) (c : Config ι (Shared ι) Local) : Prop where
  /-- It goes to sleep. -/
  wait : ∀ read timeout, c.locals w = .worker (.wait read timeout) →
    deadline c.shared.queue read = .ok timeout
  /-- It sleeps. -/
  asleep : ∀ read timeout, c.locals w = .worker (.asleep read timeout) → c.shared.woken = false →
    (∀ i, ¬(c.locals i).Signals) → deadline c.shared.queue read = .ok timeout

section Step

variable [DecidableEq ι]

/-- A step of another thread that leaves the deadline as it is. -/
theorem Awaits.of_deadline (h : Awaits w c) (hiw : i ≠ w)
    (hdeadline : ∀ read, deadline s.queue read = deadline c.shared.queue read)
    (hwoken : s.woken = false → c.shared.woken = false)
    (hsignals : s.woken = false → ¬(c.locals i).Signals) : Awaits w (c.move i s l) where
  wait read timeout hw := by
    rw [Config.move_of_ne _ _ _ hiw.symm] at hw
    rw [Config.move_shared, hdeadline]
    exact h.wait read timeout hw
  asleep read timeout hw hs hno := by
    rw [Config.move_of_ne _ _ _ hiw.symm] at hw
    rw [Config.move_shared, hdeadline]
    refine h.asleep read timeout hw (hwoken hs) fun j => ?_
    rcases eq_or_ne j i with rfl | hji
    · exact hsignals hs
    · rw [← Config.move_of_ne c s l hji]
      exact hno j

/-- A step while the thread of the queue is not at its wait. -/
theorem Awaits.of_not_waiting (hwait : ∀ read timeout,
      (c.move i s l).locals w ≠ .worker (.wait read timeout))
    (hasleep : ∀ read timeout, (c.move i s l).locals w ≠ .worker (.asleep read timeout)) :
    Awaits w (c.move i s l) where
  wait read timeout hw := absurd hw (hwait read timeout)
  asleep read timeout hw := absurd hw (hasleep read timeout)

/-- A step of another thread when the thread of the queue has returned. -/
theorem Awaits.of_ended (hinv : Inv w c) (hended : c.shared.ended = true) (hiw : i ≠ w) :
    Awaits w (c.move i s l) := by
  have hw : c.locals w = .worker .ended := ((hinv.place w).ended rfl).mp hended
  refine of_not_waiting ?_ ?_ <;> rw [Config.move_of_ne _ _ _ hiw.symm, hw] <;> nofun

omit [DecidableEq ι] in
/-- The first timer is not one that waits to be freed. -/
theorem deadline_free {P : Set Addr} {q : Queue} {A I : List Addr} (hq : Queued (q.hiding P) A I)
    {timer : Addr} (htimer : timer ∈ P) (read : Timespec) :
    deadline { q with heap := Function.update q.heap timer none } read = deadline q read := by
  unfold deadline
  cases hhead : q.activeHead with
  | none => rfl
  | some node =>
    have hactive : Path (q.heap.hide P).link (some node) A none := hhead ▸ hq.active
    obtain ⟨ys, rfl⟩ := hactive.eq_cons
    obtain ⟨r, hr⟩ := hactive.link_eq_some List.mem_cons_self
    obtain ⟨t, ht, -⟩ := Heap.link_eq_some hr
    have hne : node ≠ timer := by
      rintro rfl
      rw [Heap.hide_of_mem htimer] at ht
      cases ht
    simp only [Heap.load, Function.update_of_ne hne]

/-- **Every step keeps the deadline.** -/
theorem Awaits.step (h : Awaits w c) (hinv : Inv w c) (hsim : Simulated c)
    (hl₀ : c.locals i = l₀) (hs : Step i c.shared l₀ x s l) : Awaits w (c.move i s l) := by
  have hworker : ∀ pc, l₀ = .worker pc → i = w := fun pc hpc =>
    (hinv.place i).role.mp ⟨pc, hl₀.trans hpc⟩
  have hcaller : ∀ pc, l₀ = .caller pc → i ≠ w := fun pc hpc => hinv.caller_ne (hl₀.trans hpc)
  cases hs
  case deadline read timeout hdeadline =>
    obtain rfl := hworker _ rfl
    refine ⟨fun read' timeout' hw => ?_, fun read' timeout' hw => ?_⟩
    · rw [Config.move_self] at hw
      cases hw
      exact hdeadline
    · rw [Config.move_self] at hw
      cases hw
  case wait read timeout =>
    obtain rfl := hworker _ rfl
    refine ⟨fun read' timeout' hw => ?_, fun read' timeout' hw _ _ => ?_⟩
    · rw [Config.move_self] at hw
      cases hw
    · rw [Config.move_self] at hw
      cases hw
      exact h.wait read timeout hl₀
  case body call hadm =>
    refine ⟨fun read timeout hw => ?_, fun read timeout hw _ hno => ?_⟩
    · -- the thread of the queue would have the mutex
      rw [Config.move_of_ne _ _ _ (hcaller _ rfl).symm] at hw
      have hi : c.shared.condMutex = some i := (hinv.place i).owns.mp (by rw [hl₀]; rfl)
      have hw' : c.shared.condMutex = some w := (hinv.place w).owns.mp (by rw [hw]; rfl)
      rw [hi] at hw'
      exact absurd (Option.some.inj hw') (hcaller _ rfl)
    · exact absurd (by rw [Config.move_self]; trivial) (hno i)
  case free timer =>
    have hiw := hcaller _ rfl
    by_cases hended : c.shared.ended = false
    · obtain ⟨A, I, hq⟩ := queued_of_calm hsim.reached (hsim.calm hended)
      refine h.of_deadline hiw (fun read => ?_) id fun _ => hl₀ ▸ id
      exact deadline_free hq ⟨i, hl₀ ▸ rfl⟩ read
    · exact .of_ended hinv (by simpa using hended) hiw
  case signal call => exact h.of_deadline (hcaller _ rfl) (fun _ => rfl) nofun nofun
  case call call => exact h.of_deadline (hcaller _ rfl) (fun _ => rfl) id fun _ => hl₀ ▸ id
  case callerLock call hfree =>
    exact h.of_deadline (hcaller _ rfl) (fun _ => rfl) id fun _ => hl₀ ▸ id
  case callerUnlock call =>
    exact h.of_deadline (hcaller _ rfl) (fun _ => rfl) id fun _ => hl₀ ▸ id
  case join hended => exact .of_ended hinv hended (hcaller _ rfl)
  case move node hnode => exact .of_ended hinv ((hinv.place i).joined hl₀) (hcaller _ rfl)
  case release node hnode => exact .of_ended hinv ((hinv.place i).joined hl₀) (hcaller _ rfl)
  case freed hdestroyed => exact .of_ended hinv ((hinv.place i).joined hl₀) (hcaller _ rfl)
  -- the other steps of the thread of the queue do not lead to its wait
  all_goals
    obtain rfl := hworker _ rfl
    refine Awaits.of_not_waiting ?_ ?_ <;> rw [Config.move_self] <;> nofun

/-- `bCancelled` is set by the time `DeleteTimerQueueEx` signals. -/
def Cancels (c : Config ι (Shared ι) Local) : Prop :=
  ∀ i, c.locals i = .caller (.signal .destroy) → c.shared.bCancelled = true

omit [DecidableEq ι] in
/-- What another thread has set stays set. -/
theorem keeps_of_caller {pc : CallerPc} (hs : Step i c.shared (.caller pc) x s l) :
    (c.shared.bCancelled = true → s.bCancelled = true) ∧
      (c.shared.woken = true → s.woken = true) ∧ ∀ call, pc = .signal call → s.woken = true := by
  cases hs
  case body call hadm => exact ⟨fun hold => Bool.or_eq_true_iff.mpr (.inl hold), id, nofun⟩
  case signal call => exact ⟨id, fun _ => rfl, fun _ _ => rfl⟩
  all_goals exact ⟨id, id, nofun⟩

theorem Cancels.step (h : Cancels c) (hs : Step i c.shared l₀ x s l) :
    Cancels (c.move i s l) := by
  intro j hj
  rcases eq_or_ne j i with rfl | hji
  · rw [Config.move_self] at hj
    cases hs
    case body call hadm =>
      obtain rfl : call = .destroy := CallerPc.signal.inj (Local.caller.inj hj)
      exact Bool.or_true _
    case callerUnlock call => cases call <;> cases hj
    all_goals cases hj
  · rw [Config.move_of_ne _ _ _ hji] at hj
    have hold := h j hj
    cases hs
    case body call hadm => exact Bool.or_eq_true_iff.mpr (.inl hold)
    all_goals exact hold

/-- The thread of the queue will come to the tests before it goes to sleep again, if `p` holds
while it sleeps. -/
def WorkerPc.Tests (p : Prop) : WorkerPc → Prop
  | .lock | .clock | .deadline _ | .wait _ _ => False
  | .asleep _ _ => p
  | _ => True

/-- **The thread of the queue has been told** that the queue is cancelled, or thread `i` is about
to tell it. -/
structure Told (w i : ι) (c : Config ι (Shared ι) Local) : Prop where
  /-- The queue is cancelled. -/
  cancelled : c.shared.bCancelled = true
  /-- The thread of the queue comes to the tests. -/
  tests : ∀ pc, c.locals w = .worker pc →
    pc.Tests (c.shared.woken = true ∨ c.locals i = .caller (.signal .destroy))

/-- **What has been told is not forgotten.** -/
theorem Told.step (h : Told w i c) (hinv : Inv w c) (hl₀ : c.locals j = l₀)
    (hs : Step j c.shared l₀ x s l) : Told w i (c.move j s l) := by
  have hcancelled := h.cancelled
  cases l₀ with
  | worker pc =>
    obtain rfl : j = w := (hinv.place j).role.mp ⟨pc, hl₀⟩
    have htests := h.tests pc hl₀
    refine ⟨?_, fun pc' hpc' => ?_⟩
    · cases hs <;> exact hcancelled
    · rw [Config.move_self] at hpc'
      subst hpc'
      cases hs
      -- the thread would go on in spite of the cancellation
      case again status hgo =>
        rw [hcancelled] at hgo
        cases hgo
      all_goals first | exact htests.elim | trivial
  | caller pc =>
    have hjw : j ≠ w := hinv.caller_ne hl₀
    obtain ⟨hkept, hwoken, hsignal⟩ := keeps_of_caller hs
    refine ⟨hkept hcancelled, fun pc' hpc' => ?_⟩
    rw [Config.move_of_ne _ _ _ hjw.symm] at hpc'
    have htests := h.tests pc' hpc'
    cases pc' with
    | asleep read timeout =>
      rcases htests with hold | hold
      · exact .inl (hwoken hold)
      · rcases eq_or_ne i j with rfl | hij
        · -- the thread that was about to signal does so
          exact .inl (hsignal .destroy (Local.caller.inj (hl₀.symm.trans hold)))
        · refine .inr ?_
          rwa [Config.move_of_ne _ _ _ hij]
    | lock | clock | deadline | wait => exact htests.elim
    | relock | fire | firing | unlock | test | ended => trivial

/-- **The cancellation has been lost**: `DeleteTimerQueueEx` waits for the thread of the queue to
return, and that sleeps and has not been signalled. -/
structure Lost (w : ι) (c : Config ι (Shared ι) Local) : Prop where
  /-- The thread of the queue sleeps. -/
  asleep : ∃ read timeout, c.locals w = .worker (.asleep read timeout)
  /-- It has not been signalled. -/
  woken : c.shared.woken = false
  /-- It is waited for. -/
  joins : ∃ i, c.locals i = .caller .join

omit [DecidableEq ι] in
/-- A thread that has been told does not miss it. -/
theorem Told.not_lost (h : Told w i c) (hinv : Inv w c) : ¬Lost w c := by
  rintro ⟨⟨read, timeout, hw⟩, hwoken, j, hj⟩
  rcases h.tests _ hw with hold | hi
  · rw [hwoken] at hold
    cases hold
  · have hij : i ≠ j := by
      rintro rfl
      rw [hi] at hj
      cases hj
    have hidle := hinv.alone j (by rw [hj]; rfl) i hij (hinv.caller_ne hi)
    rw [hi] at hidle
    cases hidle

omit [DecidableEq ι] in
/-- **Nobody finds a lost cancellation again**: all that can happen is that the sleep ends. -/
theorem Lost.next (h : Lost w c) (hinv : Inv w c) (hproper : Proper w c (i, x))
    (hl₀ : c.locals i = l₀) (hs : Step i c.shared l₀ x s l) :
    i = w ∧ ∃ status, x = .wake status := by
  obtain ⟨⟨read, timeout, hw⟩, -, j, hj⟩ := h
  by_cases hiw : i = w
  · subst hiw
    obtain rfl : l₀ = .worker (.asleep read timeout) := hl₀.symm.trans hw
    cases hs
    exact ⟨rfl, _, rfl⟩
  · exfalso
    rcases eq_or_ne i j with rfl | hij
    · -- the thread of the queue has not returned
      obtain rfl : l₀ = .caller .join := hl₀.symm.trans hj
      cases hs
      case join hended =>
        have hreturned := ((hinv.place w).ended rfl).mp hended
        rw [hw] at hreturned
        cases hreturned
    · -- the others are in none of the functions, and call none
      have hidle := hinv.alone j (by rw [hj]; rfl) i hij hiw
      obtain rfl : l₀ = .caller .idle := hl₀.symm.trans hidle
      cases hs
      case call call =>
        have hno := hproper.2.1 j
        rw [hj] at hno
        cases hno

omit [DecidableEq ι] in
/-- Where the thread of the queue stands while another thread signals. -/
theorem told_of_signal (hinv : Inv w c) (hcancels : Cancels c)
    (hi : c.locals i = .caller (.signal .destroy)) (hlock : c.locals w ≠ .worker .lock) :
    Told w i c where
  cancelled := hcancels i hi
  tests pc hpc := by
    have hmutex : c.shared.condMutex = some i := (hinv.place i).owns.mp (by rw [hi]; rfl)
    have howns : (Local.worker pc).owns = false := by
      by_contra hne
      have hw := (hinv.place w).owns.mp (by rw [hpc]; simpa using hne)
      rw [hmutex] at hw
      exact hinv.caller_ne hi (Option.some.inj hw)
    cases pc with
    | lock => exact absurd hpc hlock
    | clock | deadline | wait => cases howns
    | asleep => exact .inr hi
    | relock | fire | firing | unlock | test | ended => trivial

/-- From the lock the thread of the queue can go to sleep after `DeleteTimerQueueEx` has
signalled. -/
theorem exists_lost (hinv : Inv w c) (hsim : Simulated c)
    (hi : c.locals i = .caller (.signal .destroy)) (hlock : c.locals w = .worker .lock) :
    ∃ d, ReachesIf (threadStep next) (Proper w) c d ∧ Lost w d := by
  have hiw : i ≠ w := hinv.caller_ne hi
  have hended : c.shared.ended = false := by
    have hreturned := (hinv.place w).ended rfl
    rw [hlock] at hreturned
    simpa using hreturned
  have hcalm := hsim.calm hended
  have hfault : c.shared.queue.control.isFaulted = false := hcalm.not_faulted
  obtain ⟨A, I, hq⟩ := queued_of_calm hsim.reached hcalm
  obtain ⟨timeout, hdeadline⟩ :
      ∃ timeout, deadline c.shared.queue (timespecGettimeofday midnight) = .ok timeout := by
    cases hd : deadline c.shared.queue (timespecGettimeofday midnight) with
    | error f => exact absurd hd (hq.deadline_ne_error _ f)
    | ok timeout => exact ⟨timeout, rfl⟩
  -- the signal is given, and the mutex
  have h₀ : ReachesIf (threadStep next) (Proper w) c c := .refl
  have h₁ := reachesIf_move (i := i) (a := .go)
    (s := { c.shared with woken := true }) (l := .caller (.unlock .destroy)) h₀ trivial
    (by simp [next, hfault, hi, callerStep])
  have h₂ := reachesIf_move (i := i) (a := .go)
    (s := { c.shared with woken := true, condMutex := none }) (l := .caller .join) h₁ trivial
    (by simp [next, hfault, callerStep, Call.afterUnlock])
  -- and the thread of the queue goes to sleep
  have h₃ := reachesIf_move (i := w) (a := .go)
    (s := { c.shared with woken := true, condMutex := some w }) (l := .worker .clock) h₂ trivial
    (by simp [next, hfault, hlock, hiw.symm, timerQueueThread])
  have h₄ := reachesIf_move (i := w) (a := .clock midnight)
    (s := { c.shared with woken := true, condMutex := some w })
    (l := .worker (.deadline (timespecGettimeofday midnight))) h₃ trivial
    (by simp [next, hfault, timerQueueThread])
  have h₅ := reachesIf_move (i := w) (a := .go)
    (s := { c.shared with woken := true, condMutex := some w })
    (l := .worker (.wait (timespecGettimeofday midnight) timeout)) h₄ trivial
    (by simp [next, hfault, timerQueueThread, hdeadline])
  have h₆ := reachesIf_move (i := w) (a := .go)
    (s := { c.shared with woken := false, condMutex := none })
    (l := .worker (.asleep (timespecGettimeofday midnight) timeout)) h₅ trivial
    (by simp [next, hfault, timerQueueThread])
  refine ⟨_, h₆, ⟨_, _, Config.move_self ..⟩, rfl, i, ?_⟩
  simp [hiw]

/-- **When a cancellation is lost.** `DeleteTimerQueueEx` is about to signal. The thread of the
queue can sleep through it if and only if it is at its `pthread_mutex_lock` – having read
`bCancelled` before it was set, and not being asleep yet. Then nothing happens any more, except
that the sleep ends. -/
theorem cancellation_lost_iff (h : ReachesIf (threadStep next)
      (fun c e => Proper w c e ∧ DeletesOffInactive c e) (start w) c)
    (hi : c.locals i = .caller (.signal .destroy)) :
    ((∃ d, ReachesIf (threadStep next) (Proper w) c d ∧ Lost w d) ↔
        c.locals w = .worker .lock) ∧
      ∀ d, ReachesIf (threadStep next) (Proper w) c d → Lost w d → ∀ e, Proper w d e →
        (threadStep next d e).isSome → ∃ status, e = (w, .wake status) := by
  have hall : (Inv w c ∧ Simulated c) ∧ Cancels c := by
    refine invariant (P := fun c => (Inv w c ∧ Simulated c) ∧ Cancels c) h
      ⟨⟨inv_start w, simulated_start w⟩, fun i hi => ?_⟩ ?_
    · by_cases hiw : i = w <;> simp [start, hiw] at hi
    · rintro d i x s l ⟨⟨hinv, hsim⟩, hd⟩ ⟨hproper, hdelete⟩ hn
      obtain ⟨hfault, hs⟩ := step_of_next hn
      exact ⟨⟨hinv.step hproper hfault rfl hs, hsim.step hinv hdelete hfault rfl hs⟩, hd.step hs⟩
  obtain ⟨⟨hinv, hsim⟩, hcancels⟩ := hall
  have hlater : ∀ d, ReachesIf (threadStep next) (Proper w) c d → Inv w d :=
    fun d hd => inv_of_reaches ((h.mono fun _ _ hok => hok.1).trans hd) fun _ _ hok => hok
  refine ⟨⟨?_, exists_lost hinv hsim hi⟩, ?_⟩
  · rintro ⟨d, hd, hlost⟩
    by_contra hlock
    have htold : Inv w d ∧ Told w i d := by
      refine invariant (P := fun d => Inv w d ∧ Told w i d) hd
        ⟨hinv, told_of_signal hinv hcancels hi hlock⟩ ?_
      rintro d j x s l ⟨hdinv, hdtold⟩ hproper hn
      obtain ⟨hfault, hs⟩ := step_of_next hn
      exact ⟨hdinv.step hproper hfault rfl hs, hdtold.step hdinv rfl hs⟩
    exact htold.2.not_lost htold.1 hlost
  · rintro d hd hlost ⟨j, x⟩ hproper hsome
    obtain ⟨d', hd'⟩ := Option.isSome_iff_exists.mp hsome
    obtain ⟨s, l, hn, -⟩ := threadStep_eq_some.mp hd'
    obtain ⟨rfl, status, rfl⟩ := hlost.next (hlater d hd) hproper rfl (step_of_next hn).2
    exact ⟨status, rfl⟩

end Step

end Wakeups

/-! ### Two sleeps -/

/-- Thread `1` creates a timer, and the thread of the queue goes to sleep. -/
def createSleep : List (Fin 2 × Choice) :=
  [[(1, .call (.create 7 midnight 10 0))], List.replicate 4 (1, .go),
    [(0, .go), (0, .clock midnight), (0, .go), (0, .go)]].flatten

/-- The thread of the queue has slept once and found the queue not cancelled when thread `1`
deletes it. -/
def destroyTested : List (Fin 2 × Choice) :=
  [createSleep, [(0, .wake .ok), (0, .go), (0, .clock midnight)], List.replicate 4 (0, .go),
    [(1, .call .destroy), (1, .go), (1, .go)]].flatten

theorem cancellation_lost_iff_destroyTested :
    ∃ c, run (threadStep next) (start (0 : Fin 2)) destroyTested = some c ∧
      c.shared.bCancelled = true ∧ c.shared.queue.activeHead = some 7 ∧
      ∃ d, ReachesIf (threadStep next) (Proper 0) c d ∧ Lost 0 d := by
  have hrun : run (threadStep next) (start (0 : Fin 2)) destroyTested = some _ :=
    run_eq_final (by decide +kernel)
  have hreach := reachesIf_of_inactiveHead (w := 0)
    (reachesIf_of_run destroyTested (by decide +kernel) hrun)
  have hiff := (cancellation_lost_iff (i := 1) hreach (by decide +kernel)).1
  exact ⟨_, hrun, by decide +kernel, by decide +kernel, hiff.mpr (by decide +kernel)⟩

end Timer

end Libuzi
