import Libuzi.Timer.TimerConservation
import Libuzi.Timer.TimerThreads

/-!
# One thread at the lists of a timer queue

The functions of a timer queue take `cond_mutex` before they touch its lists, all but
`DeleteTimerQueueEx`, which takes the lists apart without it. It may, because it has joined the
thread of the queue before, and because nobody calls anything beside it (`Timer.Proper`).

The invariant says of every thread what it knows where it stands (`Timer.Place`), and it is kept
by every step (`Timer.Inv.step`). So at most one thread is at the queue at a time, and when it has
been freed nobody is left who could touch it (`Timer.exclusive`).
-/

namespace Libuzi

open Runs Threads

namespace Timer

variable {ι : Type*}

/-! ### The invariant -/

/-- The thread has `cond_mutex`. -/
def Local.owns : Local → Bool
  | .worker pc =>
    match pc with
    | .clock | .deadline _ | .wait _ _ | .fire _ | .firing _ | .unlock _ => true
    | _ => false
  | .caller pc =>
    match pc with
    | .body _ | .signal _ | .unlock _ => true
    | _ => false

/-- **The thread is at the queue**: between `pthread_mutex_lock` and `pthread_mutex_unlock`, except
while it sleeps in `pthread_cond_timedwait`, or in the loops of `DeleteTimerQueueEx`. Whoever reads
or writes the lists is. -/
def Local.AtQueue (l : Local) : Prop := l.owns = true ∨ l = .caller .release

/-- The thread of the queue is in the loop of `FireExpiredTimerQueueTimers`. -/
def Local.Fires : Local → Prop
  | .worker (.firing _) => True
  | _ => False

/-- `DeleteTimerQueueEx` is in its loops, or done with them. -/
def Control.Closing : Control → Prop
  | .moving _ | .freeing _ | .destroyed => True
  | _ => False

/-- **What a thread knows** of what the threads share, where it stands. -/
structure Place (w i : ι) (s : Shared ι) (l : Local) : Prop where
  /-- Thread `w` is the thread of the queue. -/
  role : (∃ pc, l = .worker pc) ↔ i = w
  /-- The mutex has the owner that the threads say. -/
  owns : l.owns = true ↔ s.condMutex = some i
  /-- Whether the thread of the queue has returned. -/
  ended : i = w → (s.ended = true ↔ l = .worker .ended)
  /-- Only the thread of the queue fires timers. -/
  fires : i = w → ∀ now, s.queue.control = .firing now → l.Fires
  /-- It is joined before the lists are taken apart. -/
  joined : l = .caller .release → s.ended = true
  /-- After the queue has been freed nobody is at it. -/
  freed : s.freed = true → l = .worker .ended ∨ l = .caller .idle

/-- **The invariant of the threads.** -/
structure Inv (w : ι) (c : Config ι (Shared ι) Local) : Prop where
  /-- What each thread knows. -/
  place : ∀ i, Place w i c.shared (c.locals i)
  /-- Beside `DeleteTimerQueueEx` nothing is called. -/
  alone : ∀ i, (c.locals i).destroys = true → ∀ j, j ≠ i → j ≠ w → c.locals j = .caller .idle
  /-- The lists are taken apart by `DeleteTimerQueueEx`, and then the queue is freed. -/
  closing : c.shared.queue.control.Closing →
    c.shared.freed = true ∨ ∃ i, c.locals i = .caller .release

section Invariant

variable {w i j : ι} {s s' : Shared ι} {x : Choice} {l l' l₀ : Local}
  {c : Config ι (Shared ι) Local}

/-- What has succeeded, and what comes after it. -/
theorem bind_eq_ok {β γ : Type} {y : Except Fault β} {f : β → Except Fault γ} {r : γ}
    (h : y >>= f = .ok r) : ∃ z, y = .ok z ∧ f z = .ok r := by
  cases y with
  | error e => cases h
  | ok z => exact ⟨z, rfl, h⟩

theorem createTimerQueueTimer_ok {q q' : Queue} {timer : Addr} {tval : Timeval}
    {dueTime period : UInt32} (h : createTimerQueueTimer q timer tval dueTime period = .ok q') :
    ∃ heap activeHead, q' = { q with
      heap, activeHead,
      created := ⟨timer, timespecGettimeofday tval, dueTime, period⟩ :: q.created } := by
  obtain ⟨r, -, h⟩ := bind_eq_ok h
  exact ⟨_, _, (Except.ok.inj h).symm⟩

theorem changeTimerQueueTimer_ok {q q' : Queue} {timer : Addr} {tval : Timeval}
    {dueTime period : UInt32} (h : changeTimerQueueTimer q timer tval dueTime period = .ok q') :
    ∃ heap activeHead inactiveHead, q' = { q with heap, activeHead, inactiveHead } := by
  obtain ⟨r, -, h⟩ := bind_eq_ok h
  obtain ⟨r', -, h⟩ := bind_eq_ok h
  obtain ⟨r'', -, h⟩ := bind_eq_ok h
  exact ⟨_, _, _, (Except.ok.inj h).symm⟩

theorem unlinkTimerQueueTimer_ok {q q' : Queue} {timer : Addr}
    (h : unlinkTimerQueueTimer q timer = .ok q') :
    ∃ heap activeHead, q' = { q with heap, activeHead, deleted := timer :: q.deleted } := by
  obtain ⟨r, -, h⟩ := bind_eq_ok h
  exact ⟨_, _, (Except.ok.inj h).symm⟩

/-- A turn of the loop of `FireExpiredTimerQueueTimers` goes on with it, or ends it. -/
theorem fireTurn_ok {q q' : Queue} {now : Timespec} (h : fireTurn q now = .ok q') :
    q'.created = q.created ∧ q'.deleted = q.deleted ∧
      (q'.control = .idle ∨ q'.control = q.control) := by
  unfold fireTurn at h
  split at h
  case h_1 =>
    obtain rfl := Except.ok.inj h
    exact ⟨rfl, rfl, .inl rfl⟩
  case h_2 node hnode =>
    obtain ⟨nd, -, h⟩ := bind_eq_ok h
    split at h
    case isTrue =>
      split at h <;> obtain ⟨r, -, h⟩ := bind_eq_ok h <;> obtain rfl := Except.ok.inj h <;>
        exact ⟨rfl, rfl, .inr rfl⟩
    case isFalse =>
      obtain rfl := Except.ok.inj h
      exact ⟨rfl, rfl, .inl rfl⟩

theorem moveTurn_ok {q q' : Queue} {node : Option Addr} (h : moveTurn q node = .ok q') :
    q'.created = q.created ∧ q'.deleted = q.deleted ∧ q'.control.Closing := by
  cases node with
  | none =>
    obtain rfl := Except.ok.inj h
    exact ⟨rfl, rfl, trivial⟩
  | some a =>
    obtain ⟨r, -, h⟩ := bind_eq_ok h
    obtain ⟨nd, -, h⟩ := bind_eq_ok h
    obtain rfl := Except.ok.inj h
    exact ⟨rfl, rfl, trivial⟩

theorem freeTurn_ok {q q' : Queue} {node : Option Addr} (h : freeTurn q node = .ok q') :
    q'.created = q.created ∧ q'.deleted = q.deleted ∧ q'.control.Closing := by
  cases node with
  | none =>
    obtain rfl := Except.ok.inj h
    exact ⟨rfl, rfl, trivial⟩
  | some a =>
    obtain ⟨nd, -, h⟩ := bind_eq_ok h
    obtain rfl := Except.ok.inj h
    exact ⟨rfl, rfl, trivial⟩

/-- What holds of the queue after a call that faults, and after one that does not. -/
theorem settle_cases {q : Queue} {y : Except Fault Queue} {P : Queue → Prop}
    (hf : ∀ f, P { q with control := .faulted f }) (hy : ∀ q', y = .ok q' → P q') :
    P (q.settle y) := by
  cases y with
  | error f => exact hf f
  | ok q' => exact hy q' rfl

/-- A call does not begin to fire timers, nor to take the lists apart. -/
theorem body_control {q : Queue} (call : Call) (h : q.control = .idle) :
    (call.body q).control = .idle ∨ (call.body q).control.isFaulted = true := by
  cases call with
  | create timer tval dueTime period =>
    refine settle_cases (P := fun q => q.control = .idle ∨ q.control.isFaulted = true)
      (fun f => .inr rfl) fun q' hq' => .inl ?_
    obtain ⟨heap, activeHead, rfl⟩ := createTimerQueueTimer_ok hq'
    exact h
  | change timer tval dueTime period =>
    refine settle_cases (P := fun q => q.control = .idle ∨ q.control.isFaulted = true)
      (fun f => .inr rfl) fun q' hq' => .inl ?_
    obtain ⟨heap, activeHead, inactiveHead, rfl⟩ := changeTimerQueueTimer_ok hq'
    exact h
  | delete timer =>
    refine settle_cases (P := fun q => q.control = .idle ∨ q.control.isFaulted = true)
      (fun f => .inr rfl) fun q' hq' => .inl ?_
    obtain ⟨heap, activeHead, rfl⟩ := unlinkTimerQueueTimer_ok hq'
    exact h
  | destroy => exact .inl h

/-- Then neither is going on. -/
theorem Control.at_rest {k : Control} (h : k = .idle ∨ k.isFaulted = true) :
    ¬k.Closing ∧ ∀ now, k ≠ .firing now := by
  rcases h with rfl | h
  · exact ⟨id, nofun⟩
  · cases k with
    | faulted f => exact ⟨id, nofun⟩
    | _ => cases h

/-- Firing does not take the lists apart. -/
theorem fireTurn_control {q : Queue} {now : Timespec} (h : q.control = .firing now) :
    ¬(q.settle (fireTurn q now)).control.Closing := by
  refine settle_cases (P := fun q => ¬q.control.Closing) (fun f => id) fun q' hq' => ?_
  rcases (fireTurn_ok hq').2.2 with hc | hc
  · rw [hc]
    exact id
  · rw [hc, h]
    exact id

/-- Nor does taking the lists apart fire timers. -/
theorem Control.Closing.ne_firing {k : Control} (h : k.Closing) (now : Timespec) :
    k ≠ .firing now := by
  rintro rfl
  exact h

theorem moveTurn_control (q : Queue) (node : Option Addr) (now : Timespec) :
    (q.settle (moveTurn q node)).control ≠ .firing now :=
  settle_cases (P := fun q => q.control ≠ .firing now) (fun _ => nofun) fun _ hq' =>
    (moveTurn_ok hq').2.2.ne_firing now

theorem freeTurn_control (q : Queue) (node : Option Addr) (now : Timespec) :
    (q.settle (freeTurn q node)).control ≠ .firing now :=
  settle_cases (P := fun q => q.control ≠ .firing now) (fun _ => nofun) fun _ hq' =>
    (freeTurn_ok hq').2.2.ne_firing now

/-- A step of another thread, as far as it concerns this one. -/
theorem Place.frame (h : Place w j s l) (hmutex : s'.condMutex = some j ↔ s.condMutex = some j)
    (hended : j = w → s'.ended = s.ended) (hjoined : s.ended = true → s'.ended = true)
    (hfires : j = w → ∀ now, s'.queue.control = .firing now → s.queue.control = .firing now)
    (hfreed : s'.freed = true → s.freed = true ∨ l = .worker .ended ∨ l = .caller .idle) :
    Place w j s' l where
  role := h.role
  owns := h.owns.trans hmutex.symm
  ended hj := by rw [hended hj, h.ended hj]
  fires hj now hnow := h.fires hj now (hfires hj now hnow)
  joined hl := hjoined (h.joined hl)
  freed hs := by
    rcases hfreed hs with hold | hl
    · exact h.freed hold
    · exact hl

variable [DecidableEq ι]

theorem inv_start (w : ι) : Inv w (start w) where
  place i := by
    by_cases hi : i = w
    · subst hi
      constructor <;> simp [start, Local.owns, createTimerQueue]
    · constructor <;> simp [start, hi, Local.owns, createTimerQueue]
  alone i hi := by
    by_cases hw : i = w <;> simp [start, hw, Local.destroys] at hi
  closing h := h.elim

/-- **What a step has to keep.** -/
theorem Inv.move (h : Inv w c) (hplace : Place w i s l)
    (hmutex : ∀ j, j ≠ i → (s.condMutex = some j ↔ c.shared.condMutex = some j))
    (hended : i ≠ w → s.ended = c.shared.ended)
    (hjoined : c.shared.ended = true → s.ended = true)
    (hfires : i ≠ w → ∀ now, s.queue.control = .firing now → c.shared.queue.control = .firing now)
    (hfreed : s.freed = true → c.shared.freed = true ∨
      ∀ j, j ≠ i → c.locals j = .worker .ended ∨ c.locals j = .caller .idle)
    (hkept : c.shared.freed = true → s.freed = true)
    (halone : l.destroys = true → (c.locals i).destroys = true ∨
      ∀ j, j ≠ i → j ≠ w → c.locals j = .caller .idle)
    (hidle : i ≠ w → l = .caller .idle ∨ c.locals i ≠ .caller .idle ∨
      ∀ j, (c.locals j).destroys = false)
    (hclosing : s.queue.control.Closing → s.freed = true ∨ l = .caller .release ∨
      c.shared.queue.control.Closing ∧ c.locals i ≠ .caller .release) :
    Inv w (c.move i s l) where
  place := by
    refine Config.forall_move hplace fun j hj => ?_
    refine (h.place j).frame (hmutex j hj) (fun hw => hended fun hi => hj (hw.trans hi.symm))
      hjoined (fun hw => hfires fun hi => hj (hw.trans hi.symm)) fun hs => ?_
    rcases hfreed hs with hold | hall
    · exact .inl hold
    · exact .inr (hall j hj)
  alone a ha b hba hbw := by
    rcases eq_or_ne a i with rfl | hai
    · rw [Config.move_self] at ha
      rw [Config.move_of_ne _ _ _ hba]
      rcases halone ha with hold | hall
      · exact h.alone a hold b hba hbw
      · exact hall b hba hbw
    · rw [Config.move_of_ne _ _ _ hai] at ha
      have hb := h.alone a ha b hba hbw
      rcases eq_or_ne b i with rfl | hbi
      · -- a thread beside `DeleteTimerQueueEx` is idle, and stays so
        rw [Config.move_self]
        rcases hidle hbw with hl | hne | hno
        · exact hl
        · exact absurd hb hne
        · rw [hno a] at ha
          cases ha
      · rwa [Config.move_of_ne _ _ _ hbi]
  closing hs := by
    rcases hclosing hs with hfreed | rfl | ⟨hold, hne⟩
    · exact .inl hfreed
    · exact .inr ⟨i, Config.move_self ..⟩
    · rcases h.closing hold with hfreed | ⟨k, hk⟩
      · exact .inl (hkept hfreed)
      · have hki : k ≠ i := by
          rintro rfl
          exact hne hk
        refine .inr ⟨k, ?_⟩
        rwa [Config.move_of_ne _ _ _ hki]

omit [DecidableEq ι] in
/-- A thread in one of the functions keeps the queue from having been freed. -/
theorem Inv.not_freed (h : Inv w c) (hidle : c.locals i ≠ .caller .idle)
    (hended : c.locals i ≠ .worker .ended) : c.shared.freed = false := by
  by_contra hne
  rcases (h.place i).freed (by simpa using hne) with hl | hl
  · exact hended hl
  · exact hidle hl

omit [DecidableEq ι] in
/-- With nobody firing timers or taking the lists apart, the queue is not in the middle of
anything. -/
theorem Inv.control_eq_idle (h : Inv w c) (hfault : c.shared.queue.control.isFaulted = false)
    (hfires : ¬(c.locals w).Fires) (hfreed : c.shared.freed = false)
    (hrelease : ∀ k, c.locals k ≠ .caller .release) : c.shared.queue.control = .idle := by
  have hnot : ¬c.shared.queue.control.Closing := by
    intro hclosing
    rcases h.closing hclosing with hf | ⟨k, hk⟩
    · rw [hfreed] at hf
      cases hf
    · exact hrelease k hk
  cases hc : c.shared.queue.control with
  | idle => rfl
  | firing now => exact absurd ((h.place w).fires rfl now hc) hfires
  | moving node => exact absurd (by rw [hc]; trivial) hnot
  | freeing node => exact absurd (by rw [hc]; trivial) hnot
  | destroyed => exact absurd (by rw [hc]; trivial) hnot
  | faulted f =>
    rw [hc] at hfault
    cases hfault

omit [DecidableEq ι] in
/-- The thread of the queue has the mutex when it fires timers. -/
theorem owns_of_fires (h : l.Fires) : l.owns = true := by
  unfold Local.Fires at h
  split at h
  case h_1 => rfl
  case h_2 => exact h.elim

omit [DecidableEq ι] in
theorem Inv.caller_ne (h : Inv w c) {pc : CallerPc} (hi : c.locals i = .caller pc) : i ≠ w := by
  intro hiw
  obtain ⟨pc', hpc'⟩ := (h.place i).role.mpr hiw
  rw [hi] at hpc'
  cases hpc'

omit [DecidableEq ι] in
/-- Between taking the mutex and the signal nothing is fired or taken apart. -/
theorem Inv.control_of_body (h : Inv w c) {call : Call} (hi : c.locals i = .caller (.body call))
    (hfault : c.shared.queue.control.isFaulted = false) : c.shared.queue.control = .idle := by
  have hmutex : c.shared.condMutex = some i := (h.place i).owns.mp (by rw [hi]; rfl)
  have hiw := h.caller_ne hi
  refine h.control_eq_idle hfault (fun hfires => ?_)
    (h.not_freed (i := i) (by rw [hi]; nofun) (by rw [hi]; nofun)) fun k hk => ?_
  · -- the thread of the queue would have the mutex
    rw [(h.place w).owns.mp (owns_of_fires hfires)] at hmutex
    exact hiw (Option.some.inj hmutex).symm
  · have hki : i ≠ k := by
      rintro rfl
      rw [hi] at hk
      cases hk
    have hidle := h.alone k (by rw [hk]; rfl) i hki hiw
    rw [hi] at hidle
    cases hidle

omit [DecidableEq ι] in
/-- Nor when the thread of the queue comes to fire timers. -/
theorem Inv.control_of_fire (h : Inv w c) {status : Status}
    (hi : c.locals w = .worker (.fire status))
    (hfault : c.shared.queue.control.isFaulted = false) : c.shared.queue.control = .idle := by
  refine h.control_eq_idle hfault (by rw [hi]; exact id)
    (h.not_freed (i := w) (by rw [hi]; nofun) (by rw [hi]; nofun)) fun k hk => ?_
  have hended := ((h.place w).ended rfl).mp ((h.place k).joined hk)
  rw [hi] at hended
  cases hended

omit [DecidableEq ι] in
/-- Nor when the thread of the queue is joined. -/
theorem Inv.control_of_join (h : Inv w c) (hi : c.locals i = .caller .join)
    (hended : c.shared.ended = true) (hfault : c.shared.queue.control.isFaulted = false) :
    c.shared.queue.control = .idle := by
  refine h.control_eq_idle hfault ?_
    (h.not_freed (i := i) (by rw [hi]; nofun) (by rw [hi]; nofun)) fun k hk => ?_
  · rw [((h.place w).ended rfl).mp hended]
    exact id
  · have hki : k ≠ i := by
      rintro rfl
      rw [hi] at hk
      cases hk
    have hidle := h.alone i (by rw [hi]; rfl) k hki (h.caller_ne hk)
    rw [hk] at hidle
    cases hidle

/-- What a step does to the mutex agrees with what the thread knows of it afterwards. -/
structure Passes (c : Config ι (Shared ι) Local) (i : ι) (s : Shared ι) (l : Local) : Prop where
  /-- The mutex neither goes to another thread nor leaves one. -/
  others : ∀ j, j ≠ i → (s.condMutex = some j ↔ c.shared.condMutex = some j)
  /-- It has the thread as its owner if the thread says so. -/
  owns : l.owns = true ↔ s.condMutex = some i

omit [DecidableEq ι] in
theorem Inv.keeps (h : Inv w c) (hl₀ : c.locals i = l₀) (hs : s.condMutex = c.shared.condMutex)
    (howns : l.owns = l₀.owns) : Passes c i s l where
  others j _ := by rw [hs]
  owns := by rw [hs, howns, ← hl₀, (h.place i).owns]

omit [DecidableEq ι] in
theorem takes (hfree : c.shared.condMutex = none) (hs : s.condMutex = some i)
    (howns : l.owns = true) : Passes c i s l where
  others j hj := by
    rw [hs, hfree]
    exact iff_of_false (fun he => hj (Option.some.inj he).symm) nofun
  owns := iff_of_true howns hs

omit [DecidableEq ι] in
theorem Inv.gives (h : Inv w c) (hl₀ : c.locals i = l₀) (hl₀' : l₀.owns = true)
    (hs : s.condMutex = none) (howns : l.owns = false) : Passes c i s l where
  others j hj := by
    rw [hs, (h.place i).owns.mp (hl₀ ▸ hl₀')]
    exact iff_of_false nofun fun he => hj (Option.some.inj he).symm
  owns := by
    rw [hs, howns]
    exact iff_of_false nofun nofun

/-- **A step of the thread of the queue.** -/
theorem Inv.worker_move (h : Inv w c) {pc pc' : WorkerPc} (hl₀ : c.locals w = .worker pc)
    (hpc : pc ≠ .ended) (hmutex : Passes c w s (.worker pc'))
    (hended : s.ended = true ↔ pc' = .ended) (hfreed : s.freed = c.shared.freed)
    (hfires : ∀ now, s.queue.control = .firing now → (Local.worker pc').Fires)
    (hclosing : s.queue.control.Closing → c.shared.queue.control.Closing) :
    Inv w (c.move w s (.worker pc')) := by
  have hne : c.locals w ≠ .worker .ended := fun he => hpc (Local.worker.inj (hl₀.symm.trans he))
  have hstays : c.shared.freed = false := h.not_freed (by rw [hl₀]; nofun) hne
  have hgoes : c.shared.ended ≠ true := fun he => hne (((h.place w).ended rfl).mp he)
  refine h.move ⟨iff_of_true ⟨pc', rfl⟩ rfl, hmutex.owns, fun _ => ?_, fun _ => hfires, nofun,
    fun hs => ?_⟩ hmutex.others (fun hw => absurd rfl hw) (fun he => absurd he hgoes)
    (fun hw => absurd rfl hw) (fun hs => .inl (hfreed ▸ hs)) (fun hs => hfreed.trans hs) nofun
    (fun hw => absurd rfl hw) fun hs => .inr (.inr ⟨hclosing hs, by rw [hl₀]; nofun⟩)
  · rw [hended, Local.worker.injEq]
  · rw [hfreed, hstays] at hs
    cases hs

/-- **One that leaves the lists alone, and does not end it.** -/
theorem Inv.worker_quiet (h : Inv w c) {pc pc' : WorkerPc} (hl₀ : c.locals w = .worker pc)
    (hpc : pc ≠ .ended) (hpc' : pc' ≠ .ended) (hmutex : Passes c w s (.worker pc'))
    (hqueue : s.queue = c.shared.queue) (hended : s.ended = c.shared.ended)
    (hfreed : s.freed = c.shared.freed)
    (hfires : (Local.worker pc).Fires → c.shared.queue.control = .idle) :
    Inv w (c.move w s (.worker pc')) := by
  refine h.worker_move hl₀ hpc hmutex ?_ hfreed (fun now hnow => ?_) fun hs => ?_
  · rw [hended, (h.place w).ended rfl, hl₀, Local.worker.injEq]
    exact iff_of_false hpc hpc'
  · rw [hqueue] at hnow
    have hidle := hfires (hl₀ ▸ (h.place w).fires rfl now hnow)
    rw [hidle] at hnow
    cases hnow
  · rwa [hqueue] at hs

/-- **A step of another thread**, before the queue is freed. -/
theorem Inv.caller_move (h : Inv w c) {pc pc' : CallerPc} (hl₀ : c.locals i = .caller pc)
    (hpc : pc ≠ .idle) (hmutex : Passes c i s (.caller pc')) (hended : s.ended = c.shared.ended)
    (hfreed : s.freed = c.shared.freed)
    (hjoined : pc' = .release → s.ended = true)
    (hdestroys : (Local.caller pc').destroys = (Local.caller pc).destroys)
    (hfires : ∀ now, s.queue.control = .firing now → c.shared.queue.control = .firing now)
    (hclosing : s.queue.control.Closing →
      pc' = .release ∨ c.shared.queue.control.Closing ∧ pc ≠ .release) :
    Inv w (c.move i s (.caller pc')) := by
  have hiw : i ≠ w := h.caller_ne hl₀
  have hne : c.locals i ≠ .caller .idle := fun he => hpc (Local.caller.inj (hl₀.symm.trans he))
  have hstays : c.shared.freed = false := h.not_freed hne (by rw [hl₀]; nofun)
  refine h.move ⟨iff_of_false nofun hiw, hmutex.owns, fun hi => absurd hi hiw,
    fun hi => absurd hi hiw, fun hl => hjoined (Local.caller.inj hl), fun hs => ?_⟩ hmutex.others
    (fun _ => hended) (fun he => hended.trans he) (fun _ => hfires) (fun hs => .inl (hfreed ▸ hs))
    (fun hs => hfreed.trans hs) (fun hl => .inl ?_) (fun _ => .inr (.inl hne)) fun hs => .inr ?_
  · rw [hfreed, hstays] at hs
    cases hs
  · rw [hl₀, ← hdestroys]
    exact hl
  · rcases hclosing hs with rfl | ⟨hold, hpc⟩
    · exact .inl rfl
    · exact .inr ⟨hold, fun he => hpc (Local.caller.inj (hl₀.symm.trans he))⟩

/-- **One that leaves the lists alone.** -/
theorem Inv.caller_quiet (h : Inv w c) {pc pc' : CallerPc} (hl₀ : c.locals i = .caller pc)
    (hpc : pc ≠ .idle ∧ pc ≠ .release) (hpc' : pc' ≠ .release)
    (hmutex : Passes c i s (.caller pc')) (hqueue : s.queue.control = c.shared.queue.control)
    (hended : s.ended = c.shared.ended) (hfreed : s.freed = c.shared.freed)
    (hdestroys : (Local.caller pc').destroys = (Local.caller pc).destroys) :
    Inv w (c.move i s (.caller pc')) :=
  h.caller_move hl₀ hpc.1 hmutex hended hfreed (fun he => absurd he hpc') hdestroys
    (fun _ hnow => hqueue ▸ hnow) fun hs => .inr ⟨hqueue ▸ hs, hpc.2⟩

/-- **A call**, if the queue is used as it should be. -/
theorem Inv.call (h : Inv w c) {call : Call} (hl₀ : c.locals i = .caller .idle)
    (hproper : Proper w c (i, .call call)) : Inv w (c.move i c.shared (.caller (.lock call))) := by
  obtain ⟨hfreed, hno, halone⟩ := hproper
  have hiw : i ≠ w := h.caller_ne hl₀
  have hmutex : Passes c i c.shared (.caller (.lock call)) := h.keeps hl₀ rfl rfl
  refine h.move ⟨iff_of_false nofun hiw, hmutex.owns, fun hi => absurd hi hiw,
    fun hi => absurd hi hiw, nofun, fun hs => ?_⟩ hmutex.others (fun _ => rfl) id (fun _ _ => id)
    .inl id (fun hl => .inr (halone (of_decide_eq_true hl))) (fun _ => .inr (.inr hno))
    fun hs => .inr (.inr ⟨hs, by rw [hl₀]; nofun⟩)
  rw [hfreed] at hs
  cases hs

/-- **The queue is freed** when nobody else is at it. -/
theorem Inv.free_queue (h : Inv w c) (hl₀ : c.locals i = .caller .release) :
    Inv w (c.move i { c.shared with freed := true } (.caller .idle)) := by
  have hiw : i ≠ w := h.caller_ne hl₀
  have hmutex : Passes c i { c.shared with freed := true } (.caller .idle) := h.keeps hl₀ rfl rfl
  have hothers : ∀ j, j ≠ i → c.locals j = .worker .ended ∨ c.locals j = .caller .idle := by
    intro j hj
    by_cases hjw : j = w
    · subst hjw
      exact .inl (((h.place j).ended rfl).mp ((h.place i).joined hl₀))
    · exact .inr (h.alone i (by rw [hl₀]; rfl) j hj hjw)
  exact h.move ⟨iff_of_false nofun hiw, hmutex.owns, fun hi => absurd hi hiw,
    fun hi => absurd hi hiw, nofun, fun _ => .inr rfl⟩ hmutex.others (fun _ => rfl) id
    (fun _ _ => id) (fun _ => .inr hothers) (fun _ => rfl) nofun (fun _ => .inl rfl)
    fun _ => .inl rfl

/-- **Every step keeps the invariant.** -/
theorem Inv.step (h : Inv w c) (hproper : Proper w c (i, x))
    (hfault : c.shared.queue.control.isFaulted = false) {l₀ : Local} (hl₀ : c.locals i = l₀)
    (hs : Step i c.shared l₀ x s l) : Inv w (c.move i s l) := by
  have hworker : ∀ pc, l₀ = .worker pc → i = w := fun pc hpc =>
    (h.place i).role.mp ⟨pc, hl₀.trans hpc⟩
  cases hs
  case lock hfree =>
    obtain rfl := hworker _ rfl
    exact h.worker_quiet hl₀ nofun nofun (takes hfree rfl rfl) rfl rfl rfl nofun
  case clock tval =>
    obtain rfl := hworker _ rfl
    exact h.worker_quiet hl₀ nofun nofun (h.keeps hl₀ rfl rfl) rfl rfl rfl nofun
  case deadline currentTime timeout hdeadline =>
    obtain rfl := hworker _ rfl
    exact h.worker_quiet hl₀ nofun nofun (h.keeps hl₀ rfl rfl) rfl rfl rfl nofun
  case deadlineFault currentTime f hf =>
    obtain rfl := hworker _ rfl
    refine h.worker_move hl₀ nofun (h.keeps hl₀ rfl rfl) ?_ rfl (fun _ => nofun) nofun
    rw [(h.place i).ended rfl, hl₀]
    exact iff_of_false nofun nofun
  case wait currentTime timeout =>
    obtain rfl := hworker _ rfl
    exact h.worker_quiet hl₀ nofun nofun (h.gives hl₀ rfl rfl rfl) rfl rfl rfl nofun
  case wake currentTime timeout status =>
    obtain rfl := hworker _ rfl
    exact h.worker_quiet hl₀ nofun nofun (h.keeps hl₀ rfl rfl) rfl rfl rfl nofun
  case relock status hfree =>
    obtain rfl := hworker _ rfl
    exact h.worker_quiet hl₀ nofun nofun (takes hfree rfl rfl) rfl rfl rfl nofun
  case fire status tval =>
    obtain rfl := hworker _ rfl
    have hclosing : ¬(fireExpiredTimerQueueTimers c.shared.queue tval).control.Closing := by
      unfold fireExpiredTimerQueueTimers
      dsimp only
      split <;> exact id
    refine h.worker_move hl₀ nofun (h.keeps hl₀ rfl rfl) ?_ rfl (fun _ _ => trivial) fun hs =>
      absurd hs hclosing
    rw [(h.place i).ended rfl, hl₀]
    exact iff_of_false nofun nofun
  case fireTurn status now hnow =>
    obtain rfl := hworker _ rfl
    refine h.worker_move hl₀ nofun (h.keeps hl₀ rfl rfl) ?_ rfl (fun _ _ => trivial) fun hs =>
      absurd hs (fireTurn_control hnow)
    rw [(h.place i).ended rfl, hl₀]
    exact iff_of_false nofun nofun
  case fired status hidle =>
    obtain rfl := hworker _ rfl
    exact h.worker_quiet hl₀ nofun nofun (h.keeps hl₀ rfl rfl) rfl rfl rfl fun _ => hidle
  case unlock status =>
    obtain rfl := hworker _ rfl
    exact h.worker_quiet hl₀ nofun nofun (h.gives hl₀ rfl rfl rfl) rfl rfl rfl nofun
  case leave status htest =>
    obtain rfl := hworker _ rfl
    refine h.worker_move hl₀ nofun (h.keeps hl₀ rfl rfl) (iff_of_true rfl rfl) rfl
      (fun _ hnow => ?_) id
    have hfires := (h.place i).fires rfl _ hnow
    rw [hl₀] at hfires
    exact hfires.elim
  case again status htest =>
    obtain rfl := hworker _ rfl
    exact h.worker_quiet hl₀ nofun nofun (h.keeps hl₀ rfl rfl) rfl rfl rfl nofun
  case call call => exact h.call hl₀ hproper
  case callerLock call hfree =>
    exact h.caller_quiet hl₀ ⟨nofun, nofun⟩ nofun (takes hfree rfl rfl) rfl rfl rfl rfl
  case body call hadm =>
    have hcontrol := Control.at_rest (body_control call (h.control_of_body hl₀ hfault))
    exact h.caller_move hl₀ nofun (h.keeps hl₀ rfl rfl) rfl rfl nofun rfl
      (fun now hnow => absurd hnow (hcontrol.2 now)) fun hs => absurd hs hcontrol.1
  case signal call =>
    exact h.caller_quiet hl₀ ⟨nofun, nofun⟩ nofun (h.keeps hl₀ rfl rfl) rfl rfl rfl rfl
  case callerUnlock call =>
    have howns : (Local.caller call.afterUnlock).owns = false := by cases call <;> rfl
    have hrelease : call.afterUnlock ≠ .release := by cases call <;> nofun
    have hdestroys : (Local.caller call.afterUnlock).destroys =
        (Local.caller (.unlock call)).destroys := by cases call <;> rfl
    exact h.caller_quiet hl₀ ⟨nofun, nofun⟩ hrelease (h.gives hl₀ rfl rfl howns) rfl rfl rfl
      hdestroys
  case free timer =>
    exact h.caller_quiet hl₀ ⟨nofun, nofun⟩ nofun (h.keeps hl₀ rfl rfl) rfl rfl rfl rfl
  case join hjoin =>
    exact h.caller_move hl₀ nofun (h.keeps hl₀ rfl rfl) rfl rfl (fun _ => hjoin) rfl
      (fun _ => nofun) fun _ => .inl rfl
  case move node hnode =>
    exact h.caller_move hl₀ nofun (h.keeps hl₀ rfl rfl) rfl rfl
      (fun _ => (h.place i).joined hl₀) rfl
      (fun now hnow => absurd hnow (moveTurn_control _ node now)) fun _ => .inl rfl
  case release node hnode =>
    exact h.caller_move hl₀ nofun (h.keeps hl₀ rfl rfl) rfl rfl
      (fun _ => (h.place i).joined hl₀) rfl
      (fun now hnow => absurd hnow (freeTurn_control _ node now)) fun _ => .inl rfl
  case freed => exact h.free_queue hl₀

/-- **The invariant holds in every state of every interleaving.** -/
theorem inv_of_reaches {ok : Config ι (Shared ι) Local → ι × Choice → Prop}
    (h : ReachesIf (threadStep next) ok (start w) c) (hok : ∀ c e, ok c e → Proper w c e) :
    Inv w c := by
  refine invariant h (inv_start w) fun d i x s l hd hstep hn => ?_
  obtain ⟨hfault, hs⟩ := step_of_next hn
  exact hd.step (hok d (i, x) hstep) hfault rfl hs

omit [DecidableEq ι] in
/-- Beside a thread that takes the lists apart nobody has the mutex. -/
theorem Inv.not_owns_of_release (h : Inv w c) (hi : c.locals i = .caller .release) (hj : j ≠ i) :
    (c.locals j).owns = false := by
  by_cases hjw : j = w
  · subst hjw
    rw [((h.place j).ended rfl).mp ((h.place i).joined hi)]
    rfl
  · rw [h.alone i (by rw [hi]; rfl) j hj hjw]
    rfl

/-- **One at a time**: in every interleaving of the thread of a queue with any number of callers,
at most one thread has the mutex or takes the lists apart. When the queue has been freed, nobody
takes another step – the thread of the queue has returned, and nobody else is in a function. -/
theorem exclusive (h : ReachesIf (threadStep next) (Proper w) (start w) c) :
    (∀ i j, (c.locals i).AtQueue → (c.locals j).AtQueue → i = j) ∧
      (c.shared.freed = true → ∀ e, Proper w c e → threadStep next c e = none) := by
  have hinv := inv_of_reaches h fun _ _ hok => hok
  constructor
  · intro i j hi hj
    by_contra hij
    rcases hi with hi | hi
    · rcases hj with hj | hj
      · -- the mutex has one owner
        have hsame := ((hinv.place i).owns.mp hi).symm.trans ((hinv.place j).owns.mp hj)
        exact hij (Option.some.inj hsame)
      · rw [hinv.not_owns_of_release hj hij] at hi
        cases hi
    · rcases hj with hj | hj
      · rw [hinv.not_owns_of_release hi fun hji => hij hji.symm] at hj
        cases hj
      · have hidle := hinv.alone i (by rw [hi]; rfl) j (fun hji => hij hji.symm)
          (hinv.caller_ne hj)
        rw [hj] at hidle
        cases hidle
  · rintro hfreed ⟨i, x⟩ hproper
    cases hstep : threadStep next c (i, x) with
    | none => rfl
    | some c' =>
      exfalso
      obtain ⟨s, l, hn, -⟩ := threadStep_eq_some.mp hstep
      obtain ⟨-, hs⟩ := step_of_next hn
      rcases (hinv.place i).freed hfreed with hl | hl
      · rw [hl] at hs
        cases hs
      · rw [hl] at hs
        cases hs with
        | call call =>
          have hno := hproper.1
          rw [hfreed] at hno
          cases hno

end Invariant

/-! ### A queue with one timer -/

/-- Thread `1` creates a timer, which fires, and deletes the queue. -/
def createFireDestroy : List (Fin 2 × Choice) :=
  [[(1, .call (.create 7 midnight 0 0))], List.replicate 4 (1, .go),
    [(0, .go), (0, .clock midnight), (0, .go), (0, .go), (0, .wake .timedOut), (0, .go),
      (0, .clock midnight)], List.replicate 5 (0, .go),
    [(1, .call .destroy)], List.replicate 4 (1, .go),
    [(0, .go), (0, .clock midnight), (0, .go), (0, .go), (0, .wake .timedOut), (0, .go),
      (0, .clock midnight)], List.replicate 3 (0, .go), List.replicate 5 (1, .go)].flatten

theorem exclusive_createFireDestroy :
    ∃ c, run (threadStep next) (start (0 : Fin 2)) createFireDestroy = some c ∧
      c.shared.queue.fired = [7] ∧ c.shared.freed = true ∧
      ∀ e, Proper 0 c e → threadStep next c e = none := by
  have hrun : run (threadStep next) (start (0 : Fin 2)) createFireDestroy = some _ :=
    run_eq_final (by decide +kernel)
  refine ⟨_, hrun, by decide +kernel, by decide +kernel, ?_⟩
  exact (exclusive (reachesIf_of_run createFireDestroy (by decide +kernel) hrun)).2
    (by decide +kernel)

end Timer

end Libuzi
