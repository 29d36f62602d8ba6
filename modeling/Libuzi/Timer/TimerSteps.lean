import Libuzi.Timer.TimerRemoval
import Mathlib.Data.List.Perm.Subperm

/-!
# What one step does to the two lists

A queue is *sound* with lists `A` and `I` (`Timer.Queued`) when its two heads start
disjoint null-terminated lists with these nodes, and the timers in memory are the ones
created and not deleted. `Timer.Effect` says what a step does to the lists, to the
timers and to the record of the queue, and `Timer.step_effect` that every step of a
sound queue does that, and leaves the queue sound – as long as no timer is deleted
while it is on the inactive list, where `DeleteTimerQueueTimer` does not look.
-/

namespace Libuzi

open Runs Chain

namespace Timer

/-- **The heads start disjoint null-terminated lists of timers of the queue.** -/
structure Queued (s : Queue) (A I : List Addr) : Prop where
  /-- The active list. -/
  active : Path s.heap.link s.activeHead A none
  /-- The inactive list. -/
  inactive : Path s.heap.link s.inactiveHead I none
  /-- No timer is on both. -/
  disjoint : A.Disjoint I
  /-- The timers in memory are those created and not deleted. -/
  live : ∀ a, (s.heap a).isSome = true ↔ s.Live a
  /-- No address is allocated twice. -/
  nodup : s.allocated.Nodup
  /-- Only timers of the queue are deleted. -/
  deleted : ∀ a ∈ s.deleted, a ∈ s.allocated

/-- A timer as `CreateTimerQueueTimer` makes it. -/
def freshTimer (dueTime period : UInt32) (startTime : Timespec) : QueueTimer :=
  { dueTime := dueTime, period := period, fireCount := 0, startTime := startTime,
    expirationTime := startTime, next := none }

/-- A timer as `ChangeTimerQueueTimer` leaves it. -/
def QueueTimer.rescheduled (t : QueueTimer) (dueTime period : UInt32) (startTime : Timespec) :
    QueueTimer :=
  { t with
    dueTime := dueTime, period := period, startTime := startTime, expirationTime := startTime,
    next := none }

/-- A periodic timer as `FireExpiredTimerQueueTimers` leaves it. -/
def QueueTimer.rearmed (t : QueueTimer) : QueueTimer :=
  { t with
    fireCount := t.fireCount + 1, expirationTime := timespecAddMs t.expirationTime t.period,
    next := none }

/-- A timer that fires once, as `FireExpiredTimerQueueTimers` leaves it. -/
def QueueTimer.spent (t : QueueTimer) : QueueTimer :=
  { t with fireCount := t.fireCount + 1, next := none }

/-- **What a step does to the lists, the timers and the record.** -/
inductive Effect (s : Queue) (A I : List Addr) : Label → Queue → List Addr → List Addr → Prop
  /-- A new timer is put on the active list. -/
  | create (timer : Addr) (tval : Timeval) (dueTime period : UInt32) (h' : Heap)
      (p : Option Addr) (hidle : s.control = .idle) (hnew : timer ∉ s.allocated)
      (hcore : h'.core = Function.update s.heap.core timer
        (some (freshTimer dueTime period
          (timespecAddMs (timespecGettimeofday tval) dueTime)))) :
      Effect s A I (.create timer tval dueTime period)
        { s with
          heap := h'
          activeHead := p
          created := ⟨timer, timespecGettimeofday tval, dueTime, period⟩ :: s.created }
        (insertAt (s.heap.stops (timespecAddMs (timespecGettimeofday tval) dueTime)) timer A) I
  /-- A timer is taken off the list it is on, and put on the active list. -/
  | change (timer : Addr) (tval : Timeval) (dueTime period : UInt32) (t : QueueTimer) (h' : Heap)
      (p q : Option Addr) (hidle : s.control = .idle) (hlive : s.Live timer)
      (ht : s.heap timer = some t)
      (hcore : h'.core = Function.update s.heap.core timer
        (some (t.rescheduled dueTime period
          (timespecAddMs (timespecGettimeofday tval) dueTime)))) :
      Effect s A I (.change timer tval dueTime period)
        { s with heap := h', activeHead := p, inactiveHead := q }
        (insertAt (s.heap.stops (timespecAddMs (timespecGettimeofday tval) dueTime)) timer
          (A.erase timer))
        (I.erase timer)
  /-- The clock is read, and the loop entered if there is an active timer. -/
  | fire (tval : Timeval) (hidle : s.control = .idle) :
      Effect s A I (.fire tval)
        { s with
          control := if A = [] then .idle else .firing (timespecGettimeofday tval)
          fireTimes := timespecGettimeofday tval :: s.fireTimes }
        A I
  /-- The first active timer is periodic and has expired: it fires, and is put back. -/
  | rearm (a : Addr) (A' : List Addr) (now : Timespec) (t : QueueTimer) (h' : Heap)
      (p : Option Addr) (hfiring : s.control = .firing now) (hA : A = a :: A')
      (ht : s.heap a = some t) (hexpired : 0 ≤ timespecCompare now t.expirationTime)
      (hperiod : t.period ≠ 0)
      (hcore : h'.core = Function.update s.heap.core a (some t.rearmed)) :
      Effect s A I .turn { s with heap := h', activeHead := p, fired := a :: s.fired }
        (insertAt (s.heap.stops (timespecAddMs t.expirationTime t.period)) a A') I
  /-- The first active timer fires once and has expired: it fires, and is put on the
  inactive list. -/
  | spend (a : Addr) (A' : List Addr) (now : Timespec) (t : QueueTimer) (h' : Heap)
      (p q : Option Addr) (hfiring : s.control = .firing now) (hA : A = a :: A')
      (ht : s.heap a = some t) (hexpired : 0 ≤ timespecCompare now t.expirationTime)
      (hperiod : t.period = 0)
      (hcore : h'.core = Function.update s.heap.core a (some t.spent)) :
      Effect s A I .turn
        { s with heap := h', activeHead := p, inactiveHead := q, fired := a :: s.fired }
        A' (insertAt (s.heap.stops t.expirationTime) a I)
  /-- No active timer, or the first one has not expired: the loop ends. -/
  | finish (now : Timespec) (hfiring : s.control = .firing now)
      (hend : ∀ a A' t, A = a :: A' → s.heap a = some t →
        timespecCompare now t.expirationTime < 0) :
      Effect s A I .turn { s with control := .idle } A I
  /-- A timer that is not on the inactive list is taken off the active one, and freed. -/
  | delete (timer : Addr) (h' : Heap) (p : Option Addr) (hidle : s.control = .idle)
      (hlive : s.Live timer) (hI : timer ∉ I)
      (hcore : h'.core = Function.update s.heap.core timer none) :
      Effect s A I (.delete timer)
        { s with heap := h', activeHead := p, deleted := timer :: s.deleted }
        (A.erase timer) I

/-! ### Two lists in one heap -/

section Pair

variable {h : Heap} {p q : Option Addr} {X Y : List Addr} {timer : Addr} {t : QueueTimer}
  {fuel : ℕ}

/-- A list does not notice what happens elsewhere. -/
theorem path_update (hp : Path h.link p X none) (hX : timer ∉ X) (u : Option QueueTimer) :
    Path (Heap.link (Function.update h timer u)) p X none := by
  refine path_congr_heap hp fun a ha => Function.update_of_ne ?_ ..
  rintro rfl
  exact hX ha

theorem insertAt_congr {α : Type*} {stop stop' : α → α → Bool} {u : α} {xs : List α}
    (hs : ∀ a ∈ xs, ∀ b ∈ xs, stop a b = stop' a b) :
    insertAt stop u xs = insertAt stop' u xs := by
  induction xs using insertAt.induct stop with
  | case1 => rfl
  | case2 => rfl
  | case3 a b xs hstop =>
    have hab := hs a List.mem_cons_self b (List.mem_cons_of_mem a List.mem_cons_self)
    rw [insertAt, insertAt, ← hab, if_pos hstop, if_pos hstop]
  | case4 a b xs hstop ih =>
    have hab := hs a List.mem_cons_self b (List.mem_cons_of_mem a List.mem_cons_self)
    rw [insertAt, insertAt, ← hab, if_neg hstop, if_neg hstop, ih fun c hc d hd => ?_]
    exact hs c (List.mem_cons_of_mem a hc) d (List.mem_cons_of_mem a hd)

/-- Where the loop stops depends only on the timers of the list. -/
theorem insertAt_stops_congr {h' : Heap} {e : Timespec} {u : Addr} {xs : List Addr}
    (hh : ∀ a ∈ xs, h'.core a = h.core a) :
    insertAt (h'.stops e) u xs = insertAt (h.stops e) u xs := by
  refine insertAt_congr fun a ha b hb => ?_
  rw [← Heap.stops_core, ← Heap.stops_core (h := h), Heap.stops, hh a ha, hh b hb, Heap.stops]

/-- Inserting into one list leaves the other as it is. -/
theorem insert_pair (hX : Path h.link p X none) (hY : Path h.link q Y none)
    (hXY : X.Disjoint Y) (ht : h timer = some t) (hmX : timer ∉ X) (hmY : timer ∉ Y)
    (hfuel : X.length ≤ fuel) :
    ∃ h' p', insertTimerQueueTimer fuel h p timer = .ok (h', p') ∧
      Path h'.link p' (insertAt (h.stops t.expirationTime) timer X) none ∧
      Path h'.link q Y none ∧ h'.core = h.core := by
  obtain ⟨h', p', hins, hpath, hframe, hcore⟩ := insertTimerQueueTimer_spec hX ht hmX hfuel
  refine ⟨h', p', hins, hpath, path_congr_heap hY fun a ha => hframe a ?_ ?_, hcore⟩
  · rintro rfl
    exact hmY ha
  · exact fun haX => hXY haX ha

/-- Removing from one list leaves the other as it is. -/
theorem remove_pair (timer : Addr) (hX : Path h.link p X none) (hY : Path h.link q Y none)
    (hXY : X.Disjoint Y) (hfuel : X.length ≤ fuel) :
    ∃ h' p', removeTimerQueueTimer fuel h p timer = .ok (h', p') ∧
      Path h'.link p' (X.erase timer) none ∧ Path h'.link q Y none ∧ h'.core = h.core := by
  obtain ⟨h', p', hrem, hr⟩ := removeTimerQueueTimer_spec timer hX hfuel
  refine ⟨h', p', hrem, hr.list, path_congr_heap hY fun a ha => hr.outside a ?_, hr.core⟩
  exact fun haX => hXY haX ha

end Pair

/-! ### The timers in memory -/

section Memory

variable {h h' : Heap} {a : Addr} {t t' : QueueTimer}

theorem Heap.isSome_core : (h.core a).isSome = (h a).isSome := Option.isSome_map

theorem Heap.core_update (t : Option QueueTimer) :
    Heap.core (Function.update h a t) =
      Function.update h.core a (t.map fun t => { t with next := none }) := by
  funext b
  rcases eq_or_ne b a with rfl | hb
  · rw [Heap.core, Function.update_self, Function.update_self]
  · rw [Heap.core, Function.update_of_ne hb, Function.update_of_ne hb, Heap.core]

theorem Heap.modify_of_eq (f : QueueTimer → QueueTimer) (ha : h a = some t) :
    h.modify a f = Function.update h a (some (f t)) := by
  rw [Heap.modify, ha, Option.map_some]

theorem Heap.core_of_eq (ha : h a = some t) : h.core a = some { t with next := none } := by
  rw [Heap.core, ha, Option.map_some]

/-- Two heaps with the same timers have timers at the same addresses. -/
theorem Heap.exists_of_core (hc : h'.core = h.core) (ha : h a = some t) :
    ∃ u, h' a = some u ∧ ({ u with next := none } : QueueTimer) = { t with next := none } := by
  have hu : h'.core a = some { t with next := none } := by rw [hc, Heap.core_of_eq ha]
  exact Option.map_eq_some_iff.mp hu

/-- Changing a timer leaves the others, and leaves it, in memory. -/
theorem isSome_of_core_update (hc : h'.core = Function.update h.core a (some t'))
    (ha : (h a).isSome = true) (b : Addr) : (h' b).isSome = (h b).isSome := by
  rw [← Heap.isSome_core, hc]
  rcases eq_or_ne b a with rfl | hb
  · rw [Function.update_self, ha, Option.isSome_some]
  · rw [Function.update_of_ne hb, Heap.isSome_core]

end Memory

/-- **A timer that has just been written is put on one list**, and the other stays as it is. -/
theorem insert_written {h : Heap} {p q : Option Addr} {X Y : List Addr} {a : Addr} {fuel : ℕ}
    (t : QueueTimer) (hnext : t.next = none) (hX : Path h.link p X none)
    (hY : Path h.link q Y none) (hXY : X.Disjoint Y) (haX : a ∉ X) (haY : a ∉ Y)
    (hfuel : X.length ≤ fuel) :
    ∃ h' p', insertTimerQueueTimer fuel (Function.update h a (some t)) p a = .ok (h', p') ∧
      Path h'.link p' (insertAt (h.stops t.expirationTime) a X) none ∧
      Path h'.link q Y none ∧ h'.core = Function.update h.core a (some t) := by
  have hwritten : Heap.core (Function.update h a (some t)) =
      Function.update h.core a (some t) := by
    rw [Heap.core_update, Option.map_some, ← hnext]
  obtain ⟨h', p', hins, hX', hY', hcore⟩ := insert_pair (path_update hX haX (some t))
    (path_update hY haY _) hXY (Function.update_self ..) haX haY hfuel
  refine ⟨h', p', hins, ?_, hY', hcore.trans hwritten⟩
  rwa [insertAt_stops_congr (h := h)] at hX'
  intro b hb
  rw [hwritten, Function.update_of_ne (ne_of_mem_of_not_mem hb haX)]

/-! ### The steps -/

section Steps

variable {s s' : Queue} {A I : List Addr} {a : Addr}

theorem Queued.live_of_active (hq : Queued s A I) (ha : a ∈ A) : s.Live a := by
  obtain ⟨r, hr⟩ := hq.active.link_eq_some ha
  obtain ⟨t, ht, -⟩ := Heap.link_eq_some hr
  exact (hq.live a).mp (by rw [ht]; rfl)

theorem Queued.live_of_inactive (hq : Queued s A I) (ha : a ∈ I) : s.Live a := by
  obtain ⟨r, hr⟩ := hq.inactive.link_eq_some ha
  obtain ⟨t, ht, -⟩ := Heap.link_eq_some hr
  exact (hq.live a).mp (by rw [ht]; rfl)

/-- The first active timer is nowhere else. -/
theorem Queued.head_notMem (hq : Queued s (a :: A) I) : a ∉ A ∧ a ∉ I :=
  ⟨(List.nodup_cons.mp hq.active.nodup).1, fun h => hq.disjoint List.mem_cons_self h⟩

/-- A list of timers of the queue is no longer than the record of their creation. -/
theorem length_le_created {X : List Addr} (hX : X.Nodup) (hsub : ∀ a ∈ X, a ∈ s.allocated) :
    X.length ≤ s.created.length := by
  have hle := (hX.subperm hsub).length_le
  rwa [Queue.allocated, List.length_map] at hle

theorem Queued.active_length_le (hq : Queued s A I) : A.length ≤ s.created.length :=
  length_le_created hq.active.nodup fun _ ha => (hq.live_of_active ha).1

theorem Queued.inactive_length_le (hq : Queued s A I) : I.length ≤ s.created.length :=
  length_le_created hq.inactive.nodup fun _ ha => (hq.live_of_inactive ha).1

theorem disjoint_insertAt {X Y : List Addr} {stop : Addr → Addr → Bool} (h : X.Disjoint Y)
    (ha : a ∉ Y) : (insertAt stop a X).Disjoint Y := by
  intro b hb hbY
  rcases mem_of_mem_insertAt hb with rfl | hbX
  · exact ha hbY
  · exact h hbX hbY

theorem disjoint_erase {X Y : List Addr} (h : X.Disjoint Y) : (X.erase a).Disjoint Y :=
  fun _ hb hbY => h (List.mem_of_mem_erase hb) hbY

theorem create_effect (hq : Queued s A I) {timer : Addr} {tval : Timeval}
    {dueTime period : UInt32} (hidle : s.control = .idle) (hnew : timer ∉ s.allocated) :
    ∃ A' I', Queued (s.settle (createTimerQueueTimer s timer tval dueTime period)) A' I' ∧
      Effect s A I (.create timer tval dueTime period)
        (s.settle (createTimerQueueTimer s timer tval dueTime period)) A' I' := by
  have hA : timer ∉ A := fun h => hnew (hq.live_of_active h).1
  have hI : timer ∉ I := fun h => hnew (hq.live_of_inactive h).1
  obtain ⟨h', p', hins, hactive, hinactive, hcore⟩ :=
    insert_written (freshTimer dueTime period
        (timespecAddMs (timespecGettimeofday tval) dueTime)) rfl
      hq.active hq.inactive hq.disjoint hA hI (Nat.le_succ_of_le hq.active_length_le)
  have hcall : createTimerQueueTimer s timer tval dueTime period = .ok
      { s with
        heap := h'
        activeHead := p'
        created := ⟨timer, timespecGettimeofday tval, dueTime, period⟩ :: s.created } := by
    rw [freshTimer] at hins
    rw [createTimerQueueTimer, hins]
    rfl
  rw [hcall]
  refine ⟨_, I, ⟨hactive, hinactive, disjoint_insertAt hq.disjoint hI, fun b => ?_, ?_, ?_⟩,
    .create timer tval dueTime period h' p' hidle hnew hcore⟩
  · change (h' b).isSome = true ↔ b ∈ timer :: s.allocated ∧ b ∉ s.deleted
    rw [← Heap.isSome_core, hcore, List.mem_cons]
    rcases eq_or_ne b timer with rfl | hb
    · rw [Function.update_self]
      exact iff_of_true rfl ⟨Or.inl rfl, fun hd => hnew (hq.deleted b hd)⟩
    · rw [Function.update_of_ne hb, Heap.isSome_core, hq.live b, Queue.Live, or_iff_right hb]
  · exact List.nodup_cons.mpr ⟨hnew, hq.nodup⟩
  · exact fun b hb => List.mem_cons_of_mem timer (hq.deleted b hb)

/-- Where no timer comes or goes, the timers in memory are still those created and not
deleted. -/
theorem Queued.of_core_update (hq : Queued s A I) {h' : Heap} {timer : Addr} {t' : QueueTimer}
    {p q : Option Addr} {A' I' fired : List Addr}
    (hcore : h'.core = Function.update s.heap.core timer (some t'))
    (hlive : (s.heap timer).isSome = true) (hactive : Path h'.link p A' none)
    (hinactive : Path h'.link q I' none) (hdis : A'.Disjoint I') :
    Queued { s with heap := h', activeHead := p, inactiveHead := q, fired := fired } A' I' := by
  refine ⟨hactive, hinactive, hdis, fun b => ?_, hq.nodup, hq.deleted⟩
  rw [isSome_of_core_update hcore hlive]
  exact hq.live b

/-- Soundness is about the lists and the timers only. -/
theorem Queued.control (hq : Queued s A I) (c : Control) (fireTimes : List Timespec) :
    Queued { s with control := c, fireTimes := fireTimes } A I :=
  ⟨hq.active, hq.inactive, hq.disjoint, hq.live, hq.nodup, hq.deleted⟩

theorem change_effect (hq : Queued s A I) {timer : Addr} {tval : Timeval}
    {dueTime period : UInt32} (hidle : s.control = .idle) (hlive : s.Live timer) :
    ∃ A' I', Queued (s.settle (changeTimerQueueTimer s timer tval dueTime period)) A' I' ∧
      Effect s A I (.change timer tval dueTime period)
        (s.settle (changeTimerQueueTimer s timer tval dueTime period)) A' I' := by
  have hsome := (hq.live timer).mpr hlive
  obtain ⟨t, ht⟩ := Option.isSome_iff_exists.mp hsome
  obtain ⟨h₁, p₁, q₁, hrem, hr⟩ := removeFromBoth_spec timer hq.active hq.inactive hq.disjoint
    hq.active_length_le hq.inactive_length_le
  obtain ⟨u, hu, hut⟩ := Heap.exists_of_core hr.core ht
  -- The timer differs from the one before the removals in its link, which is overwritten.
  have hutimer : u.rescheduled dueTime period
      (timespecAddMs (timespecGettimeofday tval) dueTime) =
      t.rescheduled dueTime period (timespecAddMs (timespecGettimeofday tval) dueTime) := by
    simp only [QueueTimer.mk.injEq] at hut
    simp [QueueTimer.rescheduled, hut]
  have hA : timer ∉ A.erase timer := hq.active.nodup.not_mem_erase
  have hI : timer ∉ I.erase timer := hq.inactive.nodup.not_mem_erase
  have hdis : (A.erase timer).Disjoint (I.erase timer) :=
    List.disjoint_symm (disjoint_erase (List.disjoint_symm (disjoint_erase hq.disjoint)))
  obtain ⟨h₂, p₂, hins, hA₂, hI₂, hcore⟩ :=
    insert_written (t.rescheduled dueTime period
        (timespecAddMs (timespecGettimeofday tval) dueTime)) rfl
      hr.active hr.inactive hdis hA hI ((List.length_erase_le).trans hq.active_length_le)
  have hcall : changeTimerQueueTimer s timer tval dueTime period = .ok
      { s with heap := h₂, activeHead := p₂, inactiveHead := q₁ } := by
    rw [changeTimerQueueTimer_eq, hrem]
    simp only [bind, Except.bind]
    rw [Heap.modify_of_eq _ hu]
    rw [← hutimer, QueueTimer.rescheduled] at hins
    rw [hins]
  rw [hr.core] at hcore
  have hstops : insertAt (h₁.stops (timespecAddMs (timespecGettimeofday tval) dueTime)) timer
      (A.erase timer) = insertAt (s.heap.stops (timespecAddMs (timespecGettimeofday tval) dueTime))
      timer (A.erase timer) :=
    insertAt_stops_congr fun b _ => congrFun hr.core b
  rw [hcall]
  refine ⟨_, _, hq.of_core_update hcore hsome hA₂ hI₂ (disjoint_insertAt hdis hI), ?_⟩
  rw [QueueTimer.rescheduled, hstops]
  exact .change timer tval dueTime period t h₂ p₂ q₁ hidle hlive ht hcore

/-- A timer that fires once goes on to the inactive list. -/
theorem spend_effect {A' : List Addr} {now : Timespec} {t : QueueTimer}
    (hq : Queued s (a :: A') I) (hfiring : s.control = .firing now) (ht : s.heap a = some t)
    (hexp : 0 ≤ timespecCompare now t.expirationTime) (hper : t.period = 0) :
    ∃ A'' I', Queued (s.settle (fireTurn s now)) A'' I' ∧
      Effect s (a :: A') I .turn (s.settle (fireTurn s now)) A'' I' := by
  obtain ⟨hhead, r, hr, hA'⟩ := hq.active
  obtain rfl : t.next = r := Option.some.inj ((Heap.link_of_eq ht).symm.trans hr)
  obtain ⟨haA, haI⟩ := hq.head_notMem
  have hdis : I.Disjoint A' := fun b hbI hb => hq.disjoint (List.mem_cons_of_mem a hb) hbI
  obtain ⟨h', q', hins, hI', hA'', hcore⟩ :=
    insert_written t.spent rfl hq.inactive hA' hdis haI haA hq.inactive_length_le
  have hcall : fireTurn s now = .ok
      { s with heap := h', activeHead := t.next, inactiveHead := q', fired := a :: s.fired } := by
    simp only [fireTurn, hhead, Heap.load_of_eq ht, bind, Except.bind, if_pos hexp, hper,
      ne_eq, not_true_eq_false, if_false]
    rw [Heap.modify_of_eq _ ht]
    rw [QueueTimer.spent] at hins
    rw [hins]
  rw [hcall]
  refine ⟨A', _, hq.of_core_update hcore (by rw [ht, Option.isSome_some]) hA'' hI' ?_,
    .spend a A' now t h' t.next q' hfiring rfl ht hexp hper hcore⟩
  exact List.disjoint_symm (disjoint_insertAt hdis haA)

/-- A periodic timer goes back on to the active list. -/
theorem rearm_effect {A' : List Addr} {now : Timespec} {t : QueueTimer}
    (hq : Queued s (a :: A') I) (hfiring : s.control = .firing now) (ht : s.heap a = some t)
    (hexp : 0 ≤ timespecCompare now t.expirationTime) (hper : t.period ≠ 0) :
    ∃ A'' I', Queued (s.settle (fireTurn s now)) A'' I' ∧
      Effect s (a :: A') I .turn (s.settle (fireTurn s now)) A'' I' := by
  obtain ⟨hhead, r, hr, hA'⟩ := hq.active
  obtain rfl : t.next = r := Option.some.inj ((Heap.link_of_eq ht).symm.trans hr)
  obtain ⟨haA, haI⟩ := hq.head_notMem
  have hdis : A'.Disjoint I := fun b hb hbI => hq.disjoint (List.mem_cons_of_mem a hb) hbI
  obtain ⟨h', p', hins, hA'', hI', hcore⟩ :=
    insert_written t.rearmed rfl hA' hq.inactive hdis haA haI
      ((Nat.le_succ _).trans hq.active_length_le)
  have hcall : fireTurn s now = .ok
      { s with heap := h', activeHead := p', fired := a :: s.fired } := by
    simp only [fireTurn, hhead, Heap.load_of_eq ht, bind, Except.bind, if_pos hexp, hper,
      ne_eq, not_false_eq_true, if_true]
    rw [Heap.modify_of_eq _ ht, Heap.modify_of_eq _ (Function.update_self ..),
      Function.update_idem]
    rw [QueueTimer.rearmed] at hins
    rw [hins]
  rw [hcall]
  exact ⟨_, I, hq.of_core_update hcore (by rw [ht, Option.isSome_some]) hA'' hI'
    (disjoint_insertAt hdis haI), .rearm a A' now t h' p' hfiring rfl ht hexp hper hcore⟩

theorem fireTurn_effect (hq : Queued s A I) {now : Timespec} (hfiring : s.control = .firing now) :
    ∃ A' I', Queued (s.settle (fireTurn s now)) A' I' ∧
      Effect s A I .turn (s.settle (fireTurn s now)) A' I' := by
  cases A with
  | nil =>
    have hhead : s.activeHead = none := hq.active
    have hcall : fireTurn s now = .ok { s with control := .idle } := by rw [fireTurn, hhead]
    rw [hcall]
    exact ⟨[], I, hq.control .idle s.fireTimes, .finish now hfiring fun _ _ _ h => by cases h⟩
  | cons a A' =>
    obtain ⟨hhead, r, hr, -⟩ := hq.active
    obtain ⟨t, ht, -⟩ := Heap.link_eq_some hr
    by_cases hexp : 0 ≤ timespecCompare now t.expirationTime
    · by_cases hper : t.period = 0
      · exact spend_effect hq hfiring ht hexp hper
      · exact rearm_effect hq hfiring ht hexp hper
    · have hcall : fireTurn s now = .ok { s with control := .idle } := by
        simp only [fireTurn, hhead, Heap.load_of_eq ht, bind, Except.bind, if_neg hexp]
      rw [hcall]
      refine ⟨a :: A', I, hq.control .idle s.fireTimes, .finish now hfiring ?_⟩
      intro b B u hb hu
      obtain ⟨rfl, rfl⟩ := List.cons.inj hb
      obtain rfl := Option.some.inj (ht.symm.trans hu)
      exact not_le.mp hexp

/-- A timer is deleted once its removal from the active list is done. -/
theorem deleteTimerQueueTimer_of_remove {timer : Addr} {h' : Heap} {p' : Option Addr}
    (hrem : removeTimerQueueTimer s.created.length s.heap s.activeHead timer = .ok (h', p')) :
    deleteTimerQueueTimer s timer = .ok
      { s with
        heap := Function.update h' timer none
        activeHead := p'
        deleted := timer :: s.deleted } := by
  rw [deleteTimerQueueTimer, hrem]
  rfl

theorem delete_effect (hq : Queued s A I) {timer : Addr} (hidle : s.control = .idle)
    (hlive : s.Live timer) (hI : timer ∉ I) :
    ∃ A' I', Queued (s.settle (deleteTimerQueueTimer s timer)) A' I' ∧
      Effect s A I (.delete timer) (s.settle (deleteTimerQueueTimer s timer)) A' I' := by
  obtain ⟨h', p', hrem, hA', hI', hcore⟩ :=
    remove_pair timer hq.active hq.inactive hq.disjoint hq.active_length_le
  have hA : timer ∉ A.erase timer := hq.active.nodup.not_mem_erase
  have hcore' : Heap.core (Function.update h' timer none) =
      Function.update s.heap.core timer none := by
    rw [Heap.core_update, hcore]
    rfl
  rw [deleteTimerQueueTimer_of_remove hrem]
  refine ⟨A.erase timer, I, ⟨path_update hA' hA none, path_update hI' hI none,
    disjoint_erase hq.disjoint, fun b => ?_, hq.nodup, ?_⟩,
    .delete timer _ p' hidle hlive hI hcore'⟩
  · change (Function.update h' timer none b).isSome = true ↔
      b ∈ s.allocated ∧ b ∉ timer :: s.deleted
    rw [← Heap.isSome_core, hcore', List.mem_cons, not_or]
    rcases eq_or_ne b timer with rfl | hb
    · rw [Function.update_self]
      exact iff_of_false nofun fun h => h.2.1 rfl
    · rw [Function.update_of_ne hb, Heap.isSome_core, hq.live b, Queue.Live]
      exact and_congr_right fun _ => (and_iff_right hb).symm
  · intro b hb
    rcases List.mem_cons.mp hb with rfl | hb
    · exact hlive.1
    · exact hq.deleted b hb

/-- The queue is not being taken apart, and no call has faulted. -/
def Calm (s : Queue) : Prop := s.control = .idle ∨ ∃ now, s.control = .firing now

/-- **Every step of a sound queue has its effect on the lists, and leaves the queue
sound**, except a deletion of a timer on the inactive list. -/
theorem step_effect (hq : Queued s A I) (hcalm : Calm s) {e : Label} (hdestroy : e ≠ .destroy)
    (hdelete : ∀ timer, e = .delete timer → timer ∉ I) (hs : step s e = some s') :
    ∃ A' I', Queued s' A' I' ∧ Effect s A I e s' A' I' := by
  cases e with
  | create timer tval dueTime period =>
    simp only [step] at hs
    split at hs
    next hok =>
      obtain rfl := Option.some.inj hs
      exact create_effect hq hok.1 hok.2
    next => cases hs
  | change timer tval dueTime period =>
    simp only [step] at hs
    split at hs
    next hok =>
      obtain rfl := Option.some.inj hs
      exact change_effect hq hok.1 hok.2
    next => cases hs
  | fire tval =>
    simp only [step] at hs
    split at hs
    next hidle =>
      obtain rfl := Option.some.inj hs
      have hhead : s.activeHead.isSome = true ↔ ¬A = [] := by
        have hp := hq.active
        cases A with
        | nil =>
          have hnone : s.activeHead = none := hp
          simp [hnone]
        | cons a A => simp [hp.1]
      have heq : fireExpiredTimerQueueTimers s tval =
          { s with
            control := if A = [] then .idle else .firing (timespecGettimeofday tval)
            fireTimes := timespecGettimeofday tval :: s.fireTimes } := by
        rw [fireExpiredTimerQueueTimers]
        simp only [hhead, ite_not]
      rw [heq]
      exact ⟨A, I, hq.control _ _, .fire tval hidle⟩
    next => cases hs
  | delete timer =>
    simp only [step] at hs
    split at hs
    next hok =>
      obtain rfl := Option.some.inj hs
      exact delete_effect hq hok.1 hok.2 (hdelete timer rfl)
    next => cases hs
  | destroy => exact absurd rfl hdestroy
  | turn =>
    obtain hidle | ⟨now, hfiring⟩ := hcalm
    · simp only [step, hidle] at hs
      cases hs
    · simp only [step, hfiring] at hs
      obtain rfl := Option.some.inj hs
      exact fireTurn_effect hq hfiring

theorem Effect.calm {e : Label} {A' I' : List Addr} (he : Effect s A I e s' A' I') : Calm s' := by
  cases he with
  | create timer tval dueTime period h' p hidle => exact Or.inl hidle
  | change timer tval dueTime period t h' p q hidle => exact Or.inl hidle
  | fire tval hidle =>
    by_cases hA : A = []
    · exact Or.inl (if_pos hA)
    · exact Or.inr ⟨_, if_neg hA⟩
  | rearm a A' now t h' p hfiring => exact Or.inr ⟨now, hfiring⟩
  | spend a A' now t h' p q hfiring => exact Or.inr ⟨now, hfiring⟩
  | finish => exact Or.inl rfl
  | delete timer h' p hidle => exact Or.inl hidle

theorem queued_createTimerQueue : Queued createTimerQueue [] [] where
  active := rfl
  inactive := rfl
  disjoint := List.disjoint_nil_left _
  live a := iff_of_false nofun fun h => by cases h.1
  nodup := List.nodup_nil
  deleted _ h := by cases h

end Steps

end Timer

end Libuzi
