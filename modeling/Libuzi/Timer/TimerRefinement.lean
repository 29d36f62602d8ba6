import Libuzi.Timer.TimerDeletion
import Libuzi.Timer.TimerExclusion

/-!
# The threads of a timer queue, one call after the other

`Timer.step` takes the calls on a timer queue one after the other, and a call all at once. This
file shows that the threads do no more than that. There is one thing they do later:
`DeleteTimerQueueTimer` takes a timer off its list under the mutex, and frees it when it has given
the mutex back. In between the timer is still in memory (`Timer.unfreed`), and the queue that the
calls one after the other would have led to is the one in memory without these timers
(`Timer.settled`).

Taking timers away from a heap (`Timer.Heap.hide`) does not change what a function does that never
comes to one of them: if it does not fault without them, it does the same with them. This is
said once for the two walks (`Timer.insertTimerQueueTimer_hide`,
`Timer.removeTimerQueueTimer_hide`), and follows for the rest.

A function that does fault would have had to walk into a timer that has been freed, and the calls
one after the other never do as long as no timer is deleted that is on the inactive list
(`Timer.sound_or_closing`). So every state that the threads reach is one that the calls reach one
after the other (`Timer.timerQueue_refines`).
-/

namespace Libuzi

open Runs Threads Chain

namespace Timer

/-! ### Timers taken away from a heap -/

open Classical in
/-- The heap without the timers at `P`. -/
noncomputable def Heap.hide (P : Set Addr) (h : Heap) : Heap :=
  fun a => if a ∈ P then none else h a

section Hide

variable {P : Set Addr} {h : Heap} {a b timer : Addr} {t : QueueTimer} {fuel : ℕ}
  {p q : Option Addr}

theorem Heap.hide_of_mem (ha : a ∈ P) : h.hide P a = none := if_pos ha

theorem Heap.hide_of_notMem (ha : a ∉ P) : h.hide P a = h a := if_neg ha

theorem Heap.hide_eq_some (ha : h.hide P a = some t) : h a = some t := by
  by_cases hP : a ∈ P
  · rw [hide_of_mem hP] at ha
    cases ha
  · rwa [hide_of_notMem hP] at ha

/-- A timer that is there without those at `P` is there. -/
theorem load_hide (ha : (h.hide P).load a = .ok t) : h.load a = .ok t := by
  unfold Heap.load at ha ⊢
  split at ha
  case h_1 u hu =>
    rw [Heap.hide_eq_some hu]
    exact ha
  case h_2 => cases ha

/-- Writing to a timer, and taking others away. -/
theorem hide_modify (f : QueueTimer → QueueTimer) :
    (h.hide P).modify a f = (h.modify a f).hide P := by
  funext b
  by_cases hb : b ∈ P
  · rw [Heap.hide_of_mem hb, Heap.modify]
    rcases eq_or_ne b a with rfl | hba
    · rw [Function.update_self, Heap.hide_of_mem hb, Option.map_none]
    · rw [Function.update_of_ne hba, Heap.hide_of_mem hb]
  · rw [Heap.hide_of_notMem hb, Heap.modify, Heap.modify]
    rcases eq_or_ne b a with rfl | hba
    · rw [Function.update_self, Function.update_self, Heap.hide_of_notMem hb]
    · rw [Function.update_of_ne hba, Function.update_of_ne hba, Heap.hide_of_notMem hb]

theorem hide_setNext : (h.hide P).setNext a p = (h.setNext a p).hide P := hide_modify _

/-- A timer that is not taken away is written as it would be. -/
theorem hide_update (ha : a ∉ P) (u : Option QueueTimer) :
    Function.update (h.hide P) a u = Heap.hide P (Function.update h a u) := by
  funext b
  rcases eq_or_ne b a with rfl | hba
  · rw [Function.update_self, Heap.hide_of_notMem ha, Function.update_self]
  · rw [Function.update_of_ne hba]
    by_cases hb : b ∈ P
    · rw [Heap.hide_of_mem hb, Heap.hide_of_mem hb]
    · rw [Heap.hide_of_notMem hb, Heap.hide_of_notMem hb, Function.update_of_ne hba]

theorem insertLoop_hide {e : Timespec} (hloop : insertLoop (h.hide P) e fuel a = .ok b) :
    insertLoop h e fuel a = .ok b := by
  induction fuel generalizing a with
  | zero => cases hloop
  | succ fuel ih =>
    obtain ⟨nd, hnd, hloop⟩ := bind_eq_ok hloop
    rw [insertLoop, load_hide hnd]
    simp only [bind, Except.bind]
    cases hnext : nd.next with
    | none =>
      rw [hnext] at hloop
      exact hloop
    | some nodeNext =>
      rw [hnext] at hloop
      dsimp only at hloop ⊢
      split at hloop
      case isTrue hlater =>
        obtain ⟨nn, hnn, hloop⟩ := bind_eq_ok hloop
        rw [if_pos hlater, load_hide hnn]
        dsimp only
        split at hloop
        case isTrue hearlier =>
          rw [if_pos hearlier]
          exact hloop
        case isFalse hearlier =>
          rw [if_neg hearlier]
          exact ih hloop
      case isFalse hlater =>
        rw [if_neg hlater]
        exact ih hloop

/-- **`InsertTimerQueueTimer` does not mind timers that it does not come to.** -/
theorem insertTimerQueueTimer_hide {h' : Heap}
    (hins : insertTimerQueueTimer fuel (h.hide P) p timer = .ok (h', q)) :
    ∃ k, insertTimerQueueTimer fuel h p timer = .ok (k, q) ∧ h' = k.hide P := by
  obtain ⟨t, ht, hins⟩ := bind_eq_ok hins
  rw [insertTimerQueueTimer, load_hide ht]
  simp only [bind, Except.bind]
  cases p with
  | none =>
    obtain ⟨rfl, rfl⟩ := Prod.mk.inj (Except.ok.inj hins)
    exact ⟨_, rfl, hide_setNext⟩
  | some first =>
    obtain ⟨node, hloop, hins⟩ := bind_eq_ok hins
    obtain ⟨nd, hnd, hins⟩ := bind_eq_ok hins
    dsimp only
    rw [insertLoop_hide hloop]
    dsimp only
    rw [load_hide hnd]
    dsimp only
    cases hnext : nd.next with
    | none =>
      rw [hnext] at hins
      obtain ⟨rfl, rfl⟩ := Prod.mk.inj (Except.ok.inj hins)
      exact ⟨_, rfl, by rw [hide_setNext, hide_setNext]⟩
    | some nodeNext =>
      rw [hnext] at hins
      obtain ⟨nn, hnn, hins⟩ := bind_eq_ok hins
      obtain ⟨rfl, rfl⟩ := Prod.mk.inj (Except.ok.inj hins)
      dsimp only
      rw [load_hide hnn]
      exact ⟨_, rfl, by rw [hide_setNext, hide_setNext]⟩

theorem removeLoop_hide {r : Option (Option Addr)}
    (hloop : removeLoop (h.hide P) timer fuel p q = .ok r) :
    removeLoop h timer fuel p q = .ok r := by
  induction fuel generalizing p q with
  | zero =>
    cases p with
    | none => exact hloop
    | some node => cases hloop
  | succ fuel ih =>
    cases p with
    | none => exact hloop
    | some node =>
      rw [removeLoop] at hloop ⊢
      split at hloop
      case isTrue hnode =>
        rw [if_pos hnode]
        exact hloop
      case isFalse hnode =>
        obtain ⟨nd, hnd, hloop⟩ := bind_eq_ok hloop
        rw [if_neg hnode, load_hide hnd]
        exact ih hloop

/-- **Nor does `RemoveTimerQueueTimer`.** -/
theorem removeTimerQueueTimer_hide {h' : Heap}
    (hrem : removeTimerQueueTimer fuel (h.hide P) p timer = .ok (h', q)) :
    ∃ k, removeTimerQueueTimer fuel h p timer = .ok (k, q) ∧ h' = k.hide P := by
  rw [removeTimerQueueTimer] at hrem ⊢
  split at hrem
  case isTrue hhead =>
    obtain ⟨t, ht, hrem⟩ := bind_eq_ok hrem
    obtain ⟨rfl, rfl⟩ := Prod.mk.inj (Except.ok.inj hrem)
    rw [if_pos hhead, load_hide ht]
    exact ⟨_, rfl, hide_setNext⟩
  case isFalse hhead =>
    obtain ⟨found, hfound, hrem⟩ := bind_eq_ok hrem
    rw [if_neg hhead, removeLoop_hide hfound]
    cases found with
    | none =>
      obtain ⟨rfl, rfl⟩ := Prod.mk.inj (Except.ok.inj hrem)
      exact ⟨h, rfl, rfl⟩
    | some prevNode =>
      obtain ⟨t, ht, hrem⟩ := bind_eq_ok hrem
      cases prevNode with
      | none =>
        obtain ⟨rfl, rfl⟩ := Prod.mk.inj (Except.ok.inj hrem)
        simp only [bind, Except.bind, load_hide ht]
        exact ⟨_, rfl, hide_setNext⟩
      | some prev =>
        obtain ⟨rfl, rfl⟩ := Prod.mk.inj (Except.ok.inj hrem)
        simp only [bind, Except.bind, load_hide ht]
        exact ⟨_, rfl, by rw [hide_setNext, hide_setNext]⟩

end Hide

/-! ### Timers taken away from a queue -/

/-- The queue without the timers at `P`. -/
noncomputable def Queue.hiding (P : Set Addr) (q : Queue) : Queue :=
  { q with heap := q.heap.hide P }

section Queues

variable {P P' : Set Addr} {q q' : Queue} {timer : Addr} {tval : Timeval} {dueTime period : UInt32}
  {now : Timespec} {node : Option Addr}

theorem createTimerQueueTimer_hiding (htimer : timer ∉ P)
    (h : createTimerQueueTimer (q.hiding P) timer tval dueTime period = .ok q') :
    ∃ k, createTimerQueueTimer q timer tval dueTime period = .ok k ∧ q' = k.hiding P := by
  obtain ⟨⟨h', p⟩, hins, hr⟩ := bind_eq_ok h
  obtain rfl := Except.ok.inj hr
  simp only [Queue.hiding] at hins
  rw [hide_update htimer] at hins
  obtain ⟨k, hk, rfl⟩ := insertTimerQueueTimer_hide hins
  rw [createTimerQueueTimer, hk]
  exact ⟨_, rfl, rfl⟩

theorem changeTimerQueueTimer_hiding
    (h : changeTimerQueueTimer (q.hiding P) timer tval dueTime period = .ok q') :
    ∃ k, changeTimerQueueTimer q timer tval dueTime period = .ok k ∧ q' = k.hiding P := by
  obtain ⟨⟨h₁, p₁⟩, hrem, h⟩ := bind_eq_ok h
  obtain ⟨⟨h₂, p₂⟩, hrem', h⟩ := bind_eq_ok h
  obtain ⟨⟨h₃, p₃⟩, hins, h⟩ := bind_eq_ok h
  obtain rfl := Except.ok.inj h
  simp only [Queue.hiding] at hrem hrem' hins
  obtain ⟨k₁, hk₁, rfl⟩ := removeTimerQueueTimer_hide hrem
  obtain ⟨k₂, hk₂, rfl⟩ := removeTimerQueueTimer_hide hrem'
  rw [hide_modify] at hins
  obtain ⟨k₃, hk₃, rfl⟩ := insertTimerQueueTimer_hide hins
  refine ⟨{ q with heap := k₃, activeHead := p₃, inactiveHead := p₂ }, ?_, rfl⟩
  rw [changeTimerQueueTimer, hk₁]
  simp only [bind, Except.bind]
  rw [hk₂]
  simp only
  rw [hk₃]

/-- **Deleting a timer**: with the timer taken away too, it is as if it had been freed. -/
theorem deleteTimerQueueTimer_hiding (htimer : ∀ a, a ∈ P' ↔ a ∈ P ∨ a = timer)
    (h : deleteTimerQueueTimer (q.hiding P) timer = .ok q') :
    ∃ k, unlinkTimerQueueTimer q timer = .ok k ∧ q' = k.hiding P' := by
  obtain ⟨⟨h', p⟩, hrem, h⟩ := bind_eq_ok h
  obtain rfl := Except.ok.inj h
  simp only [Queue.hiding] at hrem
  obtain ⟨k, hk, rfl⟩ := removeTimerQueueTimer_hide hrem
  refine ⟨{ q with heap := k, activeHead := p, deleted := timer :: q.deleted }, ?_, ?_⟩
  · rw [unlinkTimerQueueTimer, hk]
    rfl
  · have hheap : Function.update (k.hide P) timer none = k.hide P' := by
      funext a
      rcases eq_or_ne a timer with rfl | ha
      · rw [Function.update_self, Heap.hide_of_mem ((htimer a).mpr (.inr rfl))]
      · rw [Function.update_of_ne ha]
        by_cases hP : a ∈ P
        · rw [Heap.hide_of_mem hP, Heap.hide_of_mem ((htimer a).mpr (.inl hP))]
        · rw [Heap.hide_of_notMem hP, Heap.hide_of_notMem]
          exact fun hmem => ((htimer a).mp hmem).elim hP ha
    simp only [Queue.hiding]
    rw [hheap]

theorem fireTurn_hiding (h : fireTurn (q.hiding P) now = .ok q') :
    ∃ k, fireTurn q now = .ok k ∧ q' = k.hiding P := by
  rw [fireTurn] at h ⊢
  have hsame : (q.hiding P).activeHead = q.activeHead := rfl
  rw [hsame] at h
  cases hhead : q.activeHead with
  | none =>
    rw [hhead] at h
    obtain rfl := Except.ok.inj h
    exact ⟨_, rfl, by simp only [Queue.hiding, hhead]⟩
  | some node =>
    rw [hhead] at h
    obtain ⟨nd, hnd, h⟩ := bind_eq_ok h
    simp only [bind, Except.bind, load_hide hnd]
    split at h
    case isTrue hexpired =>
      rw [if_pos hexpired]
      simp only [Queue.hiding, hide_modify] at h
      split at h
      case isTrue hperiod =>
        rw [if_pos hperiod]
        obtain ⟨⟨h', p⟩, hins, h⟩ := bind_eq_ok h
        obtain rfl := Except.ok.inj h
        obtain ⟨k, hk, rfl⟩ := insertTimerQueueTimer_hide hins
        rw [hk]
        exact ⟨_, rfl, rfl⟩
      case isFalse hperiod =>
        rw [if_neg hperiod]
        obtain ⟨⟨h', p⟩, hins, h⟩ := bind_eq_ok h
        obtain rfl := Except.ok.inj h
        obtain ⟨k, hk, rfl⟩ := insertTimerQueueTimer_hide hins
        rw [hk]
        exact ⟨_, rfl, rfl⟩
    case isFalse hexpired =>
      rw [if_neg hexpired]
      obtain rfl := Except.ok.inj h
      exact ⟨_, rfl, by simp only [Queue.hiding, hhead]⟩

/-- **A function without the timers at `P` faults, or does the same with them.** -/
theorem settle_hiding {x y : Except Fault Queue} (h : ∀ q', x = .ok q' →
    ∃ k, y = .ok k ∧ q' = k.hiding P') :
    ((q.hiding P).settle x).control.isFaulted = true ∨
      (q.hiding P).settle x = (q.settle y).hiding P' := by
  cases x with
  | error f => exact .inl rfl
  | ok q' =>
    obtain ⟨k, rfl, rfl⟩ := h q' rfl
    exact .inr rfl

end Queues

/-! ### Timers that are not yet freed -/

section Refinement

variable {ι : Type*} {w i : ι} {s : Shared ι} {l l₀ : Local} {x : Choice}
  {c : Config ι (Shared ι) Local} {timer a : Addr}

/-- The thread has taken the timer off its list, and not yet freed it. -/
def Local.Holds (timer : Addr) : Local → Prop
  | .caller (.signal call) | .caller (.unlock call) => call = .delete timer
  | .caller (.free a) => a = timer
  | _ => False

/-- **The timers that are off their lists and not yet freed.** -/
def unfreed (c : Config ι (Shared ι) Local) : Set Addr := {a | ∃ i, (c.locals i).Holds a}

/-- **The queue when these have been freed.** -/
noncomputable def settled (c : Config ι (Shared ι) Local) : Queue :=
  c.shared.queue.hiding (unfreed c)

/-! ### What the record says -/

/-- A timer that is off its list has been deleted, and one that has been deleted had been
created. -/
structure Recorded (c : Config ι (Shared ι) Local) : Prop where
  /-- Off its list. -/
  unfreed : ∀ a ∈ unfreed c, a ∈ c.shared.queue.deleted
  /-- Deleted. -/
  deleted : ∀ a ∈ c.shared.queue.deleted, a ∈ c.shared.queue.allocated

/-- Where the record stays as it is, and no thread has taken a timer off its list. -/
theorem Recorded.of_eq [DecidableEq ι] (h : Recorded c)
    (hcreated : s.queue.created = c.shared.queue.created)
    (hdeleted : s.queue.deleted = c.shared.queue.deleted)
    (hholds : ∀ a, l.Holds a → (c.locals i).Holds a) : Recorded (c.move i s l) := by
  refine ⟨fun a ha => ?_, fun a ha => ?_⟩
  · rw [Config.move_shared, hdeleted]
    obtain ⟨j, hj⟩ := ha
    rcases eq_or_ne j i with rfl | hji
    · rw [Config.move_self] at hj
      exact h.unfreed a ⟨j, hholds a hj⟩
    · rw [Config.move_of_ne _ _ _ hji] at hj
      exact h.unfreed a ⟨j, hj⟩
  · rw [Config.move_shared, hdeleted] at ha
    rw [Config.move_shared, Queue.allocated, hcreated]
    exact h.deleted a ha

/-- A call that faults adds nothing to the record. -/
theorem settle_record {q : Queue} {y : Except Fault Queue}
    (h : ∀ q', y = .ok q' → q'.created = q.created ∧ q'.deleted = q.deleted) :
    (q.settle y).created = q.created ∧ (q.settle y).deleted = q.deleted :=
  settle_cases (P := fun q' => q'.created = q.created ∧ q'.deleted = q.deleted)
    (fun _ => ⟨rfl, rfl⟩) h

theorem settle_ok {q : Queue} {y : Except Fault Queue}
    (h : (q.settle y).control.isFaulted = false) : ∃ q', y = .ok q' ∧ q.settle y = q' := by
  cases y with
  | error f => cases h
  | ok q' => exact ⟨q', rfl, rfl⟩

/-- **The record is kept by every step**, but by calls that fault. -/
theorem Recorded.step [DecidableEq ι] (h : Recorded c) (hl₀ : c.locals i = l₀)
    (hs : Step i c.shared l₀ x s l)
    (hok : ∀ call, l₀ = .caller (.body call) → s.queue.control.isFaulted = false) :
    Recorded (c.move i s l) := by
  cases hs
  case body call hadm =>
    cases call with
    | create timer tval dueTime period =>
      obtain ⟨q', hq', heq⟩ := settle_ok (y := createTimerQueueTimer _ _ _ _ _) (hok _ rfl)
      obtain ⟨heap, activeHead, rfl⟩ := createTimerQueueTimer_ok hq'
      have hbody : Call.body c.shared.queue (.create timer tval dueTime period) = _ := heq
      refine ⟨fun a ha => ?_, fun a ha => ?_⟩
      · rw [Config.move_shared, hbody]
        obtain ⟨j, hj⟩ := ha
        rcases eq_or_ne j i with rfl | hji
        · rw [Config.move_self] at hj
          cases hj
        · rw [Config.move_of_ne _ _ _ hji] at hj
          exact h.unfreed a ⟨j, hj⟩
      · rw [Config.move_shared, hbody] at ha ⊢
        exact List.mem_cons_of_mem _ (h.deleted a ha)
    | change timer tval dueTime period =>
      obtain ⟨q', hq', heq⟩ := settle_ok (y := changeTimerQueueTimer _ _ _ _ _) (hok _ rfl)
      obtain ⟨heap, activeHead, inactiveHead, rfl⟩ := changeTimerQueueTimer_ok hq'
      refine h.of_eq (by rw [Call.body, heq]) (by rw [Call.body, heq]) fun a ha => ?_
      cases ha
    | delete timer =>
      obtain ⟨q', hq', heq⟩ := settle_ok (y := unlinkTimerQueueTimer _ _) (hok _ rfl)
      obtain ⟨heap, activeHead, rfl⟩ := unlinkTimerQueueTimer_ok hq'
      have hbody : Call.body c.shared.queue (.delete timer) = _ := heq
      refine ⟨fun a ha => ?_, fun a ha => ?_⟩
      · rw [Config.move_shared, hbody]
        obtain ⟨j, hj⟩ := ha
        rcases eq_or_ne j i with rfl | hji
        · rw [Config.move_self] at hj
          obtain rfl := Call.delete.inj hj
          exact List.mem_cons_self
        · rw [Config.move_of_ne _ _ _ hji] at hj
          exact List.mem_cons_of_mem _ (h.unfreed a ⟨j, hj⟩)
      · rw [Config.move_shared, hbody] at ha ⊢
        rcases List.mem_cons.mp ha with rfl | ha
        · exact hadm.1
        · exact h.deleted a ha
    | destroy => exact h.of_eq rfl rfl fun a ha => by cases ha
  case fireTurn status now hnow =>
    obtain ⟨hcreated, hdeleted⟩ := settle_record (y := fireTurn c.shared.queue now) fun q' hq' =>
      ⟨(fireTurn_ok hq').1, (fireTurn_ok hq').2.1⟩
    exact h.of_eq hcreated hdeleted fun a ha => ha.elim
  case move node hnode =>
    obtain ⟨hcreated, hdeleted⟩ := settle_record (y := moveTurn c.shared.queue node) fun q' hq' =>
      ⟨(moveTurn_ok hq').1, (moveTurn_ok hq').2.1⟩
    exact h.of_eq hcreated hdeleted fun a ha => ha.elim
  case release node hnode =>
    obtain ⟨hcreated, hdeleted⟩ := settle_record (y := freeTurn c.shared.queue node) fun q' hq' =>
      ⟨(freeTurn_ok hq').1, (freeTurn_ok hq').2.1⟩
    exact h.of_eq hcreated hdeleted fun a ha => ha.elim
  case callerUnlock call =>
    refine h.of_eq rfl rfl fun a ha => ?_
    rw [hl₀]
    cases call with
    | delete timer =>
      obtain rfl : timer = a := ha
      rfl
    | create | change | destroy => exact ha.elim
  case signal call =>
    refine h.of_eq rfl rfl fun a ha => ?_
    rw [hl₀]
    exact ha
  -- the other steps leave the record alone, and take nothing off a list
  all_goals exact h.of_eq rfl rfl fun a ha => ha.elim

/-! ### Each step is a step, or none -/

/-- A step that neither takes the timer off its list nor frees it. -/
theorem mem_unfreed_move [DecidableEq ι] (hholds : l.Holds a ↔ (c.locals i).Holds a) :
    a ∈ unfreed (c.move i s l) ↔ a ∈ unfreed c := by
  constructor
  · rintro ⟨j, hj⟩
    refine ⟨j, ?_⟩
    rcases eq_or_ne j i with rfl | hji
    · rw [Config.move_self] at hj
      exact hholds.mp hj
    · rwa [Config.move_of_ne _ _ _ hji] at hj
  · rintro ⟨j, hj⟩
    refine ⟨j, ?_⟩
    rcases eq_or_ne j i with rfl | hji
    · rw [Config.move_self]
      exact hholds.mpr hj
    · rwa [Config.move_of_ne _ _ _ hji]

/-- A thread has taken a timer off its list. -/
theorem unfreed_move_of_holds [DecidableEq ι] (hbefore : ∀ a, ¬(c.locals i).Holds a)
    (hafter : ∀ a, l.Holds a ↔ a = timer) :
    ∀ a, a ∈ unfreed (c.move i s l) ↔ a ∈ unfreed c ∨ a = timer := by
  intro a
  constructor
  · rintro ⟨j, hj⟩
    rcases eq_or_ne j i with rfl | hji
    · rw [Config.move_self] at hj
      exact .inr ((hafter a).mp hj)
    · rw [Config.move_of_ne _ _ _ hji] at hj
      exact .inl ⟨j, hj⟩
  · rintro (⟨j, hj⟩ | rfl)
    · have hji : j ≠ i := by
        rintro rfl
        exact hbefore a hj
      exact ⟨j, by rwa [Config.move_of_ne _ _ _ hji]⟩
    · exact ⟨i, by rw [Config.move_self]; exact (hafter a).mpr rfl⟩

theorem settled_move [DecidableEq ι] (hl₀ : c.locals i = l₀)
    (hholds : ∀ a, l.Holds a ↔ l₀.Holds a) :
    settled (c.move i s l) = s.queue.hiding (unfreed c) := by
  have hP : unfreed (c.move i s l) = unfreed c :=
    Set.ext fun a => mem_unfreed_move (by rw [hl₀]; exact hholds a)
  rw [settled, hP, Config.move_shared]

/-- Freeing a timer that is off its list changes nothing. -/
theorem hide_free {P P' : Set Addr} (h : Heap) (hP : ∀ a, a ≠ timer → (a ∈ P' ↔ a ∈ P))
    (htimer : timer ∈ P) : Heap.hide P' (Function.update h timer none) = h.hide P := by
  funext a
  rcases eq_or_ne a timer with rfl | ha
  · rw [Heap.hide_of_mem htimer]
    by_cases hP' : a ∈ P'
    · rw [Heap.hide_of_mem hP']
    · rw [Heap.hide_of_notMem hP', Function.update_self]
  · by_cases haP : a ∈ P
    · rw [Heap.hide_of_mem haP, Heap.hide_of_mem ((hP a ha).mpr haP)]
    · rw [Heap.hide_of_notMem haP, Heap.hide_of_notMem fun hmem => haP ((hP a ha).mp hmem),
        Function.update_of_ne ha]

/-- While the lists are taken apart no timer waits to be freed. -/
theorem Inv.unfreed_eq_empty (h : Inv w c) (hi : c.locals i = .caller .release) :
    unfreed c = ∅ := by
  refine Set.eq_empty_of_forall_notMem fun a => ?_
  rintro ⟨j, hj⟩
  rcases eq_or_ne j i with rfl | hji
  · rw [hi] at hj
    exact hj
  · by_cases hjw : j = w
    · obtain ⟨pc, hpc⟩ := (h.place j).role.mpr hjw
      rw [hpc] at hj
      exact hj
    · rw [h.alone i (by rw [hi]; rfl) j hji hjw] at hj
      exact hj

theorem hiding_empty (q : Queue) : q.hiding ∅ = q := by
  refine congrArg (fun heap => { q with heap }) (funext fun a => ?_)
  exact Heap.hide_of_notMem (Set.notMem_empty a)

/-- **A step of a thread is a step of the queue, or none** – unless that step, of a queue that is
not being taken apart, faults. -/
theorem simulate [DecidableEq ι] (h : Inv w c) (hrec : Recorded c)
    (hfault : c.shared.queue.control.isFaulted = false) (hl₀ : c.locals i = l₀)
    (hs : Step i c.shared l₀ x s l)
    (hdeadline : c.shared.ended = false → ∀ now f, deadline c.shared.queue now ≠ .error f) :
    settled (c.move i s l) = settled c ∨
      ∃ e s', step (settled c) e = some s' ∧
        (s' = settled (c.move i s l) ∨
          s'.control.isFaulted = true ∧ Calm (settled c) ∧ e ≠ .destroy) ∧
        (∀ timer, e = .delete timer → l₀ = .caller (.body (.delete timer))) ∧
        (e = .destroy → c.shared.ended = true) := by
  cases hs
  case body call hadm =>
    have hidle : (settled c).control = .idle := h.control_of_body hl₀ hfault
    cases call with
    | create timer tval dueTime period =>
      have htimer : timer ∉ unfreed c := fun hmem => hadm (hrec.deleted _ (hrec.unfreed _ hmem))
      refine .inr ⟨.create timer tval dueTime period, _, if_pos ⟨hidle, hadm⟩, ?_,
        fun _ => Label.noConfusion, Label.noConfusion⟩
      rw [settled_move hl₀ fun a => iff_of_false (fun ha => by cases ha) id]
      exact (settle_hiding fun q' hq' => createTimerQueueTimer_hiding htimer hq').symm.imp_right
        fun hf => ⟨hf, .inl hidle, Label.noConfusion⟩
    | change timer tval dueTime period =>
      refine .inr ⟨.change timer tval dueTime period, _, if_pos ⟨hidle, hadm⟩, ?_,
        fun _ => Label.noConfusion, Label.noConfusion⟩
      rw [settled_move hl₀ fun a => iff_of_false (fun ha => by cases ha) id]
      exact (settle_hiding fun q' hq' => changeTimerQueueTimer_hiding hq').symm.imp_right
        fun hf => ⟨hf, .inl hidle, Label.noConfusion⟩
    | delete timer =>
      refine .inr ⟨.delete timer, _, if_pos ⟨hidle, hadm⟩, ?_, fun a ha => ?_, Label.noConfusion⟩
      · refine (settle_hiding fun q' hq' => deleteTimerQueueTimer_hiding
          (unfreed_move_of_holds (fun a => by rw [hl₀]; exact id) fun a => ?_) hq').symm.imp_right
          fun hf => ⟨hf, .inl hidle, Label.noConfusion⟩
        exact ⟨fun ha => (Call.delete.inj ha).symm, fun ha => by rw [ha]; rfl⟩
      · rw [Label.delete.inj ha]
    | destroy => exact .inl (settled_move hl₀ fun a => iff_of_false (fun ha => by cases ha) id)
  case fire status tval =>
    have hi : i = w := (h.place i).role.mp ⟨_, hl₀⟩
    have hidle : (settled c).control = .idle := h.control_of_fire (hi ▸ hl₀) hfault
    refine .inr ⟨.fire tval, _, if_pos hidle, .inl ?_, fun _ => Label.noConfusion,
      Label.noConfusion⟩
    rw [settled_move (l := .worker (.firing status)) hl₀ fun a => Iff.rfl]
    rfl
  case fireTurn status now hnow =>
    have hfiring : (settled c).control = .firing now := hnow
    refine .inr ⟨.turn, (settled c).settle (fireTurn (settled c) now), ?_, ?_,
      fun _ => Label.noConfusion, Label.noConfusion⟩
    · simp only [step, hfiring]
    · rw [settled_move hl₀ fun a => Iff.rfl]
      exact (settle_hiding fun q' hq' => fireTurn_hiding hq').symm.imp_right
        fun hf => ⟨hf, .inr ⟨now, hfiring⟩, Label.noConfusion⟩
  case join hended =>
    have hidle : (settled c).control = .idle := h.control_of_join hl₀ hended hfault
    refine .inr ⟨.destroy, _, if_pos hidle, .inl ?_, fun _ => Label.noConfusion, fun _ => hended⟩
    rw [settled_move (l := .caller .release) hl₀ fun a => Iff.rfl]
    rfl
  case move node hnode =>
    refine .inr ⟨.turn, c.shared.queue.settle (moveTurn c.shared.queue node), ?_, .inl ?_,
      fun _ => Label.noConfusion, Label.noConfusion⟩
    · rw [settled, h.unfreed_eq_empty hl₀, hiding_empty]
      simp only [step, hnode]
    · rw [settled_move hl₀ fun a => Iff.rfl, h.unfreed_eq_empty hl₀, hiding_empty]
  case release node hnode =>
    refine .inr ⟨.turn, c.shared.queue.settle (freeTurn c.shared.queue node), ?_, .inl ?_,
      fun _ => Label.noConfusion, Label.noConfusion⟩
    · rw [settled, h.unfreed_eq_empty hl₀, hiding_empty]
      simp only [step, hnode]
    · rw [settled_move hl₀ fun a => Iff.rfl, h.unfreed_eq_empty hl₀, hiding_empty]
  case free timer =>
    -- the timer was not there for the queue any more
    refine .inl ?_
    rw [settled, settled, Config.move_shared, Queue.hiding, Queue.hiding]
    refine congrArg (fun heap => { c.shared.queue with heap }) (hide_free _ (fun a ha => ?_) ?_)
    · refine mem_unfreed_move ?_
      rw [hl₀]
      exact iff_of_false id fun ht => ha ht.symm
    · exact ⟨i, by rw [hl₀]; rfl⟩
  case deadlineFault now f hf =>
    refine absurd hf (hdeadline ?_ now f)
    have hp := h.place i
    have hended := hp.ended (hp.role.mp ⟨_, hl₀⟩)
    rw [hl₀] at hended
    simpa using hended
  case callerUnlock call =>
    refine .inl (settled_move hl₀ fun a => ?_)
    cases call with
    | delete timer =>
      exact ⟨fun ha => by rw [show timer = a from ha]; rfl, fun ha => Call.delete.inj ha⟩
    | create | change | destroy => exact iff_of_false id fun ha => by cases ha
  -- the other steps leave the lists alone
  all_goals exact .inl (settled_move hl₀ fun a => Iff.rfl)

/-! ### Runs -/

/-- A deletion is of a timer that is not on the inactive list. -/
def DeletesOffInactive (c : Config ι (Shared ι) Local) (e : ι × Choice) : Prop :=
  ∀ timer, c.locals e.1 = .caller (.body (.delete timer)) →
    ¬Reachable c.shared.queue.heap.link c.shared.queue.inactiveHead timer

/-- What is reachable without some of the timers is reachable with them. -/
theorem reachable_of_hide {P : Set Addr} {h : Heap} {p : Option Addr}
    (hr : Reachable (h.hide P).link p a) : Reachable h.link p a := by
  obtain ⟨xs, hxs⟩ := hr
  refine ⟨xs, hxs.congr fun b hb => ?_⟩
  obtain ⟨r, hr⟩ := hxs.link_eq_some hb
  obtain ⟨t, ht, hnext⟩ := Heap.link_eq_some hr
  rw [hr, Heap.link_of_eq (Heap.hide_eq_some ht), hnext]

/-- A queue that is not being taken apart has sound lists. -/
theorem queued_of_calm {q : Queue} (hq : ReachesIf step DeletesActive createTimerQueue q)
    (hcalm : Calm q) : ∃ A I, Queued q A I := by
  rcases sound_or_closing hq with ⟨A, I, hqueued, -⟩ | ⟨S, hS⟩
  · exact ⟨A, I, hqueued⟩
  · have hcontrol := hS.control
    rcases hcalm with hidle | ⟨now, hfiring⟩
    · rw [hidle] at hcontrol
      exact hcontrol.elim
    · rw [hfiring] at hcontrol
      exact hcontrol.elim

theorem Calm.not_faulted {q : Queue} (h : Calm q) : q.control.isFaulted = false := by
  rcases h with hidle | ⟨now, hfiring⟩
  · rw [hidle]
    rfl
  · rw [hfiring]
    rfl

/-- **What is known of the lists** in every state the threads reach. -/
structure Simulated (c : Config ι (Shared ι) Local) : Prop where
  /-- The record. -/
  recorded : Recorded c
  /-- The calls, one after the other, lead here. -/
  reached : ReachesIf step DeletesActive createTimerQueue (settled c)
  /-- Until the thread of the queue has returned nothing is taken apart, and nothing faults. -/
  calm : c.shared.ended = false → Calm c.shared.queue

/-- With sound lists the first active timer can be looked at. -/
theorem Queued.deadline_ne_error {P : Set Addr} {q : Queue} {A I : List Addr}
    (h : Queued (q.hiding P) A I) (now : Timespec) (f : Fault) : deadline q now ≠ .error f := by
  unfold deadline
  cases hhead : q.activeHead with
  | none => exact nofun
  | some node =>
    have hactive : Path (q.heap.hide P).link (some node) A none := hhead ▸ h.active
    obtain ⟨ys, rfl⟩ := hactive.eq_cons
    obtain ⟨r, hr⟩ := hactive.link_eq_some List.mem_cons_self
    obtain ⟨t, ht, -⟩ := Heap.link_eq_some hr
    simp only [Heap.load_of_eq (Heap.hide_eq_some ht)]
    exact nofun

/-- **A queue with sound lists does not fault.** -/
theorem calm_or_moving {q q' : Queue} {e : Label}
    (hq : ReachesIf step DeletesActive createTimerQueue q) (hcalm : Calm q)
    (hok : DeletesActive q e) (hs : step q e = some q') :
    Calm q' ∨ e = .destroy ∧ q'.control.isFaulted = false := by
  obtain ⟨A, I, hqueued⟩ := queued_of_calm hq hcalm
  by_cases hdestroy : e = .destroy
  · subst hdestroy
    simp only [Timer.step] at hs
    split at hs
    case isTrue =>
      obtain rfl := Option.some.inj hs
      exact .inr ⟨rfl, rfl⟩
    case isFalse => cases hs
  · have hdelete : ∀ timer, e = .delete timer → timer ∉ I := by
      rintro timer rfl htimer
      exact hok (hqueued.inactive.reachable_iff.mpr htimer)
    obtain ⟨A', I', -, he⟩ := step_effect hqueued hcalm hdestroy hdelete hs
    exact .inl he.calm

theorem simulated_start [DecidableEq ι] (w : ι) : Simulated (start w) where
  recorded := by
    refine ⟨fun a ha => ?_, fun a ha => by cases ha⟩
    obtain ⟨i, hi⟩ := ha
    by_cases hiw : i = w <;> simp [start, hiw, Local.Holds] at hi
  reached := by
    have hnone : (createTimerQueue.heap).hide (unfreed (start w)) = createTimerQueue.heap := by
      funext a
      by_cases ha : a ∈ unfreed (start w)
      · rw [Heap.hide_of_mem ha]
        rfl
      · exact Heap.hide_of_notMem ha
    have hsettled : settled (start w) = createTimerQueue :=
      congrArg (fun heap => { createTimerQueue with heap }) hnone
    rw [hsettled]
    exact .refl
  calm _ := .inl rfl

/-- **Every step keeps what is known.** -/
theorem Simulated.step [DecidableEq ι] (hsim : Simulated c) (h : Inv w c)
    (hok : DeletesOffInactive c (i, x)) (hfault : c.shared.queue.control.isFaulted = false)
    (hl₀ : c.locals i = l₀) (hs : Step i c.shared l₀ x s l) : Simulated (c.move i s l) := by
  have hdeadline : c.shared.ended = false → ∀ now f, deadline c.shared.queue now ≠ .error f := by
    intro hended
    obtain ⟨A, I, hq⟩ := queued_of_calm hsim.reached (hsim.calm hended)
    exact hq.deadline_ne_error
  have hended : (c.move i s l).shared.ended = false → c.shared.ended = false := by
    cases hs <;> first | exact id | exact nofun
  rcases simulate h hsim.recorded hfault hl₀ hs hdeadline with
    hsame | ⟨e, q', hq', hr, hdel, hdes⟩
  · have hcontrol : s.queue.control = c.shared.queue.control :=
      (congrArg Queue.control hsame :)
    refine ⟨hsim.recorded.step hl₀ hs fun _ _ => hcontrol ▸ hfault, hsame ▸ hsim.reached,
      fun he => ?_⟩
    rw [Calm, Config.move_shared, hcontrol]
    exact hsim.calm (hended he)
  · have hdelete : DeletesActive (settled c) e := by
      cases e with
      | delete timer =>
        exact fun hr => hok timer (hl₀.trans (hdel timer rfl)) (reachable_of_hide hr)
      | create | change | fire | destroy | turn => trivial
    -- a step of sound lists does not fault
    have hr' : q' = settled (c.move i s l) := by
      rcases hr with hr | ⟨hf, hcalm, hne⟩
      · exact hr
      · rcases calm_or_moving hsim.reached hcalm hdelete hq' with hcalm' | ⟨he, -⟩
        · rw [hcalm'.not_faulted] at hf
          cases hf
        · exact absurd he hne
    refine ⟨hsim.recorded.step hl₀ hs fun call hcall => ?_, ?_, fun he => ?_⟩
    · have hidle : Calm (settled c) := .inl (h.control_of_body (hl₀.trans hcall) hfault)
      have hcontrol : s.queue.control = q'.control := (congrArg Queue.control hr'.symm :)
      rw [hcontrol]
      rcases calm_or_moving hsim.reached hidle hdelete hq' with hcalm' | ⟨-, hf⟩
      · exact hcalm'.not_faulted
      · exact hf
    · exact hr' ▸ hsim.reached.tail hdelete hq'
    · have hcalm : Calm (settled c) := hsim.calm (hended he)
      have hcalm' : Calm q' := by
        rcases calm_or_moving hsim.reached hcalm hdelete hq' with hcalm' | ⟨hd, -⟩
        · exact hcalm'
        · have hends := hdes hd
          rw [hended he] at hends
          cases hends
      rw [hr'] at hcalm'
      exact hcalm'

/-- With nothing on the inactive list nothing is deleted from it. -/
theorem reachesIf_of_inactiveHead [DecidableEq ι] {c₀ : Config ι (Shared ι) Local}
    (h : ReachesIf (threadStep next)
      (fun c e => Proper w c e ∧ c.shared.queue.inactiveHead = none) c₀ c) :
    ReachesIf (threadStep next) (fun c e => Proper w c e ∧ DeletesOffInactive c e) c₀ c := by
  refine h.mono fun c e hok => ⟨hok.1, fun timer _ => ?_⟩
  rw [hok.2]
  exact not_reachable_none

/-- What is known of the lists in every state of every interleaving. -/
theorem simulated_of_reaches [DecidableEq ι] (h : ReachesIf (threadStep next)
    (fun c e => Proper w c e ∧ DeletesOffInactive c e) (start w) c) :
    Inv w c ∧ Simulated c := by
  refine invariant (P := fun c => Inv w c ∧ Simulated c) h ⟨inv_start w, simulated_start w⟩ ?_
  rintro d i x s l ⟨hinv, hsim⟩ ⟨hproper, hdelete⟩ hn
  obtain ⟨hfault, hs⟩ := step_of_next hn
  exact ⟨hinv.step hproper hfault rfl hs, hsim.step hinv hdelete hfault rfl hs⟩

/-- **The threads of a queue are its calls, one after the other.** In every interleaving of the
thread of a queue with any number of callers, in which no timer is deleted that is on the inactive
list, the queue is, but for timers that are yet to be freed, in a state that the calls one after
the other lead to. Until the thread of the queue has returned, no thread touches a timer that is
not there, or walks for ever. -/
theorem timerQueue_refines [DecidableEq ι] (h : ReachesIf (threadStep next)
    (fun c e => Proper w c e ∧ DeletesOffInactive c e) (start w) c) :
    ReachesIf step DeletesActive createTimerQueue (settled c) ∧
      (c.shared.ended = false → Calm c.shared.queue) := by
  obtain ⟨-, hsim⟩ := simulated_of_reaches h
  exact ⟨hsim.reached, hsim.calm⟩

end Refinement

/-! ### A timer that is not yet freed -/

/-- Thread `1` creates a timer, the thread of the queue goes to sleep until it is due, and the
timer is taken off its list again. -/
def createDelete : List (Fin 2 × Choice) :=
  [[(1, .call (.create 7 midnight 10 0))], List.replicate 4 (1, .go),
    [(0, .go), (0, .clock midnight), (0, .go), (0, .go), (1, .call (.delete 7))],
    List.replicate 4 (1, .go)].flatten

theorem timerQueue_refines_createDelete :
    ∃ c, run (threadStep next) (start (0 : Fin 2)) createDelete = some c ∧
      (c.shared.queue.heap 7).isSome ∧ c.shared.queue.deleted = [7] ∧
      ReachesIf step DeletesActive createTimerQueue (settled c) ∧ Calm c.shared.queue := by
  have hrun : run (threadStep next) (start (0 : Fin 2)) createDelete = some _ :=
    run_eq_final (by decide +kernel)
  obtain ⟨hreached, hcalm⟩ := timerQueue_refines (reachesIf_of_inactiveHead (w := 0)
    (reachesIf_of_run createDelete (by decide +kernel) hrun))
  exact ⟨_, hrun, by decide +kernel, by decide +kernel, hreached, hcalm (by decide +kernel)⟩

end Timer

end Libuzi
