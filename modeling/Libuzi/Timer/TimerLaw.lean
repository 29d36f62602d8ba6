import Libuzi.Timer.TimerConservation
import Mathlib.Algebra.BigOperators.Group.Finset.Basic
import Mathlib.Algebra.Order.BigOperators.Group.List

/-!
# How often a timer fires

A timer created at time `c` with due time `d` and period `p` should have fired once for
each of the times `c + d`, `c + d + p`, `c + d + 2 p`, … up to the last call of
`FireExpiredTimerQueueTimers` (`Timer.Creation.expected`). The loop of that function
stops at the first timer that has not expired, so this rests on the active list being
in order of expiration, and on the arithmetic of `timespec_add_ms` and
`timespec_compare`.

Neither holds in general: a timer that expires before the first one on the list is put
behind it and waits for it (`Timer.firing_law_behindLater`). The law does hold
(`Timer.firing_law`) along every run whose steps are *punctual* (`Timer.Punctual`): each
timer put on the active list expires no earlier than those already there, and the
milliseconds added and the times compared are in the range of the two functions. Then
the active list is in order, each timer on it is due at the time that the number of its
callbacks says, and a loop that ends has left only timers that are not due.
-/

namespace Libuzi

open Runs Chain

namespace Timer

/-! ### The law -/

/-- When the timer is first due, in nanoseconds: the time of its creation plus `DueTime`
milliseconds. -/
def Creation.first (k : Creation) : ℤ := k.currentTime.toNs + k.dueTime.toNat * 1000000

/-- The period in nanoseconds. -/
def Creation.periodNs (k : Creation) : ℤ := k.period.toNat * 1000000

/-- **How often the timer should have fired by time `t`.** -/
def Creation.expected (k : Creation) (t : ℤ) : ℕ :=
  if t < k.first then 0
  else if k.period = 0 then 1
  else ((t - k.first) / k.periodNs).toNat + 1

/-- Every timer created has fired as often as it should by the time `now`. -/
def Law (s : Queue) (now : Timespec) : Prop :=
  ∀ k ∈ s.created, s.fired.count k.timer = k.expected now.toNs

/-- The step ends a call of `FireExpiredTimerQueueTimers` that has read the time `now`. -/
def FireEnds (s : Queue) (e : Label) (s' : Queue) (now : Timespec) : Prop :=
  step s e = some s' ∧ s'.control = .idle ∧
    (e = .turn ∧ s.control = .firing now ∨
      ∃ tval, e = .fire tval ∧ now = timespecGettimeofday tval)

/-- The runs the law is about: timers are created, and the calls of
`FireExpiredTimerQueueTimers` read times that do not go back. -/
def Regular (s : Queue) : Label → Prop
  | .create .. | .turn => True
  | .fire tval => ∀ t ∈ s.fireTimes.head?, t.toNs ≤ (timespecGettimeofday tval).toNs
  | _ => False

/-! ### The condition -/

/-- Expiring at `e`, a timer belongs at the end of the list `A`, and is put there. -/
def Latest (h : Heap) (e : Timespec) (A : List Addr) : Prop :=
  Clear (h.stops e) A ∧ ∀ a ∈ A, ∀ t, h a = some t → t.expirationTime.toNs ≤ e.toNs

/-- **The step is punctual**: a timer put on the active list expires no earlier than those
on it, and is put at its end; milliseconds that are added are at most `4294`; and
`timespec_compare` tells whether the first active timer has expired. What is asked of
`timespec_compare` holds of times that are less than `2 ^ 31` seconds apart
(`latest_of_near`, `timespecCompare_nonneg_iff`). -/
def Punctual (s : Queue) : Label → Prop
  | .create _ tval dueTime _ =>
    dueTime.toNat ≤ 4294 ∧ ∀ A, Path s.heap.link s.activeHead A none →
      Latest s.heap (timespecAddMs (timespecGettimeofday tval) dueTime) A
  | .turn =>
    ∀ now a t A, s.control = .firing now → Path s.heap.link s.activeHead (a :: A) none →
      s.heap a = some t →
        (0 ≤ timespecCompare now t.expirationTime ↔ t.expirationTime.toNs ≤ now.toNs) ∧
        (t.expirationTime.toNs ≤ now.toNs → t.period ≠ 0 →
          t.period.toNat ≤ 4294 ∧ Latest s.heap (timespecAddMs t.expirationTime t.period) A)
  | _ => True

/-- Regular and punctual. -/
def RegularPunctual (s : Queue) (e : Label) : Prop := Regular s e ∧ Punctual s e

/-! ### Checking the condition -/

instance (h : Heap) (e : Timespec) (A : List Addr) : Decidable (Latest h e A) :=
  inferInstanceAs (Decidable
    (Clear (h.stops e) A ∧ ∀ a ∈ A, ∀ t ∈ h a, t.expirationTime.toNs ≤ e.toNs))

instance (s : Queue) : (e : Label) → Decidable (Regular s e)
  | .create .. | .turn => inferInstanceAs (Decidable True)
  | .fire tval => inferInstanceAs (Decidable
      (∀ t ∈ s.fireTimes.head?, t.toNs ≤ (timespecGettimeofday tval).toNs))
  | .change .. | .delete _ | .destroy => inferInstanceAs (Decidable False)

/-- A turn of the loop is punctual, the active list being the one given. -/
def TurnPunctual (h : Heap) : Control → List Addr → Prop
  | .firing now, a :: A => ∀ t ∈ h a,
    (0 ≤ timespecCompare now t.expirationTime ↔ t.expirationTime.toNs ≤ now.toNs) ∧
    (t.expirationTime.toNs ≤ now.toNs → t.period ≠ 0 →
      t.period.toNat ≤ 4294 ∧ Latest h (timespecAddMs t.expirationTime t.period) A)
  | _, _ => True

instance (h : Heap) : (k : Control) → (A : List Addr) → Decidable (TurnPunctual h k A)
  | .firing now, a :: A => inferInstanceAs (Decidable (∀ t ∈ h a,
      (0 ≤ timespecCompare now t.expirationTime ↔ t.expirationTime.toNs ≤ now.toNs) ∧
      (t.expirationTime.toNs ≤ now.toNs → t.period ≠ 0 →
        t.period.toNat ≤ 4294 ∧ Latest h (timespecAddMs t.expirationTime t.period) A)))
  | .firing _, [] | .idle, _ | .moving _, _ | .freeing _, _ | .destroyed, _ | .faulted _, _ =>
    inferInstanceAs (Decidable True)

/-- The step is punctual, the active list being the one given. -/
def PunctualOn (s : Queue) (A : List Addr) : Label → Prop
  | .create _ tval dueTime _ =>
    dueTime.toNat ≤ 4294 ∧
      Latest s.heap (timespecAddMs (timespecGettimeofday tval) dueTime) A
  | .turn => TurnPunctual s.heap s.control A
  | _ => True

instance (s : Queue) (A : List Addr) : (e : Label) → Decidable (PunctualOn s A e)
  | .create _ tval dueTime _ => inferInstanceAs (Decidable (dueTime.toNat ≤ 4294 ∧
      Latest s.heap (timespecAddMs (timespecGettimeofday tval) dueTime) A))
  | .turn => inferInstanceAs (Decidable (TurnPunctual s.heap s.control A))
  | .fire _ | .change .. | .delete _ | .destroy => inferInstanceAs (Decidable True)

/-- The step is regular and punctual, and the active list is the one given with it. -/
def Checked (s : Queue) (x : List Addr × Label) : Prop :=
  Path s.heap.link s.activeHead x.1 none ∧ Regular s x.2 ∧ PunctualOn s x.1 x.2

instance (s : Queue) (x : List Addr × Label) : Decidable (Checked s x) :=
  inferInstanceAs (Decidable (_ ∧ _ ∧ _))

/-- **There is but one active list.** -/
theorem Checked.regularPunctual {s : Queue} {x : List Addr × Label} (h : Checked s x) :
    RegularPunctual s x.2 := by
  obtain ⟨A, e⟩ := x
  obtain ⟨hA, hregular, hpunctual⟩ := h
  refine ⟨hregular, ?_⟩
  cases e with
  | create timer tval dueTime period =>
    refine ⟨hpunctual.1, fun A' hA' => ?_⟩
    obtain rfl := hA.unique hA'
    exact hpunctual.2
  | turn =>
    intro now a t A' hfiring hA' ht
    obtain rfl := hA.unique hA'
    rw [PunctualOn, hfiring] at hpunctual
    exact hpunctual t ht
  | _ => trivial

/-- Where times are near, only the order of the list matters. -/
theorem latest_of_near {h : Heap} {e : Timespec} {A : List Addr}
    (hA : ∀ a ∈ A, ∀ t, h a = some t →
      t.expirationTime.toNs ≤ e.toNs ∧ Near e t.expirationTime) : Latest h e A := by
  refine ⟨?_, fun a ha t ht => (hA a ha t ht).1⟩
  rintro ys a b zs rfl
  rw [Heap.stops]
  cases hb : h b with
  | none => cases h a <;> rfl
  | some y =>
    obtain ⟨hle, hnear⟩ := hA b (by simp) y hb
    have hcmp := (timespecCompare_nonneg_iff hnear).mpr hle
    cases h a with
    | none => rfl
    | some x => exact decide_eq_false fun hstop => absurd hstop.2 (not_lt.mpr hcmp)

/-! ### Counting calls -/

section Expected

variable {k : Creation} {t : ℤ} {n : ℕ}

theorem Creation.periodNs_pos (h : k.period ≠ 0) : 0 < k.periodNs := by
  have hpos : 0 < k.period.toNat := by
    refine Nat.pos_of_ne_zero fun h0 => h ?_
    exact UInt32.toNat_inj.mp h0
  unfold Creation.periodNs
  omega

theorem Creation.periodNs_eq_zero (h : k.period = 0) : k.periodNs = 0 := by
  rw [Creation.periodNs, h]
  rfl

/-- A timer that was due for its last callback, and is not due for the next, has fired as
often as it should. -/
theorem Creation.expected_of_between (hlast : ∀ m : ℕ, n = m + 1 → k.first + m * k.periodNs ≤ t)
    (hnext : t < k.first + n * k.periodNs) (honce : k.period = 0 → n = 0) :
    k.expected t = n := by
  cases n with
  | zero =>
    have ht : t < k.first := by simpa using hnext
    rw [Creation.expected, if_pos ht]
  | succ m =>
    have hperiod : k.period ≠ 0 := fun h => absurd (honce h) (Nat.succ_ne_zero m)
    have hpos := Creation.periodNs_pos hperiod
    have hge := hlast m rfl
    have hm : 0 ≤ (m : ℤ) * k.periodNs := Int.mul_nonneg (Int.natCast_nonneg m) hpos.le
    have hdiv : (t - k.first) / k.periodNs = m := by
      rw [Nat.cast_succ, add_mul, one_mul] at hnext
      rw [Int.ediv_eq_iff_of_pos hpos]
      omega
    rw [Creation.expected, if_neg (by omega), if_neg hperiod, hdiv, Int.toNat_natCast]

/-- A timer that fires once, and has, has fired as often as it should. -/
theorem Creation.expected_of_spent (hperiod : k.period = 0) (hdue : k.first ≤ t) :
    k.expected t = 1 := by
  rw [Creation.expected, if_neg (not_lt.mpr hdue), if_pos hperiod]

/-- A timer that was due for its last callback has not fired too often. -/
theorem Creation.le_expected (hlast : ∀ m : ℕ, n = m + 1 → k.first + m * k.periodNs ≤ t)
    (honce : k.period = 0 → n ≤ 1) : n ≤ k.expected t := by
  cases n with
  | zero => exact Nat.zero_le _
  | succ m =>
    have hge := hlast m rfl
    by_cases hperiod : k.period = 0
    · rw [Creation.periodNs_eq_zero hperiod, mul_zero, add_zero] at hge
      rw [Creation.expected_of_spent hperiod hge]
      exact honce hperiod
    · have hpos := Creation.periodNs_pos hperiod
      have hm : 0 ≤ (m : ℤ) * k.periodNs := Int.mul_nonneg (Int.natCast_nonneg m) hpos.le
      have hdiv : (m : ℤ) ≤ (t - k.first) / k.periodNs := by
        rw [Int.le_ediv_iff_mul_le hpos]
        omega
      rw [Creation.expected, if_neg (by omega), if_neg hperiod]
      omega

end Expected

/-! ### When timers are due -/

section Due

/-- When the timer at an address expires, in nanoseconds. -/
def Heap.due (h : Heap) (a : Addr) : ℤ :=
  match h a with
  | some t => t.expirationTime.toNs
  | none => 0

variable {h h' : Heap} {a : Addr} {t : QueueTimer}

theorem Heap.due_of_eq (ha : h a = some t) : h.due a = t.expirationTime.toNs := by
  rw [Heap.due, ha]

theorem Heap.due_core : h.core.due a = h.due a := by
  rw [Heap.due, Heap.due, Heap.core]
  cases h a <;> rfl

theorem Heap.due_congr (hc : h'.core a = h.core a) : h'.due a = h.due a := by
  rw [← Heap.due_core, Heap.due, hc, ← Heap.due, Heap.due_core]

theorem Heap.due_of_core (hc : h.core a = some t) : h.due a = t.expirationTime.toNs := by
  rw [← Heap.due_core, Heap.due_of_eq hc]

end Due

/-! ### The invariant -/

section Invariant

/-- **The timer is on time**: it is active, and due when the number of its callbacks says;
or it fires once, and has. Its last callback was due by the last call of
`FireExpiredTimerQueueTimers`. -/
structure OnTime (s : Queue) (A : List Addr) (k : Creation) : Prop where
  /-- It has the period it was created with. -/
  period : ∃ t, s.heap.core k.timer = some t ∧ t.period = k.period
  /-- It is active and due, or it is spent. -/
  place : k.timer ∈ A ∧ s.heap.due k.timer = k.first + s.fired.count k.timer * k.periodNs ∧
        (k.period = 0 → s.fired.count k.timer = 0) ∨
      k.timer ∉ A ∧ k.period = 0 ∧ s.fired.count k.timer = 1
  /-- Its last callback was due. -/
  last : ∀ m : ℕ, s.fired.count k.timer = m + 1 →
    ∃ t ∈ s.fireTimes.head?, k.first + m * k.periodNs ≤ t.toNs

/-- **The active list is in order, and every timer is on time.** -/
structure Timely (s : Queue) (A I : List Addr) : Prop where
  /-- The lists are sound. -/
  queued : Queued s A I
  /-- No call has faulted. -/
  calm : Calm s
  /-- The active list is in order of expiration. -/
  sorted : A.Pairwise fun a b => s.heap.due a ≤ s.heap.due b
  /-- Every timer is on time. -/
  onTime : ∀ k ∈ s.created, OnTime s A k
  /-- The loop goes by the time of the last call. -/
  clock : ∀ now, s.control = .firing now → s.fireTimes.head? = some now
  /-- Only timers of the queue have fired. -/
  fired : ∀ a ∈ s.fired, a ∈ s.allocated

variable {s s' : Queue} {A I A' I' : List Addr} {k : Creation} {e : Label}

theorem timely_createTimerQueue : Timely createTimerQueue [] [] where
  queued := queued_createTimerQueue
  calm := Or.inl rfl
  sorted := List.Pairwise.nil
  onTime _ h := by cases h
  clock _ h := by cases h
  fired _ h := by cases h

/-- What happens to other timers leaves a timer on time. -/
theorem OnTime.frame (h : OnTime s A k) (hcore : s'.heap.core k.timer = s.heap.core k.timer)
    (hmem : k.timer ∈ A' ↔ k.timer ∈ A)
    (hfired : s'.fired.count k.timer = s.fired.count k.timer)
    (htimes : ∀ t ∈ s.fireTimes.head?, ∃ t' ∈ s'.fireTimes.head?, t.toNs ≤ t'.toNs) :
    OnTime s' A' k where
  period := by
    rw [hcore]
    exact h.period
  place := by
    rw [hmem, hfired, Heap.due_congr hcore]
    exact h.place
  last := by
    intro m hm
    obtain ⟨t, ht, hle⟩ := h.last m (hfired ▸ hm)
    obtain ⟨t', ht', hle'⟩ := htimes t ht
    exact ⟨t', ht', hle.trans hle'⟩

/-- Order is kept by appending a timer that is due no earlier than the others. -/
theorem sorted_append {h h' : Heap} {a : Addr} (hA : A.Pairwise fun a b => h.due a ≤ h.due b)
    (hcore : ∀ b ∈ A, h'.core b = h.core b) (hlast : ∀ b ∈ A, h.due b ≤ h'.due a) :
    (A ++ [a]).Pairwise fun a b => h'.due a ≤ h'.due b := by
  refine List.pairwise_append.mpr ⟨?_, List.pairwise_singleton _ _, ?_⟩
  · refine hA.imp_of_mem fun hb hc hle => ?_
    rwa [Heap.due_congr (hcore _ hb), Heap.due_congr (hcore _ hc)]
  · intro b hb c hc
    obtain rfl := List.mem_singleton.mp hc
    rw [Heap.due_congr (hcore b hb)]
    exact hlast b hb

/-- The timers of the list are due no later than one that belongs at its end. -/
theorem Latest.due_le {h : Heap} {p : Option Addr} {e : Timespec} {a : Addr} (hl : Latest h e A)
    (hp : Path h.link p A none) (ha : a ∈ A) : h.due a ≤ e.toNs := by
  obtain ⟨r, hr⟩ := hp.link_eq_some ha
  obtain ⟨t, ht, -⟩ := Heap.link_eq_some hr
  rw [Heap.due_of_eq ht]
  exact hl.2 a ha t ht

theorem count_eq_zero_of_new (h : Timely s A I) {a : Addr} (ha : a ∉ s.allocated) :
    s.fired.count a = 0 :=
  List.count_eq_zero.mpr fun hf => ha (h.fired a hf)

/-- A new timer is on time, and the others stay so. -/
theorem Timely.create (h : Timely s A I) (hq' : Queued s' A' I')
    (he : Effect s A I e s' A' I') {timer : Addr} {tval : Timeval} {dueTime period : UInt32}
    (hlabel : e = .create timer tval dueTime period) (hp : Punctual s e) : Timely s' A' I' := by
  have hcalm := he.calm
  subst hlabel
  cases he with
  | create _ _ _ _ h' p hidle hnew hcore =>
    obtain ⟨hms, hlatest⟩ := hp
    replace hlatest := hlatest A h.queued.active
    have hnotMem : ∀ b, b ∈ A → b ≠ timer := by
      rintro b hb rfl
      exact hnew (h.queued.live_of_active hb).1
    have hfresh : h'.core timer = some (freshTimer dueTime period
        (timespecAddMs (timespecGettimeofday tval) dueTime)) := by
      rw [hcore, Function.update_self]
    have hdue : h'.due timer = (timespecAddMs (timespecGettimeofday tval) dueTime).toNs :=
      Heap.due_of_core hfresh
    rw [insertAt_of_clear hlatest.1] at hq' ⊢
    refine ⟨hq', hcalm, ?_, ?_, h.clock, ?_⟩
    · refine sorted_append h.sorted (fun b hb => ?_) fun b hb => ?_
      · change h'.core b = _
        rw [hcore, Function.update_of_ne (hnotMem b hb)]
      · exact (hlatest.due_le h.queued.active hb).trans_eq hdue.symm
    · intro k hk
      rcases List.mem_cons.mp hk with rfl | hold
      · -- the new timer
        have hcount := count_eq_zero_of_new h hnew
        refine ⟨⟨_, hfresh, rfl⟩, Or.inl ⟨by simp, ?_, ?_⟩, ?_⟩
        · change h'.due timer = _ + (s.fired.count timer : ℤ) * _
          rw [hdue, toNs_timespecAddMs _ hms, hcount, Nat.cast_zero, zero_mul, add_zero]
          rfl
        · intro _
          exact hcount
        · intro m hm
          change s.fired.count timer = m + 1 at hm
          omega
      · -- an old one
        have hkt : k.timer ≠ timer := by
          rintro rfl
          exact hnew (List.mem_map_of_mem hold)
        refine (h.onTime k hold).frame ?_ ?_ rfl fun t ht => ⟨t, ht, le_rfl⟩
        · change h'.core k.timer = _
          rw [hcore, Function.update_of_ne hkt]
        · simp [hkt]
    · intro b hb
      exact List.mem_cons_of_mem _ (h.fired b hb)

/-- Reading the clock changes nothing. -/
theorem Timely.fire (h : Timely s A I) (hq' : Queued s' A' I') (he : Effect s A I e s' A' I')
    {tval : Timeval} (hlabel : e = .fire tval) (hr : Regular s e) : Timely s' A' I' := by
  have hcalm := he.calm
  subst hlabel
  cases he with
  | fire _ hidle =>
    refine ⟨hq', hcalm, h.sorted, fun k hk => ?_, fun now hnow => ?_, h.fired⟩
    · exact (h.onTime k hk).frame rfl Iff.rfl rfl fun t ht => ⟨_, rfl, hr t ht⟩
    · change (if A = [] then Control.idle else .firing (timespecGettimeofday tval)) = _ at hnow
      split at hnow
      · cases hnow
      · exact congrArg some (Control.firing.inj hnow)

/-- What the first timer on the active list says when it fires: it is due at the time that
the number of its callbacks says, and the time has come. -/
theorem Timely.head (h : Timely s A I) {a : Addr} {B : List Addr} {now : Timespec}
    {t : QueueTimer} (hA : A = a :: B) (ht : s.heap a = some t)
    (hfiring : s.control = .firing now) (hdue : t.expirationTime.toNs ≤ now.toNs)
    (hk : k ∈ s.created) (hka : k.timer = a) :
    k.period = t.period ∧
      t.expirationTime.toNs = k.first + s.fired.count a * k.periodNs ∧
      (k.period = 0 → s.fired.count a = 0) ∧
      ∃ u ∈ s.fireTimes.head?, k.first + s.fired.count a * k.periodNs ≤ u.toNs := by
  subst hka
  obtain ⟨⟨t₀, ht₀, hper⟩, hplace, -⟩ := h.onTime k hk
  rw [Heap.core_of_eq ht] at ht₀
  obtain rfl := Option.some.inj ht₀
  rcases hplace with ⟨-, hexp, honce⟩ | ⟨hnot, -⟩
  · rw [Heap.due_of_eq ht] at hexp
    exact ⟨hper.symm, hexp, honce, now, h.clock now hfiring, hexp ▸ hdue⟩
  · exact absurd (hA ▸ List.mem_cons_self) hnot

/-- What the two ways of firing have in common: the other timers are left alone, and of the
one that fires only its new place has to be shown. -/
theorem Timely.callback (h : Timely s A I) {a : Addr} {B : List Addr} {now : Timespec}
    {t t' : QueueTimer} {h' : Heap} {p q : Option Addr}
    (hq' : Queued
      { s with heap := h', activeHead := p, inactiveHead := q, fired := a :: s.fired } A' I')
    (hfiring : s.control = .firing now) (hA : A = a :: B) (ht : s.heap a = some t)
    (hdue : t.expirationTime.toNs ≤ now.toNs)
    (hcore : h'.core = Function.update s.heap.core a (some t')) (hperiod : t'.period = t.period)
    (hsorted : A'.Pairwise fun b c => h'.due b ≤ h'.due c)
    (hmem : ∀ b, b ≠ a → (b ∈ A' ↔ b ∈ B))
    (hplace : ∀ k : Creation, k.period = t.period →
      t.expirationTime.toNs = k.first + s.fired.count a * k.periodNs →
        a ∈ A' ∧ k.period ≠ 0 ∧
          t'.expirationTime.toNs = k.first + (s.fired.count a + 1 : ℕ) * k.periodNs ∨
        a ∉ A' ∧ k.period = 0) :
    Timely { s with heap := h', activeHead := p, inactiveHead := q, fired := a :: s.fired }
      A' I' := by
  have halloc : a ∈ s.allocated := (h.queued.live_of_active (hA ▸ List.mem_cons_self)).1
  have hself : h'.core a = some t' := by rw [hcore, Function.update_self]
  refine ⟨hq', Or.inr ⟨now, hfiring⟩, hsorted, fun k hk => ?_, h.clock, fun b hb => ?_⟩
  · rcases eq_or_ne k.timer a with hka | hka
    · obtain ⟨hkp, hexp, honce, hlast⟩ := h.head hA ht hfiring hdue hk hka
      have hcount : (a :: s.fired).count k.timer = s.fired.count a + 1 := by
        rw [hka, List.count_cons_self]
      refine ⟨⟨t', hka ▸ hself, hperiod.trans hkp.symm⟩, ?_, fun m hm => ?_⟩
      · rw [hcount, hka]
        rcases hplace k hkp hexp with ⟨hin, hk0, hexp'⟩ | ⟨hout, hk0⟩
        · exact Or.inl ⟨hin, (Heap.due_of_core hself).trans hexp', fun h0 => absurd h0 hk0⟩
        · exact Or.inr ⟨hout, hk0, by rw [honce hk0]⟩
      · obtain rfl : s.fired.count a = m := Nat.succ.inj (hcount.symm.trans hm)
        exact hlast
    · refine (h.onTime k hk).frame ?_ ?_ ?_ fun t ht => ⟨t, ht, le_rfl⟩
      · change h'.core k.timer = _
        rw [hcore, Function.update_of_ne hka]
      · rw [hmem _ hka, hA, List.mem_cons, or_iff_right hka]
      · exact List.count_cons_of_ne (Ne.symm hka)
  · rcases List.mem_cons.mp hb with rfl | hb
    · exact halloc
    · exact h.fired b hb

/-- The timers behind the first are in order, and stay so when only the first changes. -/
theorem Timely.tail_sorted (h : Timely s A I) {a : Addr} {B : List Addr} {h' : Heap}
    {t' : QueueTimer} (hA : A = a :: B)
    (hcore : h'.core = Function.update s.heap.core a (some t')) :
    a ∉ B ∧ (∀ b ∈ B, h'.core b = s.heap.core b) ∧
      B.Pairwise fun b c => s.heap.due b ≤ s.heap.due c := by
  have hnodup := h.queued.active.nodup
  have hsorted := h.sorted
  rw [hA] at hnodup hsorted
  have haB : a ∉ B := (List.nodup_cons.mp hnodup).1
  refine ⟨haB, fun b hb => ?_, (List.pairwise_cons.mp hsorted).2⟩
  have hba : b ≠ a := by
    rintro rfl
    exact haB hb
  rw [hcore, Function.update_of_ne hba]

/-- A periodic timer that fires is due again one period later. -/
theorem Timely.rearm (h : Timely s A I) {a : Addr} {B : List Addr} {now : Timespec}
    {t : QueueTimer} {h' : Heap} {p : Option Addr}
    (hq' : Queued { s with heap := h', activeHead := p, fired := a :: s.fired } (B ++ [a]) I)
    (hfiring : s.control = .firing now) (hA : A = a :: B) (ht : s.heap a = some t)
    (hdue : t.expirationTime.toNs ≤ now.toNs) (hperiod : t.period ≠ 0)
    (hms : t.period.toNat ≤ 4294)
    (hlatest : Latest s.heap (timespecAddMs t.expirationTime t.period) B)
    (hcore : h'.core = Function.update s.heap.core a (some t.rearmed)) :
    Timely { s with heap := h', activeHead := p, fired := a :: s.fired } (B ++ [a]) I := by
  obtain ⟨-, hother, hsorted⟩ := h.tail_sorted hA hcore
  have hactive := h.queued.active
  rw [hA] at hactive
  obtain ⟨-, r, -, hB⟩ := hactive
  have hself : h'.core a = some t.rearmed := by rw [hcore, Function.update_self]
  have hdue' : h'.due a = (timespecAddMs t.expirationTime t.period).toNs := Heap.due_of_core hself
  refine h.callback hq' hfiring hA ht hdue hcore rfl ?_ ?_ ?_
  · refine sorted_append hsorted hother fun b hb => ?_
    exact (hlatest.due_le hB hb).trans_eq hdue'.symm
  · intro b hb
    simp [hb]
  · intro k hkp hexp
    refine Or.inl ⟨by simp, fun hk0 => hperiod (hkp.symm.trans hk0), ?_⟩
    change (timespecAddMs t.expirationTime t.period).toNs = _
    rw [toNs_timespecAddMs _ hms, hexp, Creation.periodNs, hkp]
    push_cast
    ring

/-- A timer that fires once is spent. -/
theorem Timely.spend (h : Timely s A I) {a : Addr} {B J : List Addr} {now : Timespec}
    {t : QueueTimer} {h' : Heap} {p q : Option Addr}
    (hq' : Queued
      { s with heap := h', activeHead := p, inactiveHead := q, fired := a :: s.fired } B J)
    (hfiring : s.control = .firing now) (hA : A = a :: B) (ht : s.heap a = some t)
    (hdue : t.expirationTime.toNs ≤ now.toNs) (hperiod : t.period = 0)
    (hcore : h'.core = Function.update s.heap.core a (some t.spent)) :
    Timely { s with heap := h', activeHead := p, inactiveHead := q, fired := a :: s.fired }
      B J := by
  obtain ⟨haB, hother, hsorted⟩ := h.tail_sorted hA hcore
  refine h.callback hq' hfiring hA ht hdue hcore rfl ?_ (fun _ _ => Iff.rfl) ?_
  · refine hsorted.imp_of_mem fun hb hc hle => ?_
    rwa [Heap.due_congr (hother _ hb), Heap.due_congr (hother _ hc)]
  · intro k hkp _
    exact Or.inr ⟨haB, hkp.trans hperiod⟩

/-- **Every regular and punctual step keeps every timer on time.** -/
theorem Timely.step (h : Timely s A I) (hok : RegularPunctual s e) (hq' : Queued s' A' I')
    (he : Effect s A I e s' A' I') : Timely s' A' I' := by
  obtain ⟨hr, hp⟩ := hok
  cases he with
  | create timer tval dueTime period h' p hidle hnew hcore =>
    exact h.create hq' (.create timer tval dueTime period h' p hidle hnew hcore) rfl hp
  | change => exact hr.elim
  | fire tval hidle => exact h.fire hq' (.fire tval hidle) rfl hr
  | rearm a B now t h' p hfiring hA ht hexpired hperiod hcore =>
    obtain ⟨hcmp, hrearm⟩ := hp now a t B hfiring (hA ▸ h.queued.active) ht
    have hdue := hcmp.mp hexpired
    obtain ⟨hms, hlatest⟩ := hrearm hdue hperiod
    rw [insertAt_of_clear hlatest.1] at hq' ⊢
    exact h.rearm hq' hfiring hA ht hdue hperiod hms hlatest hcore
  | spend a _ now t h' p q hfiring hA ht hexpired hperiod hcore =>
    obtain ⟨hcmp, -⟩ := hp now a t A' hfiring (hA ▸ h.queued.active) ht
    exact h.spend hq' hfiring hA ht (hcmp.mp hexpired) hperiod hcore
  | finish now hfiring hend =>
    refine ⟨hq', Or.inl rfl, h.sorted, fun k hk => ?_, fun _ hc => ?_, h.fired⟩
    · exact (h.onTime k hk).frame rfl Iff.rfl rfl fun t ht => ⟨t, ht, le_rfl⟩
    · cases hc
  | delete => exact hr.elim

theorem ne_destroy_of_regular (h : Regular s e) : e ≠ .destroy := by
  rintro rfl
  exact h

theorem ne_delete_of_regular (h : Regular s e) (timer : Addr) : e ≠ .delete timer := by
  rintro rfl
  exact h

theorem timely_of_reaches (hs : ReachesIf step RegularPunctual createTimerQueue s) :
    ∃ A I, Timely s A I := by
  refine hs.invariant (P := fun s => ∃ A I, Timely s A I) ⟨[], [], timely_createTimerQueue⟩ ?_
  rintro t t' e ⟨A, I, ht⟩ hok hstep
  obtain ⟨A', I', hq', he⟩ := step_effect ht.queued ht.calm (ne_destroy_of_regular hok.1)
    (fun timer h => absurd h (ne_delete_of_regular hok.1 timer)) hstep
  exact ⟨A', I', ht.step hok hq' he⟩

/-- The last callback of a timer was due by the time of the last call. -/
theorem Timely.last_le (h : Timely s A I) {now : Timespec}
    (hclock : s.fireTimes.head? = some now) (hk : k ∈ s.created) (m : ℕ)
    (hm : s.fired.count k.timer = m + 1) : k.first + m * k.periodNs ≤ now.toNs := by
  obtain ⟨u, hu, hle⟩ := (h.onTime k hk).last m hm
  rw [hclock] at hu
  obtain rfl := Option.some.inj hu
  exact hle

/-- **When no active timer is due any more, every timer has fired as often as it
should.** -/
theorem Timely.law (h : Timely s A I) {now : Timespec} (hclock : s.fireTimes.head? = some now)
    (hnone : ∀ a ∈ A, now.toNs < s.heap.due a) : Law s now := by
  intro k hk
  have hlast := h.last_le hclock hk
  rcases (h.onTime k hk).place with ⟨hmem, hdue, honce⟩ | ⟨-, hperiod, hone⟩
  · refine (Creation.expected_of_between hlast ?_ honce).symm
    rw [← hdue]
    exact hnone _ hmem
  · have hdue := hlast 0 hone
    rw [Nat.cast_zero, zero_mul, add_zero] at hdue
    rw [hone, Creation.expected_of_spent hperiod hdue]

/-- No timer fires more often than it should. -/
theorem Timely.count_le (h : Timely s A I) {now : Timespec}
    (hclock : s.fireTimes.head? = some now) (hk : k ∈ s.created) :
    s.fired.count k.timer ≤ k.expected now.toNs := by
  refine Creation.le_expected (h.last_le hclock hk) fun hperiod => ?_
  rcases (h.onTime k hk).place with ⟨-, -, honce⟩ | ⟨-, -, hone⟩
  · rw [honce hperiod]
    exact Nat.zero_le 1
  · exact hone.le

/-- So there are not more callbacks in all than there should be. -/
theorem Timely.length_fired_le (h : Timely s A I) {now : Timespec}
    (hclock : s.fireTimes.head? = some now) :
    s.fired.length ≤ (s.created.map fun k => k.expected now.toNs).sum := by
  have hcount : (s.allocated.map fun a => s.fired.count a).sum = s.fired.length := by
    rw [← List.sum_toFinset _ h.queued.nodup]
    have hsum := Multiset.sum_count_eq_card (m := (s.fired : Multiset Addr))
      (s := s.allocated.toFinset) fun a ha => List.mem_toFinset.mpr (h.fired a ha)
    simpa only [Multiset.coe_count, Multiset.coe_card] using hsum
  rw [← hcount, Queue.allocated, List.map_map]
  exact List.sum_le_sum fun k hk => h.count_le hclock hk

/-- In order, the list has no timer due if its first one is not. -/
theorem Timely.due_lt (h : Timely s A I) {now : Timespec}
    (hhead : ∀ a B t, A = a :: B → s.heap a = some t → now.toNs < t.expirationTime.toNs) :
    ∀ a ∈ A, now.toNs < s.heap.due a := by
  intro b hb
  cases A with
  | nil => cases hb
  | cons a B =>
    obtain ⟨r, hr⟩ := h.queued.active.link_eq_some (a := a) List.mem_cons_self
    obtain ⟨t, ht, -⟩ := Heap.link_eq_some hr
    have hlt := hhead a B t rfl ht
    rw [← Heap.due_of_eq ht] at hlt
    rcases List.mem_cons.mp hb with rfl | hb
    · exact hlt
    · exact hlt.trans_le ((List.pairwise_cons.mp h.sorted).1 b hb)

end Invariant

/-! ### Runs -/

section Run

variable {s s' : Queue} {e : Label} {now : Timespec}

/-- A call that ends has fired every timer as often as it should. -/
theorem law_of_fireEnds {A I : List Addr} (h : Timely s A I) (hok : RegularPunctual s e)
    (hend : FireEnds s e s' now) : Law s' now := by
  obtain ⟨hstep, hidle, hwhich⟩ := hend
  obtain ⟨A', I', hq', he⟩ := step_effect h.queued h.calm (ne_destroy_of_regular hok.1)
    (fun timer h => absurd h (ne_delete_of_regular hok.1 timer)) hstep
  have h' := h.step hok hq' he
  rcases hwhich with ⟨rfl, hfiring⟩ | ⟨tval, rfl, rfl⟩
  · cases he with
    | rearm a B now' t h' p hfiring' =>
      rw [show s.control = .idle from hidle] at hfiring'
      cases hfiring'
    | spend a B now' t h' p q hfiring' =>
      rw [show s.control = .idle from hidle] at hfiring'
      cases hfiring'
    | finish now' hfiring' hend =>
      obtain rfl : now' = now := Control.firing.inj (hfiring'.symm.trans hfiring)
      refine h'.law (h.clock now' hfiring) (h.due_lt fun a B t hA ht => ?_)
      have hcmp := (hok.2 now' a t B hfiring (hA ▸ h.queued.active) ht).1
      have hlt := hend a B t hA ht
      exact not_le.mp fun hle => absurd (hcmp.mpr hle) (not_le.mpr hlt)
  · cases he with
    | fire _ hidle' =>
      have hA : A = [] := by
        by_contra hA
        change (if A = [] then Control.idle else _) = Control.idle at hidle
        rw [if_neg hA] at hidle
        cases hidle
      exact h'.law rfl (by rw [hA]; exact fun a ha => by cases ha)

/-- **The firing law.** Along every regular run whose steps are punctual, a call of
`FireExpiredTimerQueueTimers` that ends has fired every timer as often as it should by
the time it has read. And a call does end: each turn of its loop ends it or makes one
callback, and there are never more callbacks than there should be. -/
theorem firing_law (hs : ReachesIf step RegularPunctual createTimerQueue s) :
    (∀ e s' now, RegularPunctual s e → FireEnds s e s' now → Law s' now) ∧
    ∀ now, s.control = .firing now →
      s.fired.length ≤ (s.created.map fun k => k.expected now.toNs).sum ∧
      ∃ s', step s .turn = some s' ∧
        (s'.control = .idle ∨
          s'.control = .firing now ∧ s'.fired.length = s.fired.length + 1) := by
  obtain ⟨A, I, h⟩ := timely_of_reaches hs
  refine ⟨fun e s' now hok hend => law_of_fireEnds h hok hend, fun now hfiring => ?_⟩
  refine ⟨h.length_fired_le (h.clock now hfiring), s.settle (fireTurn s now), ?_, ?_⟩
  · simp only [step, hfiring]
  · obtain ⟨A', I', -, he⟩ := fireTurn_effect h.queued hfiring
    generalize s.settle (fireTurn s now) = s' at he ⊢
    cases he with
    | rearm => exact Or.inr ⟨hfiring, rfl⟩
    | spend => exact Or.inr ⟨hfiring, rfl⟩
    | finish => exact Or.inl rfl

end Run

/-! ### A timer that waits, and one that does not -/

/-- Some milliseconds after midnight. -/
def afterMidnight (ms : ℕ) (h : ms * 1000 < 1000000) : Timeval := ⟨0, ms * 1000, h⟩

/-- A timer due after `10` ms, one due after `5` ms, and a look at the queue after `7`. -/
def behindLater : List Label :=
  [.create 0 midnight 10 0, .create 1 midnight 5 0, .fire (afterMidnight 7 (by decide))]

/-- The second timer should have fired, and has not: it is behind the first. -/
theorem firing_law_behindLater :
    ¬∀ s e s' now, ReachesIf step Regular createTimerQueue s → Regular s e →
      FireEnds s e s' now → Law s' now := by
  intro hall
  have hmeet : AllMeet step Regular createTimerQueue behindLater := by
    refine ⟨trivial, fun s₁ hs₁ => ⟨trivial, fun s₂ hs₂ => ⟨?_, fun _ _ => trivial⟩⟩⟩
    have htimes : (run step createTimerQueue (behindLater.take 2)).map Queue.fireTimes =
        some [] := by decide +kernel
    have hrun : run step createTimerQueue (behindLater.take 2) = some s₂ := by
      change run step createTimerQueue [_, _] = _
      rw [run_cons, Option.mem_def.mp hs₁, Option.bind_some, run_cons, Option.mem_def.mp hs₂]
      rfl
    rw [hrun, Option.map_some] at htimes
    rw [Regular, Option.some.inj htimes]
    exact fun t ht => by cases ht
  have hlaw := hall _ .turn _ (timespecGettimeofday (afterMidnight 7 (by decide)))
    (reachesIf_of_run behindLater hmeet (run_eq_final (by decide +kernel))) trivial
    ⟨step_eq_final (by decide +kernel), by decide +kernel, Or.inl ⟨rfl, by decide +kernel⟩⟩
  exact absurd (hlaw ⟨1, timespecGettimeofday midnight, 5, 0⟩ (by decide +kernel))
    (by decide +kernel)

/-- Three timers, the second of them periodic, and a look at the queue after `6` ms; with each step
the active list that it finds. -/
def threeTimers : List (List Addr × Label) :=
  [([], .create 0 midnight 1 0), ([0], .create 1 midnight 2 3), ([0, 1], .create 2 midnight 3 0),
    ([0, 1, 2], .fire (afterMidnight 6 (by decide))), ([0, 1, 2], .turn), ([1, 2], .turn),
    ([2, 1], .turn), ([1], .turn)]

/-- The turn after these ends the call, the periodic timer being due again at `8` ms. -/
theorem firing_law_threeTimers :
    ∃ s s', run step createTimerQueue (threeTimers.map Prod.snd) = some s ∧
      step s .turn = some s' ∧ s'.fired = [1, 2, 1, 0] ∧
      Law s' (timespecGettimeofday (afterMidnight 6 (by decide))) := by
  obtain ⟨s, hs⟩ : ∃ s, s = final (checkedStep step Checked Prod.snd) createTimerQueue
    threeTimers := ⟨_, rfl⟩
  have hrun : run (checkedStep step Checked Prod.snd) createTimerQueue threeTimers = some s :=
    hs ▸ run_eq_final (by decide +kernel)
  have hreach := reachesIf_of_checked (fun _ _ h => Checked.regularPunctual h) threeTimers hrun
  have hlast : Checked s ([1], .turn) := by
    rw [hs]
    decide +kernel
  have hstep : step s .turn = some (final step s [.turn]) := by
    rw [hs]
    exact step_eq_final (by decide +kernel)
  have hends : FireEnds s .turn (final step s [.turn])
      (timespecGettimeofday (afterMidnight 6 (by decide))) := by
    refine ⟨hstep, ?_, .inl ⟨rfl, ?_⟩⟩
    all_goals
      rw [hs]
      decide +kernel
  refine ⟨s, _, run_of_checked threeTimers hrun, hstep, ?_,
    (firing_law hreach).1 .turn _ _ hlast.regularPunctual hends⟩
  rw [hs]
  decide +kernel

end Timer

end Libuzi
