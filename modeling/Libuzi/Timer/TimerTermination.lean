import Libuzi.Timer.TimerDeletion

/-!
# When the loop of `FireExpiredTimerQueueTimers` ends

The loop reads the clock once and fires the first active timer as long as it has expired;
a periodic timer is put back on the list being drained, one period later. It ends if every
firing brings the timers closer to the time read, and `timespec_add_ms` does that for every
period but the multiples of `2 ^ 26` ms: for these its 32-bit product is `0`, and the timer
expires again at once (`Timer.Stalled`).

A list of stalled timers is fired round and round (`Timer.Stuck`, `Timer.Stuck.turn`).
Otherwise the loop gets on. The measure has two parts: how much is left to do
(`Timer.work` – for a timer that advances, how far it is behind the clock, and something
for each timer on the list), and, where a stalled timer only goes from the front of the
list to its end, how far from the front the first timer is that is not stalled. Times that
`timespec_compare` does not compare correctly do no harm here: what it returns as the lag
of an expired timer still gets smaller with each firing (`Timer.lag_timespecAddMs`).

So the loop ends if and only if no turn of it begins with an active list of stalled timers
only (`Timer.fire_finishes_iff`); and it does end when no period is a multiple of `2 ^ 26`.
-/

namespace Libuzi

open Runs Chain

namespace Timer

/-! ### Ending and not ending -/

/-- **The loop comes to its end** after some more turns. -/
inductive Finishes : Queue → Prop
  /-- It has ended. -/
  | idle {s : Queue} : s.control = .idle → Finishes s
  /-- It ends after one more turn and some more. -/
  | turn {s s' : Queue} : step s .turn = some s' → Finishes s' → Finishes s

/-- What some turns of the loop lead to. -/
abbrev Turns (s s' : Queue) : Prop := ReachesIf step (fun _ e => e = .turn) s s'

/-- The timer has expired at `now`, is periodic, and does not advance when it fires. -/
def Stalled (now : Timespec) (t : QueueTimer) : Prop :=
  0 ≤ timespecCompare now t.expirationTime ∧ t.period ≠ 0 ∧ t.period * 1000000 = 0

instance (now : Timespec) (t : QueueTimer) : Decidable (Stalled now t) :=
  inferInstanceAs (Decidable (_ ∧ _ ∧ _))

/-- **A turn of the loop begins with an active list of stalled timers only.** -/
def Stuck (s : Queue) : Prop :=
  ∃ now A, s.control = .firing now ∧ A ≠ [] ∧ Path s.heap.link s.activeHead A none ∧
    ∀ a ∈ A, ∃ t, s.heap a = some t ∧ Stalled now t

/-! ### How far a timer is behind the clock -/

section Lag

variable {now e : Timespec} {t : QueueTimer}

/-- The product of `timespec_add_ms` is `0` for the multiples of `2 ^ 26`. -/
theorem mul_eq_zero_iff {ms : UInt32} : ms * 1000000 = 0 ↔ 2 ^ 26 ∣ ms.toNat := by
  have hfactor : ms.toNat * 1000000 = 2 ^ 6 * (ms.toNat * 15625) := by omega
  have hcoprime : Nat.Coprime (2 ^ 26) 15625 := by decide +kernel
  rw [← UInt32.toNat_inj, UInt32.toNat_mul]
  change ms.toNat * 1000000 % (2 ^ 6 * 2 ^ 26) = 0 ↔ 2 ^ 26 ∣ ms.toNat
  rw [← Nat.dvd_iff_mod_eq_zero, hfactor, Nat.mul_dvd_mul_iff_left (by decide)]
  exact ⟨Nat.Coprime.dvd_of_dvd_mul_right hcoprime, fun h => Nat.dvd_mul_right_of_dvd h _⟩

/-- How far the time `e` is behind `now`, in nanoseconds, with the difference of seconds that
`timespec_compare` returns. -/
def lag (now e : Timespec) : ℤ :=
  Int.bmod (now.tvSec - e.tvSec) (2 ^ 32) * 1000000000 + (now.tvNsec - e.tvNsec)

/-- The seconds of an expired time do not lie in the future. -/
theorem bmod_nonneg_of_expired (h : 0 ≤ timespecCompare now e) :
    0 ≤ Int.bmod (now.tvSec - e.tvSec) (2 ^ 32) := by
  rw [timespecCompare] at h
  split at h
  next heq => rw [heq, Int.sub_self, Int.zero_bmod]
  next => exact h

theorem lag_pos_of_expired (h : 0 ≤ timespecCompare now e) : 0 < lag now e + 1000000000 := by
  have hsec := bmod_nonneg_of_expired h
  have he := e.tvNsec_lt
  rw [lag]
  omega

/-- **A time that has expired comes closer by what is added to it.** -/
theorem lag_timespecAddMs (h : 0 ≤ timespecCompare now e) (ms : UInt32) :
    lag now (timespecAddMs e ms) = lag now e - (ms * 1000000).toNat := by
  have hsec := bmod_nonneg_of_expired h
  have hlt : Int.bmod (now.tvSec - e.tvSec) (2 ^ 32) < 2 ^ 31 := by
    have := Int.bmod_lt (x := now.tvSec - e.tvSec) (m := 2 ^ 32) (by decide)
    omega
  have he := e.tvNsec_lt
  have hadd : (ms * 1000000).toNat < 2 ^ 32 := (ms * 1000000).toNat_lt
  -- At most five seconds are added, so that the difference does not wrap.
  have hwrap : ∀ k : ℕ, k ≤ 5 → Int.bmod (now.tvSec - (e.tvSec + k)) (2 ^ 32) =
      Int.bmod (now.tvSec - e.tvSec) (2 ^ 32) - k := by
    intro k hk
    have hrange := bmod_eq_self (d := Int.bmod (now.tvSec - e.tvSec) (2 ^ 32) - k) (by omega)
      (by omega)
    rw [Int.bmod_sub_bmod] at hrange
    rw [← hrange]
    congr 1
    omega
  simp only [lag, timespecAddMs]
  rw [hwrap _ (by omega)]
  omega

/-- What a timer adds to the work of the loop: nothing for a stalled period, one for a timer
that fires once, and its lag for one that advances. -/
def rank (now : Timespec) (t : QueueTimer) : ℕ :=
  if t.period = 0 then 1
  else if t.period * 1000000 = 0 then 0
  else (lag now t.expirationTime + 1000000000).toNat

/-- Rearming a stalled timer changes nothing that the loop looks at. -/
theorem expirationTime_rearmed_of_stalled (h : t.period * 1000000 = 0) :
    t.rearmed.expirationTime = t.expirationTime := by
  have hlt := t.expirationTime.tvNsec_lt
  have hzero : (t.period * 1000000).toNat = 0 := by rw [h]; rfl
  simp only [QueueTimer.rearmed]
  ext
  · simp only [timespecAddMs, hzero]
    omega
  · simp only [timespecAddMs, hzero]
    omega

theorem stalled_rearmed (h : Stalled now t) : Stalled now t.rearmed := by
  refine ⟨?_, h.2⟩
  rw [expirationTime_rearmed_of_stalled h.2.2]
  exact h.1

/-- **Firing a timer that advances leaves less to do.** -/
theorem rank_rearmed_lt (h : 0 ≤ timespecCompare now t.expirationTime) (hper : t.period ≠ 0)
    (hadv : t.period * 1000000 ≠ 0) : rank now t.rearmed < rank now t := by
  have hpos := lag_pos_of_expired h
  have hadd : (t.period * 1000000).toNat ≠ 0 := by
    intro hz
    exact hadv (UInt32.toNat_inj.mp hz)
  have hlag := lag_timespecAddMs h t.period
  have hexp : t.rearmed.expirationTime = timespecAddMs t.expirationTime t.period := rfl
  have hper' : ¬ t.rearmed.period = 0 := hper
  have hadv' : ¬ t.rearmed.period * 1000000 = 0 := hadv
  rw [rank, rank, if_neg hper, if_neg hadv, if_neg hper', if_neg hadv', hexp]
  omega

theorem rank_of_stalled (h : Stalled now t) : rank now t = 0 := by
  rw [rank, if_neg h.2.1, if_pos h.2.2]

end Lag

/-! ### The work that is left -/

section Work

variable {now : Timespec} {h h' : Heap} {a : Addr} {t t' : QueueTimer} {A B : List Addr}

/-- What the timer at an address adds to the work. -/
def Heap.rank (now : Timespec) (h : Heap) (a : Addr) : ℕ :=
  match h a with
  | some t => Timer.rank now t
  | none => 0

/-- **What is left to do**: the work of the timers on the active list, and one for each. -/
def work (now : Timespec) (h : Heap) (A : List Addr) : ℕ :=
  (A.map fun a => h.rank now a + 1).sum

theorem Heap.rank_of_eq (ha : h a = some t) : h.rank now a = Timer.rank now t := by
  rw [Heap.rank, ha]

theorem Heap.rank_core : h.core.rank now a = h.rank now a := by
  rw [Heap.rank, Heap.rank, Heap.core]
  cases h a <;> rfl

theorem Heap.rank_congr (hc : h'.core a = h.core a) : h'.rank now a = h.rank now a := by
  rw [← Heap.rank_core, Heap.rank, hc, ← Heap.rank, Heap.rank_core]

theorem Heap.rank_of_core (hc : h.core a = some t) : h.rank now a = Timer.rank now t := by
  rw [← Heap.rank_core, Heap.rank_of_eq hc]

theorem work_cons (now : Timespec) (h : Heap) (a : Addr) (A : List Addr) :
    work now h (a :: A) = h.rank now a + 1 + work now h A := by
  rw [work, List.map_cons, List.sum_cons, work]

theorem work_congr (hA : ∀ a ∈ A, h'.core a = h.core a) : work now h' A = work now h A := by
  rw [work, work]
  refine congrArg List.sum (List.map_congr_left fun a ha => ?_)
  rw [Heap.rank_congr (hA a ha)]

theorem work_perm (hAB : A.Perm B) : work now h A = work now h B :=
  (hAB.map _).sum_nat

theorem work_le_of_sublist (hAB : A.Sublist B) : work now h A ≤ work now h B := by
  induction hAB with
  | slnil => exact Nat.le_refl _
  | cons b _ ih =>
    rw [work_cons]
    omega
  | cons_cons a _ ih =>
    rw [work_cons, work_cons]
    omega

/-- A step that writes one timer leaves the others of a list as they are. -/
theorem core_eq_of_update (hcore : h'.core = Function.update h.core a (some t')) (haB : a ∉ B) :
    ∀ b ∈ B, h'.core b = h.core b := by
  intro b hb
  have hba : b ≠ a := by
    rintro rfl
    exact haB hb
  rw [hcore, Function.update_of_ne hba]

/-- **Putting a timer back leaves no more to do than the timer itself adds.** -/
theorem work_insertAt_le (hcore : h'.core = Function.update h.core a (some t')) (haB : a ∉ B)
    (stop : Addr → Addr → Bool) :
    work now h' (insertAt stop a B) ≤ rank now t' + 1 + work now h B := by
  obtain ⟨ys, hsub, hperm⟩ := exists_sublist_insertAt stop a B
  have hself : h'.core a = some t' := by rw [hcore, Function.update_self]
  rw [work_perm hperm, work_cons, Heap.rank_of_core hself,
    work_congr (core_eq_of_update hcore fun hy => haB (hsub.subset hy))]
  have hle : work now h ys ≤ work now h B := work_le_of_sublist hsub
  omega

/-- Whether the timer at an address is stalled. -/
def Heap.stalled (now : Timespec) (h : Heap) (a : Addr) : Bool :=
  match h a with
  | some t => decide (Stalled now t)
  | none => false

theorem Heap.stalled_iff : h.stalled now a = true ↔ ∃ t, h a = some t ∧ Stalled now t := by
  rw [Heap.stalled]
  cases h a with
  | none => simp
  | some t => simp

theorem Heap.stalled_core : h.core.stalled now a = h.stalled now a := by
  rw [Heap.stalled, Heap.stalled, Heap.core]
  cases h a <;> rfl

theorem Heap.stalled_congr (hc : h'.core a = h.core a) : h'.stalled now a = h.stalled now a := by
  rw [← Heap.stalled_core, Heap.stalled, hc, ← Heap.stalled, Heap.stalled_core]

theorem Heap.stalled_of_core (hc : h.core a = some t) :
    h.stalled now a = decide (Stalled now t) := by
  rw [← Heap.stalled_core, Heap.stalled, hc]

/-- How many stalled timers come before the first one that is not stalled. -/
def front (now : Timespec) (h : Heap) (A : List Addr) : ℕ :=
  A.findIdx fun a => !h.stalled now a

theorem front_congr (hB : ∀ b ∈ B, h'.core b = h.core b) : front now h' B = front now h B := by
  rw [front, front]
  induction B with
  | nil => rfl
  | cons b B ih =>
    rw [List.forall_mem_cons] at hB
    rw [List.findIdx_cons, List.findIdx_cons, ih hB.2, Heap.stalled_congr hB.1]

/-- Going from the front of the list to its end, a stalled timer makes way. -/
theorem front_append_lt (hcore : h'.core = Function.update h.core a (some t')) (haB : a ∉ B)
    (ha : h.stalled now a = true) (hB : ∃ b ∈ B, h.stalled now b = false) :
    front now h' (B ++ [a]) < front now h (a :: B) := by
  have hcongr : front now h' B = front now h B := front_congr (core_eq_of_update hcore haB)
  have hlt : front now h' B < B.length := by
    rw [hcongr, front, List.findIdx_lt_length]
    obtain ⟨b, hb, hstalled⟩ := hB
    exact ⟨b, hb, by rw [hstalled]; rfl⟩
  have happend : front now h' (B ++ [a]) = front now h' B := by
    rw [front, List.findIdx_append]
    exact if_pos hlt
  have hcons : front now h (a :: B) = front now h B + 1 := by
    rw [front, List.findIdx_cons, ha]
    rfl
  omega

end Work

/-! ### A turn of the loop -/

section Turn

variable {s s' : Queue} {A I : List Addr} {now : Timespec}

/-- **A turn that does not end the loop leaves less to do, or brings the first timer that is
not stalled closer to the front.** -/
theorem turn_decreases (hq : Queued s A I) (hc : s.control = .firing now) (hstuck : ¬ Stuck s)
    (hstep : step s .turn = some s') :
    s'.control = .idle ∨ ∃ A' I', Queued s' A' I' ∧ s'.control = .firing now ∧
      (work now s'.heap A' < work now s.heap A ∨
        work now s'.heap A' = work now s.heap A ∧ front now s'.heap A' < front now s.heap A) := by
  obtain ⟨A', I', hq', he⟩ := step_effect hq (.inr ⟨now, hc⟩) (by simp) (by simp) hstep
  cases he with
  | finish now' hfiring hend => exact .inl rfl
  | spend a B now' t h' p q hfiring hAB ht hexp hper hcore =>
    subst hAB
    -- a timer that fires once leaves the list, and its work with it
    refine .inr ⟨_, _, hq', hc, .inl ?_⟩
    have haB := hq.head_notMem.1
    change work now h' A' < _
    rw [work_congr (core_eq_of_update hcore haB), work_cons]
    omega
  | rearm a B now' t h' p hfiring hAB ht hexp hper hcore =>
    subst hAB
    obtain rfl : now = now' := Control.firing.inj (hc.symm.trans hfiring)
    have haB := hq.head_notMem.1
    refine .inr ⟨_, _, hq', hc, ?_⟩
    change work now h' _ < _ ∨ work now h' _ = _ ∧ front now h' _ < _
    by_cases hadv : t.period * 1000000 = 0
    · -- A stalled timer: it goes to the end, or another one is lost.
      have hstalled : Stalled now t := ⟨hexp, hper, hadv⟩
      have hrank := rank_of_stalled hstalled
      have hrank' := rank_of_stalled (stalled_rearmed hstalled)
      have hself : h'.core a = some t.rearmed := by rw [hcore, Function.update_self]
      rcases insertAt_cases (s.heap.stops (timespecAddMs t.expirationTime t.period)) a B with
        ⟨-, heq⟩ | ⟨ys, c, d, zs, rfl, -, heq⟩
      · rw [heq]
        refine .inr ⟨?_, front_append_lt hcore haB (Heap.stalled_iff.mpr ⟨t, ht, hstalled⟩) ?_⟩
        · rw [work_perm (List.perm_append_singleton a B), work_cons, work_cons,
            Heap.rank_of_core hself, Heap.rank_of_eq ht, hrank, hrank',
            work_congr (core_eq_of_update hcore haB)]
        · by_contra hall
          push Not at hall
          refine hstuck ⟨now, a :: B, hc, by simp, hq.active, fun b hb => ?_⟩
          rcases List.mem_cons.mp hb with rfl | hb
          · exact ⟨t, ht, hstalled⟩
          · exact Heap.stalled_iff.mp (by simpa using hall b hb)
      · refine .inl ?_
        have haB' : a ∉ ys ++ c :: zs := fun hmem =>
          haB ((perm_second ys c d zs).mem_iff.mpr (List.mem_cons_of_mem d hmem))
        rw [heq, work_perm (perm_second ys c a zs), work_cons, work_cons,
          work_perm (perm_second ys c d zs), work_cons, Heap.rank_of_core hself, hrank',
          work_congr (core_eq_of_update hcore haB')]
        omega
    · -- A timer that advances is closer to the present than before.
      refine .inl (lt_of_le_of_lt (work_insertAt_le hcore haB _) ?_)
      have hlt := rank_rearmed_lt hexp hper hadv
      rw [work_cons, Heap.rank_of_eq ht]
      omega

/-- A turn of a sound queue leaves it sound. -/
theorem queued_of_turns (hq : Queued s A I) (hcalm : Calm s) (hturns : Turns s s') :
    ∃ A' I', Queued s' A' I' ∧ Calm s' := by
  refine hturns.invariant (P := fun s => ∃ A I, Queued s A I ∧ Calm s) ⟨A, I, hq, hcalm⟩ ?_
  rintro t t' e ⟨A, I, hq, hcalm⟩ rfl hstep
  obtain ⟨A', I', hq', he⟩ := step_effect hq hcalm (by simp) (by simp) hstep
  exact ⟨A', I', hq', he.calm⟩

/-- **A list of stalled timers stays one.** -/
theorem Stuck.turn (hq : Queued s A I) (h : Stuck s) (hstep : step s .turn = some s') :
    Stuck s' := by
  obtain ⟨now, B, hc, hne, hpath, hall⟩ := h
  obtain rfl := hq.active.unique hpath
  obtain ⟨A', I', hq', he⟩ := step_effect hq (.inr ⟨now, hc⟩) (by simp) (by simp) hstep
  cases he with
  | finish now' hfiring hend =>
    obtain rfl : now = now' := Control.firing.inj (hc.symm.trans hfiring)
    obtain ⟨a, B, rfl⟩ := List.exists_cons_of_ne_nil hne
    obtain ⟨t, ht, hstalled⟩ := hall a List.mem_cons_self
    -- the loop ends before a timer that has not expired, and all have
    exact absurd hstalled.1 (not_le.mpr (hend a B t rfl ht))
  | spend a B now' t h' p q hfiring hAB ht hexp hper hcore =>
    obtain ⟨u, hu, hstalled⟩ := hall a (hAB ▸ List.mem_cons_self)
    obtain rfl := Option.some.inj (ht.symm.trans hu)
    -- a stalled timer is periodic
    exact absurd hper hstalled.2.1
  | rearm a B now' t h' p hfiring hAB ht hexp hper hcore =>
    subst hAB
    have haB := hq.head_notMem.1
    obtain ⟨u, hu, hstalled⟩ := hall a List.mem_cons_self
    obtain rfl := Option.some.inj (ht.symm.trans hu)
    refine ⟨now, _, hc, ?_, hq'.active, fun b hb => Heap.stalled_iff.mp ?_⟩
    · obtain ⟨ys, -, hperm⟩ := exists_sublist_insertAt
        (s.heap.stops (timespecAddMs t.expirationTime t.period)) a B
      intro hnil
      rw [hnil] at hperm
      exact absurd hperm.length_eq (by simp)
    · change h'.stalled now b = true
      rcases mem_of_mem_insertAt hb with rfl | hbB
      · rw [Heap.stalled_of_core (t := t.rearmed) (by rw [hcore, Function.update_self])]
        exact decide_eq_true (stalled_rearmed hstalled)
      · rw [Heap.stalled_congr (core_eq_of_update hcore haB b hbB)]
        exact Heap.stalled_iff.mpr (hall b (List.mem_cons_of_mem a hbB))

/-- A loop that ends has not got stuck. -/
theorem Finishes.not_stuck (h : Finishes s) (hq : Queued s A I) : ¬ Stuck s := by
  induction h generalizing A I with
  | idle hidle =>
    rintro ⟨now, B, hc, -⟩
    rw [hidle] at hc
    cases hc
  | turn hstep _ ih =>
    intro hstuck
    obtain ⟨now, -, hc, -⟩ := id hstuck
    obtain ⟨A', I', hq', -⟩ := step_effect hq (.inr ⟨now, hc⟩) (by simp) (by simp) hstep
    exact ih hq' (hstuck.turn hq hstep)

/-- A loop that ends, ends after some turns too. -/
theorem Finishes.of_turns (h : Finishes s) (hturns : Turns s s') : Finishes s' := by
  refine hturns.invariant (P := Finishes) h ?_
  rintro t t' e hfin rfl hstep
  cases hfin with
  | idle hidle =>
    rw [step, hidle] at hstep
    cases hstep
  | turn hstep' hrest =>
    obtain rfl := Option.some.inj (hstep.symm.trans hstep')
    exact hrest

/-- **A loop that never gets stuck ends.** -/
theorem finishes_of_never_stuck (hq : Queued s A I) (hc : s.control = .firing now)
    (hnever : ∀ s', Turns s s' → ¬ Stuck s') : Finishes s := by
  induction hw : work now s.heap A using Nat.strong_induction_on generalizing s A I with
  | _ w ihw =>
    induction hf : front now s.heap A using Nat.strong_induction_on generalizing s A I with
    | _ f ihf =>
      have hstep : step s .turn = some (s.settle (fireTurn s now)) := by rw [step, hc]
      have hturn : Turns s (s.settle (fireTurn s now)) := ReachesIf.refl.tail rfl hstep
      have hnever' : ∀ s', Turns (s.settle (fireTurn s now)) s' → ¬ Stuck s' :=
        fun s' hs' => hnever s' (hturn.trans hs')
      obtain hidle | ⟨A', I', hq', hc', hless | ⟨heq, hless⟩⟩ :=
        turn_decreases hq hc (hnever s .refl) hstep
      · exact .turn hstep (.idle hidle)
      · exact .turn hstep (ihw _ (hw ▸ hless) hq' hc' hnever' rfl)
      · exact .turn hstep (ihf _ (hf ▸ hless) hq' hc' hnever' (heq.trans hw) rfl)

/-- A timer keeps its period while it fires, and no timer joins the active list: a loop that
begins without stalled periods does not get stuck. -/
theorem not_stuck_of_periods (hq : Queued s A I) (hcalm : Calm s)
    (hper : ∀ a ∈ A, ∀ t, s.heap.core a = some t → t.period = 0 ∨ t.period * 1000000 ≠ 0)
    (hturns : Turns s s') : ¬ Stuck s' := by
  have hinv : ∃ A I, Queued s' A I ∧ Calm s' ∧ ∀ a ∈ A, ∀ t, s'.heap.core a = some t →
      t.period = 0 ∨ t.period * 1000000 ≠ 0 := by
    refine hturns.invariant (P := fun s => ∃ A I, Queued s A I ∧ Calm s ∧ ∀ a ∈ A, ∀ t,
      s.heap.core a = some t → t.period = 0 ∨ t.period * 1000000 ≠ 0)
      ⟨A, I, hq, hcalm, hper⟩ ?_
    rintro s s' e ⟨A, I, hq, hcalm, hper⟩ rfl hstep
    obtain ⟨A', I', hq', he⟩ := step_effect hq hcalm (by simp) (by simp) hstep
    refine ⟨A', I', hq', he.calm, ?_⟩
    cases he with
    | finish now' hfiring hend => exact hper
    | spend a B now' t h' p q hfiring hAB ht hexp hper' hcore =>
      subst hAB
      intro b hb u hu
      have haB := hq.head_notMem.1
      refine hper b (List.mem_cons_of_mem a hb) u ?_
      rwa [← core_eq_of_update hcore haB b hb]
    | rearm a B now' t h' p hfiring hAB ht hexp hper' hcore =>
      subst hAB
      intro b hb u hu
      have haB := hq.head_notMem.1
      change h'.core b = some u at hu
      rcases mem_of_mem_insertAt hb with rfl | hbB
      · rw [hcore, Function.update_self] at hu
        obtain rfl := Option.some.inj hu
        -- rearming a timer changes its expiration time only
        have hkept := hper b List.mem_cons_self _ (Heap.core_of_eq ht)
        exact hkept
      · refine hper b (List.mem_cons_of_mem a hbB) u ?_
        rwa [← core_eq_of_update hcore haB b hbB]
  obtain ⟨B, J, hq', -, hper'⟩ := hinv
  rintro ⟨now, C, -, hne, hpath, hall⟩
  obtain rfl := hq'.active.unique hpath
  obtain ⟨a, B, rfl⟩ := List.exists_cons_of_ne_nil hne
  obtain ⟨t, ht, hstalled⟩ := hall a List.mem_cons_self
  rcases hper' a List.mem_cons_self _ (Heap.core_of_eq ht) with hzero | hadv
  · exact hstalled.2.1 hzero
  · exact hadv hstalled.2.2

/-- **The loop of `FireExpiredTimerQueueTimers` ends if and only if no turn of it begins with an
active list all of whose timers have expired and have a period that is a multiple of `2 ^ 26`
ms, not `0`.** In particular it ends when no active timer has such a period. -/
theorem fire_finishes_iff (hq : Queued s A I) (hc : s.control = .firing now) :
    (Finishes s ↔ ∀ s', Turns s s' → ¬ Stuck s') ∧
      ((∀ a ∈ A, ∀ t, s.heap a = some t → t.period = 0 ∨ ¬ 2 ^ 26 ∣ t.period.toNat) →
        Finishes s) := by
  have hcalm : Calm s := .inr ⟨now, hc⟩
  refine ⟨⟨fun h s' hturns => ?_, finishes_of_never_stuck hq hc⟩, fun hper => ?_⟩
  · obtain ⟨A', I', hq', -⟩ := queued_of_turns hq hcalm hturns
    exact (h.of_turns hturns).not_stuck hq'
  · refine finishes_of_never_stuck hq hc fun s' hturns => not_stuck_of_periods hq hcalm ?_ hturns
    intro a ha t ht
    obtain ⟨u, hu, rfl⟩ := Option.map_eq_some_iff.mp ht
    rw [ne_eq, mul_eq_zero_iff]
    exact hper a ha u hu

end Turn

/-! ### A timer that never advances -/

/-- A timer due at once, with a period of `2 ^ 26` ms, and a call of
`FireExpiredTimerQueueTimers` at that time. -/
def fireStalled : List Label := [.create 0 midnight 0 67108864, .fire midnight]

/-- The same with a period of one second. -/
def fireEverySecond : List Label := [.create 0 midnight 0 1000, .fire midnight]

theorem queued_fireStalled : Queued (final step createTimerQueue fireStalled) [0] [] := by
  refine queued_of_run (by simp [fireStalled, DeletesActive]) (by decide +kernel)
    (.inr ⟨timespecGettimeofday midnight, by decide +kernel⟩) ?_ (path_nil.mpr (by decide +kernel))
  exact ⟨by decide +kernel, none, by decide +kernel, rfl⟩

theorem queued_fireEverySecond :
    Queued (final step createTimerQueue fireEverySecond) [0] [] := by
  refine queued_of_run (by simp [fireEverySecond, DeletesActive]) (by decide +kernel)
    (.inr ⟨timespecGettimeofday midnight, by decide +kernel⟩) ?_ (path_nil.mpr (by decide +kernel))
  exact ⟨by decide +kernel, none, by decide +kernel, rfl⟩

/-- The first loop fires its only timer for ever. -/
theorem fireStalled_not_finishes :
    Queued (final step createTimerQueue fireStalled) [0] [] ∧
      (final step createTimerQueue fireStalled).control =
        .firing (timespecGettimeofday midnight) ∧
      ¬ Finishes (final step createTimerQueue fireStalled) := by
  have hc : (final step createTimerQueue fireStalled).control =
      .firing (timespecGettimeofday midnight) := by decide +kernel
  refine ⟨queued_fireStalled, hc, fun h => h.not_stuck queued_fireStalled ?_⟩
  refine ⟨timespecGettimeofday midnight, [0], hc, by simp, queued_fireStalled.active, ?_⟩
  intro a ha
  rw [List.mem_singleton.mp ha]
  exact Heap.stalled_iff.mp (by decide +kernel)

/-- The second loop ends. -/
theorem fire_finishes_everySecond : Finishes (final step createTimerQueue fireEverySecond) := by
  have hc : (final step createTimerQueue fireEverySecond).control =
      .firing (timespecGettimeofday midnight) := by decide +kernel
  refine (fire_finishes_iff queued_fireEverySecond hc).2 fun a ha t ht => ?_
  have hper : (final step createTimerQueue fireEverySecond).heap 0 =
      some ((freshTimer 0 1000 (timespecGettimeofday midnight))) := by decide +kernel
  rw [List.mem_singleton.mp ha, hper] at ht
  obtain rfl := Option.some.inj ht
  exact .inr (by decide +kernel)

end Timer

end Libuzi
