import Libuzi.Handle.WaitTokens
import Mathlib.Order.Bounds.Basic

/-!
# Waiting for a mutex until a deadline

`WaitForSingleObject` for a mutex (`libuzi/wait.c`) that another thread holds throughout. The
deadline is the present on `CLOCK_MONOTONIC` and the timeout added to it, and it is given to
`pthread_mutex_timedlock`. There are two of these.

| `pthread_mutex_timedlock` | where it is from | the clock of its deadline |
|---|---|---|
| the drop-in replacement | `wait.c`, where the system has none | `CLOCK_MONOTONIC` |
| the system's | everywhere else | `CLOCK_REALTIME` |

With the replacement no wait ends before its time, and a wait does end once a sleep has not been
cut short (`MutexWait.dropIn_returns`). With the function of the system a wait is too
short as soon as `CLOCK_REALTIME` is ahead of `CLOCK_MONOTONIC`, which it is by decades on a
machine whose clock is set (`MutexWait.never_early_iff`).

An instant is what `CLOCK_MONOTONIC` reads, in nanoseconds. The steps of a call are taken at
instants that are chosen from outside, and so is whether a sleep is cut short by a signal.
-/

namespace Libuzi

open Runs

namespace MutexWait

open Handle Timer
open Wait (infinite tsDifftime toUnsigned)
open WaitTokens (etimedout)

/-! ### The model -/

section Model

/-- `ts_add_ms`. -/
def tsAddMs (ts : Timespec) (dwMilliseconds : ℕ) : Timespec :=
  let tvSec := ts.tvSec + (dwMilliseconds / 1000 : ℕ)
  let tvNsec := ts.tvNsec + dwMilliseconds % 1000 * 1000000
  { tvSec := tvSec + (tvNsec / 1000000000 : ℕ)
    tvNsec := tvNsec % 1000000000
    tvNsec_lt := Nat.mod_lt _ (by decide) }

/-- `clock_gettime(CLOCK_MONOTONIC, ..)` at the instant `t`. -/
def clockGettime (t : ℕ) : Timespec where
  tvSec := (t / 1000000000 : ℕ)
  tvNsec := t % 1000000000
  tvNsec_lt := Nat.mod_lt _ (by decide)

/-- Which `pthread_mutex_timedlock` the library is built with. -/
inductive Build
  /-- `HAVE_PTHREAD_MUTEX_TIMEDLOCK` is defined. -/
  | system
  /-- It is not. -/
  | dropIn
  deriving DecidableEq

/-- Where a call stands. -/
inductive Place
  /-- Before the clock is read. -/
  | called
  /-- Before `pthread_mutex_timedlock`. -/
  | locking (timeout : Timespec)
  /-- In the drop-in replacement, before `pthread_mutex_trylock`. -/
  | looping (timeout sleepytime : Timespec)
  /-- `WaitForSingleObject` has returned. -/
  | returned (rc : ℕ)
  deriving DecidableEq

/-- A call, and the instant it has come to. -/
structure State where
  now : ℕ
  place : Place
  deriving DecidableEq

/-- The instant of a step, and whether a sleep that begins there is cut short. -/
structure Moment where
  time : ℕ
  interrupted : Bool

/-- What `WaitForSingleObject` returns after `pthread_mutex_timedlock`. -/
def resultOf (status : ℕ) : ℕ := if etimedout = status then waitTimeout else waitObject0

/-- `sleepytime`. -/
def sleepytimeOf (diff : ℕ) : Timespec where
  tvSec := (diff / 1000000000 : ℕ)
  tvNsec := diff % 1000000000
  tvNsec_lt := Nat.mod_lt _ (by decide)

/-- What the system's `pthread_mutex_timedlock` does for a mutex that another thread holds: the
instant at which it returns `ETIMEDOUT`, given the instant of the call and the deadline. -/
abbrev Timedlock := ℕ → Timespec → ℕ

variable (timedlock : Timedlock) (build : Build) (dwMilliseconds : ℕ)

/-- **One step of `WaitForSingleObject`**, at an instant that is not in the past. -/
def waitStep (s : State) (m : Moment) : Option State :=
  if m.time < s.now then none
  else
    match s.place with
    | .called =>
      if dwMilliseconds ≠ infinite then
        some ⟨m.time, .locking (tsAddMs (clockGettime m.time) dwMilliseconds)⟩
      -- `pthread_mutex_lock` does not return
      else none
    | .locking timeout =>
      match build with
      | .system => some ⟨timedlock m.time timeout, .returned (resultOf etimedout)⟩
      | .dropIn =>
        let diff := toUnsigned (tsDifftime (clockGettime m.time) timeout)
        some ⟨m.time, .looping timeout (sleepytimeOf diff)⟩
    -- `pthread_mutex_trylock` returns `EBUSY`
    | .looping timeout sleepytime =>
      if 0 ≤ tsDifftime timeout (clockGettime m.time) then
        some ⟨m.time, .returned (resultOf etimedout)⟩
      else if m.interrupted then some ⟨m.time, .looping timeout sleepytime⟩
      else some ⟨m.time + sleepytime.toNs.toNat, .looping timeout sleepytime⟩
    | .returned _ => none

/-- **No wait ends before its time**, at whichever instants it is called and its steps are
taken. -/
def NeverEarly : Prop :=
  ∀ (called : ℕ) (moments : List Moment) (s : State),
    run (waitStep timedlock build dwMilliseconds) ⟨called, .called⟩ moments = some s →
      s.place = .returned waitTimeout → called + dwMilliseconds * 1000000 ≤ s.now

/-- `CLOCK_REALTIME` is ahead of `CLOCK_MONOTONIC` by `offset`, and the system's function returns
as soon as it has reached the deadline. -/
def TimesOut (offset : ℤ) (timedlock : Timedlock) : Prop :=
  ∀ (called : ℕ) (abstime : Timespec),
    IsLeast { t : ℕ | called ≤ t ∧ abstime.toNs ≤ t + offset } (timedlock called abstime)

end Model

/-! ### The arithmetic -/

section Arithmetic

@[simp] theorem toNs_tsAddMs (ts : Timespec) (dwMilliseconds : ℕ) :
    (tsAddMs ts dwMilliseconds).toNs = ts.toNs + dwMilliseconds * 1000000 := by
  simp only [tsAddMs, Timespec.toNs]
  omega

@[simp] theorem toNs_clockGettime (t : ℕ) : (clockGettime t).toNs = t := by
  simp only [clockGettime, Timespec.toNs]
  omega

/-- The difference of two times that are close enough is not wrapped. -/
theorem tsDifftime_eq {o n : Timespec} (hle : o.toNs ≤ n.toNs + 2 ^ 63)
    (hlt : n.toNs < o.toNs + 2 ^ 63) : tsDifftime o n = n.toNs - o.toNs := by
  refine Int.bmod_eq_of_le ?_ ?_
  · norm_num
    omega
  · norm_num
    omega

@[simp] theorem toNs_sleepytimeOf (diff : ℕ) : (sleepytimeOf diff).toNs = diff := by
  simp only [sleepytimeOf, Timespec.toNs]
  omega

/-- The sleep that begins at `t`, or later, lasts until the deadline. -/
theorem le_sleepytime {t : ℕ} {timeout : Timespec} (hnear : timeout.toNs < t + 2 ^ 64) :
    timeout.toNs ≤
      t + (sleepytimeOf (toUnsigned (tsDifftime (clockGettime t) timeout))).toNs.toNat := by
  rw [toNs_sleepytimeOf, Int.toNat_natCast, Wait.toUnsigned_tsDifftime, toNs_clockGettime]
  omega

end Arithmetic

/-! ### What a call keeps -/

section Steps

variable {timedlock : Timedlock} {build : Build} {dwMilliseconds called : ℕ} {offset : ℤ}

/-- **The condition**: the library does not use the system's function, or there is nothing to wait
for, or `CLOCK_REALTIME` is not ahead. -/
def OnTime (build : Build) (offset : ℤ) (dwMilliseconds : ℕ) : Prop :=
  build = .system → dwMilliseconds = 0 ∨ offset ≤ 0

/-- The deadline of a call: late enough, but not later than a call at the present would have. -/
structure Deadline (called dwMilliseconds now : ℕ) (timeout : Timespec) : Prop where
  called_le : called ≤ now
  le : (called : ℤ) + dwMilliseconds * 1000000 ≤ timeout.toNs
  near : timeout.toNs ≤ now + dwMilliseconds * 1000000

/-- What holds between the steps of a call. -/
inductive Inv (called dwMilliseconds : ℕ) : State → Prop
  | called {now : ℕ} (h : called ≤ now) : Inv called dwMilliseconds ⟨now, .called⟩
  | locking {now : ℕ} {timeout : Timespec} (h : Deadline called dwMilliseconds now timeout) :
    Inv called dwMilliseconds ⟨now, .locking timeout⟩
  | looping {now : ℕ} {timeout sleepytime : Timespec}
    (h : Deadline called dwMilliseconds now timeout) :
    Inv called dwMilliseconds ⟨now, .looping timeout sleepytime⟩
  | returned {now rc : ℕ} (h : called + dwMilliseconds * 1000000 ≤ now) :
    Inv called dwMilliseconds ⟨now, .returned rc⟩

theorem Deadline.later {now now' : ℕ} {timeout : Timespec}
    (h : Deadline called dwMilliseconds now timeout) (hle : now ≤ now') :
    Deadline called dwMilliseconds now' timeout := by
  refine ⟨h.called_le.trans hle, h.le, ?_⟩
  have := h.near
  omega

/-- The system's function, where it is safe to use. -/
theorem Deadline.le_timedlock {now : ℕ} {timeout : Timespec}
    (h : Deadline called dwMilliseconds now timeout) (hlock : TimesOut offset timedlock)
    (hok : dwMilliseconds = 0 ∨ offset ≤ 0) :
    called + dwMilliseconds * 1000000 ≤ timedlock now timeout := by
  obtain ⟨hnow, htimeout⟩ := (hlock now timeout).1
  have hcalled := h.called_le
  have hle := h.le
  rcases hok with rfl | hoffset
  · omega
  · omega

/-- The replacement: it returns only when the deadline is reached. -/
theorem Deadline.reached {now : ℕ} {timeout : Timespec}
    (h : Deadline called dwMilliseconds now timeout) (hfinite : dwMilliseconds < infinite)
    (hdiff : 0 ≤ tsDifftime timeout (clockGettime now)) :
    called + dwMilliseconds * 1000000 ≤ now := by
  by_contra hearly
  have hle := h.le
  have hnear := h.near
  have hlt : (clockGettime now).toNs < timeout.toNs := by
    rw [toNs_clockGettime]
    omega
  have hclose : timeout.toNs ≤ (clockGettime now).toNs + 2 ^ 63 := by
    rw [toNs_clockGettime]
    rw [infinite] at hfinite
    omega
  have hpast : tsDifftime timeout (clockGettime now) < 0 := by
    rw [tsDifftime_eq hclose (by omega)]
    omega
  exact absurd hdiff (not_le.mpr hpast)

/-- **One step.** -/
theorem inv_step {s s' : State} {m : Moment} (hlock : TimesOut offset timedlock)
    (hfinite : dwMilliseconds < infinite) (hok : OnTime build offset dwMilliseconds)
    (h : Inv called dwMilliseconds s)
    (hs : waitStep timedlock build dwMilliseconds s m = some s') :
    Inv called dwMilliseconds s' := by
  rw [waitStep, Option.ite_none_left_eq_some, not_lt] at hs
  obtain ⟨hnow, hs⟩ := hs
  cases h with
  | called h =>
    dsimp only at hs hnow
    rw [if_pos hfinite.ne] at hs
    obtain rfl := Option.some.inj hs
    refine .locking ⟨h.trans hnow, ?_, ?_⟩
    · rw [toNs_tsAddMs, toNs_clockGettime]
      omega
    · rw [toNs_tsAddMs, toNs_clockGettime]
  | locking h =>
    have hlater := h.later hnow
    cases build with
    | system =>
      obtain rfl := Option.some.inj hs
      exact .returned (hlater.le_timedlock hlock (hok rfl))
    | dropIn =>
      obtain rfl := Option.some.inj hs
      exact .looping hlater
  | looping h =>
    have hlater := h.later hnow
    dsimp only at hs
    split at hs
    · next hdiff =>
      obtain rfl := Option.some.inj hs
      exact .returned (hlater.reached hfinite hdiff)
    · split at hs
      · obtain rfl := Option.some.inj hs
        exact .looping hlater
      · obtain rfl := Option.some.inj hs
        exact .looping (hlater.later (Nat.le_add_right _ _))
  | returned h => cases hs

end Steps

/-! ### Calls -/

section Calls

variable {timedlock : Timedlock} {build : Build} {dwMilliseconds : ℕ} {offset : ℤ}

theorem neverEarly_of_onTime (hlock : TimesOut offset timedlock)
    (hfinite : dwMilliseconds < infinite) (hok : OnTime build offset dwMilliseconds) :
    NeverEarly timedlock build dwMilliseconds := by
  intro called moments s hrun hplace
  have hinv : Inv called dwMilliseconds s :=
    (reaches_of_run moments hrun).invariant (.called le_rfl)
      fun _ _ _ ht _ hs => inv_step hlock hfinite hok ht hs
  cases hinv with
  | returned h => exact h
  | _ => cases hplace

/-- A call all of whose steps are taken at the instant `0`. -/
theorem run_at_once (hfinite : dwMilliseconds < infinite) :
    run (waitStep timedlock .system dwMilliseconds) ⟨0, .called⟩ [⟨0, false⟩, ⟨0, false⟩] =
      some ⟨timedlock 0 (tsAddMs (clockGettime 0) dwMilliseconds), .returned waitTimeout⟩ := by
  have hfirst : waitStep timedlock .system dwMilliseconds ⟨0, .called⟩ ⟨0, false⟩ =
      some ⟨0, .locking (tsAddMs (clockGettime 0) dwMilliseconds)⟩ := by
    rw [waitStep, if_neg (lt_irrefl 0)]
    exact if_pos hfinite.ne
  rw [run_cons, hfirst]
  rfl

/-- **The replacement does return**: a sleep that is not cut short lasts until the deadline, and the
next time the clock is read the loop ends. -/
theorem dropIn_returns (hfinite : dwMilliseconds < infinite) {s : State}
    {called read lock check : ℕ} {m : Moment}
    (hrun : run (waitStep timedlock .dropIn dwMilliseconds) ⟨called, .called⟩
      [⟨read, false⟩, ⟨lock, false⟩, ⟨check, false⟩] = some s)
    (hnow : s.now ≤ m.time) (hnear : m.time < called + 2 ^ 63) :
    s.place = .returned waitTimeout ∨
      waitStep timedlock .dropIn dwMilliseconds s m = some ⟨m.time, .returned waitTimeout⟩ := by
  simp only [run_cons, run_nil, Option.bind_eq_some_iff, Option.some.injEq] at hrun
  obtain ⟨s₁, hread, s₂, hlock, s₃, hcheck, rfl⟩ := hrun
  rw [waitStep, Option.ite_none_left_eq_some, not_lt] at hread hlock hcheck
  obtain ⟨hcalled, hread⟩ := hread
  dsimp only at hcalled hread
  rw [if_pos hfinite.ne] at hread
  obtain rfl := Option.some.inj hread
  obtain ⟨hlater, hlock⟩ := hlock
  obtain rfl := Option.some.inj hlock
  obtain ⟨hlast, hcheck⟩ := hcheck
  dsimp only at hlater hlast hcheck
  split at hcheck
  · obtain rfl := Option.some.inj hcheck
    exact Or.inl rfl
  · rw [if_neg Bool.false_ne_true] at hcheck
    obtain rfl := Option.some.inj hcheck
    refine Or.inr ?_
    have htimeout : (tsAddMs (clockGettime read) dwMilliseconds).toNs =
        read + dwMilliseconds * 1000000 := by
      rw [toNs_tsAddMs, toNs_clockGettime]
    rw [infinite] at hfinite
    have hslept := le_sleepytime (t := lock) (show
      (tsAddMs (clockGettime read) dwMilliseconds).toNs < lock + 2 ^ 64 by omega)
    have hreached : (tsAddMs (clockGettime read) dwMilliseconds).toNs ≤ m.time := by
      dsimp only at hnow
      omega
    have hdiff : 0 ≤ tsDifftime (tsAddMs (clockGettime read) dwMilliseconds)
        (clockGettime m.time) := by
      rw [tsDifftime_eq (by rw [toNs_clockGettime]; omega) (by rw [toNs_clockGettime]; omega),
        toNs_clockGettime]
      omega
    rw [waitStep, if_neg (not_lt.mpr hnow)]
    exact if_pos hdiff

/-- **No wait ends before its time, with the replacement; and with the function of the system, if
and only if there is nothing to wait for or `CLOCK_REALTIME` is not ahead.** -/
theorem never_early_iff (hlock : TimesOut offset timedlock) (hfinite : dwMilliseconds < infinite) :
    NeverEarly timedlock build dwMilliseconds ↔ OnTime build offset dwMilliseconds := by
  refine ⟨fun hnever hbuild => ?_, neverEarly_of_onTime hlock hfinite⟩
  subst hbuild
  have hle := hnever 0 _ _ (run_at_once hfinite) rfl
  dsimp only at hle
  by_contra hnot
  obtain ⟨hsome, hahead⟩ := not_or.mp hnot
  -- the clock of the function reaches the deadline one nanosecond early, at the latest
  have hearly : timedlock 0 (tsAddMs (clockGettime 0) dwMilliseconds) ≤
      dwMilliseconds * 1000000 - 1 := by
    refine (hlock 0 _).2 ⟨Nat.zero_le _, ?_⟩
    rw [toNs_tsAddMs, toNs_clockGettime]
    omega
  omega

/-- The system's function. -/
def lockUntil (offset : ℤ) : Timedlock := fun called abstime =>
  max called (abstime.toNs - offset).toNat

theorem timesOut_lockUntil (offset : ℤ) : TimesOut offset (lockUntil offset) := by
  intro called abstime
  refine ⟨⟨le_max_left _ _, ?_⟩, fun t ht => max_le ht.1 ?_⟩
  · have := le_max_right called (abstime.toNs - offset).toNat
    rw [lockUntil]
    omega
  · have := ht.2
    omega

/-- A timeout of ten milliseconds, on a machine whose `CLOCK_REALTIME` is behind, and with the
replacement on one whose `CLOCK_REALTIME` is ahead. -/
theorem never_early_ten :
    NeverEarly (lockUntil (-5)) .system 10 ∧ NeverEarly (lockUntil 1000000000) .dropIn 10 := by
  have hfinite : 10 < infinite := by decide
  refine ⟨(never_early_iff (timesOut_lockUntil (-5)) hfinite).mpr fun _ => ?_,
    (never_early_iff (timesOut_lockUntil 1000000000) hfinite).mpr nofun⟩
  exact Or.inr (by decide)

/-- **A wait ends before its time**: with a `CLOCK_REALTIME` that is one second ahead, a wait of ten
milliseconds returns `WAIT_TIMEOUT` at once. -/
theorem times_out_early :
    ∃ s, run (waitStep (lockUntil 1000000000) .system 10) ⟨0, .called⟩
        [⟨0, false⟩, ⟨0, false⟩] = some s ∧
      s = ⟨0, .returned waitTimeout⟩ ∧ ¬NeverEarly (lockUntil 1000000000) .system 10 := by
  have hrun : run (waitStep (lockUntil 1000000000) .system 10) ⟨0, .called⟩
      [⟨0, false⟩, ⟨0, false⟩] = some ⟨0, .returned waitTimeout⟩ := by decide
  refine ⟨_, hrun, rfl, fun hnever => ?_⟩
  exact absurd (hnever 0 _ _ hrun rfl) (by decide)

end Calls

end MutexWait

end Libuzi
