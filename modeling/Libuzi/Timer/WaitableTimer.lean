import Mathlib.Data.Int.Basic
import Mathlib.Data.List.Basic
import Mathlib.Tactic.NormNum

/-!
# Waitable timers

`CreateWaitableTimerA` and `SetWaitableTimer` of `libuzi/timer.c`, in a Linux build: both
`HAVE_TIMERFD_H` and `WITH_POSIX_TIMER` are defined. A timer has one of two backends, a
descriptor of `timerfd_create` or a timer of `timer_create`.

| in the source | what it looks at | here |
|---|---|---|
| which backend is created | `lpArgToCompletionRoutine` | `WaitableTimer.initializeWaitableTimer` |
| which backend is armed | `pfnCompletionRoutine` | `WaitableTimer.armWaitableTimer` |

The integers have the widths of the source: a due time is a `LONGLONG`, a period a `LONG`, and
the negation of a due time goes round at `-2 ^ 63`. What the system answers is given to a call
(`WaitableTimer.Answers`), and the calls made are written down in order
(`WaitableTimer.Effect`).

The last section is about the times: an `itimerspec` that is passed to the kernel says what the
caller has asked for except at the two ends of the range
(`WaitableTimer.rightTimes_requestedTimeout_iff`).
-/

namespace Libuzi

namespace WaitableTimer

/-! ### The data -/

/-- `struct timespec`, as the kernel is given it. -/
@[ext] structure Timespec where
  /-- `tv_sec`. -/
  tvSec : Int64
  /-- `tv_nsec`. -/
  tvNsec : Int64
  deriving DecidableEq

/-- `struct itimerspec`. -/
@[ext] structure Itimerspec where
  /-- `it_interval`. -/
  itInterval : Timespec
  /-- `it_value`. -/
  itValue : Timespec
  deriving DecidableEq

/-- No time at all. -/
def Timespec.zero : Timespec := ⟨0, 0⟩

/-- What `ZeroMemory` leaves. -/
def Itimerspec.zero : Itimerspec := ⟨.zero, .zero⟩

/-- The time in nanoseconds. -/
def Timespec.toNs (t : Timespec) : ℤ := t.tvSec.toInt * 1000000000 + t.tvNsec.toInt

/-- `WINPR_TIMER`. A routine and its argument are addresses, or `NULL`. -/
structure WinprTimer where
  /-- `fd`. -/
  fd : ℤ
  /-- `bInit`. -/
  bInit : Bool
  /-- `lPeriod`. -/
  lPeriod : Int32
  /-- `pfnCompletionRoutine`. -/
  pfnCompletionRoutine : Option ℕ
  /-- `lpArgToCompletionRoutine`. -/
  lpArgToCompletionRoutine : Option ℕ
  /-- `tid`. -/
  tid : ℕ
  /-- `timeout`. -/
  timeout : Itimerspec
  deriving DecidableEq

/-- What the system answers during a call. -/
structure Answers where
  /-- The descriptor that `timerfd_create` returns. -/
  timerfdCreate : ℤ
  /-- What `fcntl` returns. -/
  fcntl : ℤ
  /-- The timer that `timer_create` stores, if it returns zero. -/
  timerCreate : Option ℕ
  /-- What `timerfd_settime` returns. -/
  timerfdSettime : ℤ
  /-- What `timer_settime` returns. -/
  timerSettime : ℤ

/-- What a call does to the system. -/
inductive Effect
  /-- `timerfd_create` has returned `fd`. -/
  | timerfdCreate (fd : ℤ)
  /-- `close(fd)`. -/
  | close (fd : ℤ)
  /-- `free(timer)`. -/
  | free
  /-- `timer_create` has stored `tid`. -/
  | timerCreate (tid : ℕ)
  /-- `timerfd_settime(fd, 0, &new, NULL)`. -/
  | timerfdSettime (fd : ℤ) (new : Itimerspec)
  /-- `timer_settime(tid, 0, &new, NULL)`. -/
  | timerSettime (tid : ℕ) (new : Itimerspec)
  deriving DecidableEq

/-- The arguments of `SetWaitableTimer`. -/
structure Request where
  /-- `lpDueTime->QuadPart`, if `lpDueTime` is not `NULL`. -/
  lpDueTime : Option Int64
  /-- `lPeriod`. -/
  lPeriod : Int32
  /-- `pfnCompletionRoutine`. -/
  pfnCompletionRoutine : Option ℕ
  /-- `lpArgToCompletionRoutine`. -/
  lpArgToCompletionRoutine : Option ℕ

/-- The timer that a function leaves, what it returns, and the calls it has made. -/
structure Outcome (α : Type) where
  timer : WinprTimer
  result : α
  log : List Effect

/-! ### The functions -/

/-- `CreateWaitableTimerA`, when there is memory. -/
def createWaitableTimerA : WinprTimer where
  fd := -1
  bInit := false
  lPeriod := 0
  pfnCompletionRoutine := none
  lpArgToCompletionRoutine := none
  tid := 0
  timeout := .zero

/-- `InitializeWaitableTimer`. -/
def initializeWaitableTimer (answers : Answers) (timer : WinprTimer) : Outcome ℤ :=
  match timer.lpArgToCompletionRoutine with
  | none =>
    let timer := { timer with fd := answers.timerfdCreate }
    if timer.fd ≤ 0 then ⟨timer, -1, [.timerfdCreate timer.fd, .free]⟩
    else if answers.fcntl ≠ 0 then ⟨timer, -1, [.timerfdCreate timer.fd, .close timer.fd]⟩
    else ⟨{ timer with bInit := true }, 0, [.timerfdCreate timer.fd]⟩
  | some _ =>
    match answers.timerCreate with
    | none => ⟨timer, -1, []⟩
    | some tid => ⟨{ timer with tid, bInit := true }, 0, [.timerCreate tid]⟩

/-- The `it_interval` that `SetWaitableTimer` writes. -/
def intervalOf (lPeriod : Int32) : Timespec :=
  if 0 < lPeriod then ⟨(lPeriod / 1000).toInt64, (lPeriod % 1000 * 1000000).toInt64⟩ else .zero

/-- The `it_value` that `SetWaitableTimer` writes for a due time that is not zero: the time is
relative, and given in units of 100 nanoseconds. -/
def valueOf (quadPart : Int64) : Timespec :=
  let due := quadPart * (-1)
  ⟨due / 10000000, due % 10000000 * 100⟩

/-- The times that `SetWaitableTimer` writes for a due time that is not positive. -/
def requestedTimeout (quadPart : Int64) (lPeriod : Int32) : Itimerspec where
  itInterval := intervalOf lPeriod
  itValue := if quadPart ≠ 0 then valueOf quadPart else intervalOf lPeriod

/-- `SetWaitableTimer`, once the timer is initialised. -/
def armWaitableTimer (answers : Answers) (quadPart : Int64) (lPeriod : Int32)
    (timer : WinprTimer) : Outcome Bool :=
  if 0 < quadPart then ⟨{ timer with timeout := .zero }, false, []⟩
  else
    let timer := { timer with timeout := requestedTimeout quadPart lPeriod }
    match timer.pfnCompletionRoutine with
    | none =>
      ⟨timer, decide (answers.timerfdSettime = 0), [.timerfdSettime timer.fd timer.timeout]⟩
    | some _ =>
      ⟨timer, decide (answers.timerSettime = 0), [.timerSettime timer.tid timer.timeout]⟩

/-- The fields that `SetWaitableTimer` writes before it does anything else. -/
def store (request : Request) (timer : WinprTimer) : WinprTimer :=
  { timer with
    lPeriod := request.lPeriod
    pfnCompletionRoutine := request.pfnCompletionRoutine
    lpArgToCompletionRoutine := request.lpArgToCompletionRoutine }

/-- `SetWaitableTimer`. -/
def setWaitableTimer (answers : Answers) (request : Request) (timer : WinprTimer) :
    Outcome Bool :=
  match request.lpDueTime with
  | none => ⟨timer, false, []⟩
  | some quadPart =>
    if request.lPeriod < 0 then ⟨timer, false, []⟩
    else
      let timer := store request timer
      let init : Outcome ℤ :=
        if timer.bInit then ⟨timer, 0, []⟩ else initializeWaitableTimer answers timer
      if init.result < 0 then ⟨init.timer, false, init.log⟩
      else
        let armed := armWaitableTimer answers quadPart request.lPeriod init.timer
        ⟨armed.timer, armed.result, init.log ++ armed.log⟩

/-! ### What each function can do -/

section Cases

variable (answers : Answers) (request : Request) (quadPart : Int64) (lPeriod : Int32)
  (timer : WinprTimer)

/-- **What an initialisation can do.** -/
inductive Initializes : Outcome ℤ → Prop
  /-- There is no descriptor: the timer is freed. -/
  | freed (harg : timer.lpArgToCompletionRoutine = none) (hfd : answers.timerfdCreate ≤ 0) :
    Initializes ⟨{ timer with fd := answers.timerfdCreate }, -1,
      [.timerfdCreate answers.timerfdCreate, .free]⟩
  /-- The descriptor cannot be used: it is closed. -/
  | closed (harg : timer.lpArgToCompletionRoutine = none) (hfd : 0 < answers.timerfdCreate)
      (hfcntl : answers.fcntl ≠ 0) :
    Initializes ⟨{ timer with fd := answers.timerfdCreate }, -1,
      [.timerfdCreate answers.timerfdCreate, .close answers.timerfdCreate]⟩
  /-- The timer has a descriptor. -/
  | descriptor (harg : timer.lpArgToCompletionRoutine = none) (hfd : 0 < answers.timerfdCreate)
      (hfcntl : answers.fcntl = 0) :
    Initializes ⟨{ timer with fd := answers.timerfdCreate, bInit := true }, 0,
      [.timerfdCreate answers.timerfdCreate]⟩
  /-- `timer_create` fails. -/
  | refused (harg : timer.lpArgToCompletionRoutine ≠ none) (hcreate : answers.timerCreate = none) :
    Initializes ⟨timer, -1, []⟩
  /-- The timer has a POSIX timer. -/
  | posix (harg : timer.lpArgToCompletionRoutine ≠ none) {tid : ℕ}
      (hcreate : answers.timerCreate = some tid) :
    Initializes ⟨{ timer with tid, bInit := true }, 0, [.timerCreate tid]⟩

/-- **What the second half of `SetWaitableTimer` can do.** -/
inductive Arms : Outcome Bool → Prop
  /-- The due time is absolute. -/
  | unsupported (hdue : 0 < quadPart) : Arms ⟨{ timer with timeout := .zero }, false, []⟩
  /-- The descriptor is armed. -/
  | descriptor (hdue : quadPart ≤ 0) (hpfn : timer.pfnCompletionRoutine = none) :
    Arms ⟨{ timer with timeout := requestedTimeout quadPart lPeriod },
      decide (answers.timerfdSettime = 0),
      [.timerfdSettime timer.fd (requestedTimeout quadPart lPeriod)]⟩
  /-- The POSIX timer is armed. -/
  | posix (hdue : quadPart ≤ 0) (hpfn : timer.pfnCompletionRoutine ≠ none) :
    Arms ⟨{ timer with timeout := requestedTimeout quadPart lPeriod },
      decide (answers.timerSettime = 0),
      [.timerSettime timer.tid (requestedTimeout quadPart lPeriod)]⟩

/-- **How a timer becomes ready to be armed.** -/
inductive Readies : WinprTimer → List Effect → Prop
  /-- It has been initialised before. -/
  | already (hinit : timer.bInit = true) : Readies (store request timer) []
  /-- It is initialised now. -/
  | now (hinit : timer.bInit = false) {i : Outcome ℤ}
      (hi : Initializes answers (store request timer) i) (hok : i.result = 0) :
    Readies i.timer i.log

/-- **What a call of `SetWaitableTimer` can do.** -/
inductive Sets : Outcome Bool → Prop
  /-- The arguments are refused. -/
  | rejected (h : request.lpDueTime = none ∨ request.lPeriod < 0) : Sets ⟨timer, false, []⟩
  /-- The timer cannot be initialised. -/
  | uninitialized (hdue : request.lpDueTime ≠ none) (hperiod : ¬request.lPeriod < 0)
      (hinit : timer.bInit = false) {i : Outcome ℤ}
      (hi : Initializes answers (store request timer) i) (hfail : i.result < 0) :
    Sets ⟨i.timer, false, i.log⟩
  /-- The timer is ready. -/
  | ready {quadPart : Int64} (hdue : request.lpDueTime = some quadPart)
      (hperiod : ¬request.lPeriod < 0) {t : WinprTimer} {log : List Effect}
      (hready : Readies answers request timer t log) {a : Outcome Bool}
      (ha : Arms answers quadPart request.lPeriod t a) :
    Sets ⟨a.timer, a.result, log ++ a.log⟩

theorem initializes : Initializes answers timer (initializeWaitableTimer answers timer) := by
  rw [initializeWaitableTimer]
  split
  · next harg =>
    dsimp only
    split_ifs with hfd hfcntl
    · exact .freed harg hfd
    · exact .closed harg (not_le.mp hfd) hfcntl
    · exact .descriptor harg (not_le.mp hfd) (not_not.mp hfcntl)
  · next arg harg =>
    have hne : timer.lpArgToCompletionRoutine ≠ none := harg ▸ Option.some_ne_none arg
    split
    · next hcreate => exact .refused hne hcreate
    · next tid hcreate => exact .posix hne hcreate

theorem arms : Arms answers quadPart lPeriod timer
    (armWaitableTimer answers quadPart lPeriod timer) := by
  rw [armWaitableTimer]
  split
  · next hdue => exact .unsupported hdue
  · next hdue =>
    have hle : quadPart ≤ 0 := Int64.not_lt.mp hdue
    dsimp only
    split
    · next hpfn => exact .descriptor hle hpfn
    · next pfn hpfn => exact .posix hle (hpfn ▸ Option.some_ne_none pfn)

/-- An initialisation returns zero or fails. -/
theorem Initializes.result_cases {timer : WinprTimer} {i : Outcome ℤ}
    (h : Initializes answers timer i) : i.result = 0 ∨ i.result < 0 := by
  cases h with
  | descriptor | posix => exact Or.inl rfl
  | freed | closed | refused => exact Or.inr (Int.negSucc_lt_zero 0)

theorem sets : Sets answers request timer (setWaitableTimer answers request timer) := by
  rw [setWaitableTimer]
  cases hdue : request.lpDueTime with
  | none => exact .rejected (Or.inl hdue)
  | some quadPart =>
    dsimp only
    split
    · next hperiod => exact .rejected (Or.inr hperiod)
    · next hperiod =>
      cases hinit : timer.bInit with
      | true =>
        have hstore : (store request timer).bInit = true := hinit
        rw [if_pos hstore, if_neg (lt_irrefl 0)]
        exact .ready hdue hperiod (.already hinit) (arms ..)
      | false =>
        have hstore : ¬(store request timer).bInit = true := by
          rw [store, hinit]
          exact Bool.false_ne_true
        have hi := initializes answers (store request timer)
        rw [if_neg hstore]
        rcases hi.result_cases with hok | hfail
        · rw [if_neg (by rw [hok]; exact lt_irrefl 0)]
          exact .ready hdue hperiod (.now hinit hi hok) (arms ..)
        · rw [if_pos hfail]
          exact .uninitialized (by rw [hdue]; exact Option.some_ne_none _) hperiod hinit hi hfail

end Cases

/-! ### The times -/

section Times

variable {quadPart : Int64} {lPeriod : Int32}

/-- The nanoseconds of a time are less than a second. -/
def Timespec.Normal (t : Timespec) : Prop := 0 ≤ t.tvNsec.toInt ∧ t.tvNsec.toInt < 1000000000

/-- **The times are those asked for**: a period in milliseconds, a due time in units of 100
nanoseconds, and a first expiration that the kernel does not take for a request to disarm. -/
structure RightTimes (quadPart : Int64) (lPeriod : Int32) (new : Itimerspec) : Prop where
  /-- The interval is in the kernel's range. -/
  interval_normal : new.itInterval.Normal
  /-- The value is in the kernel's range. -/
  value_normal : new.itValue.Normal
  /-- The interval is the period. -/
  interval : new.itInterval.toNs = lPeriod.toInt * 1000000
  /-- The value is the due time. -/
  value : quadPart < 0 → new.itValue.toNs = |quadPart.toInt| * 100
  /-- The timer is armed. -/
  armed : new.itValue ≠ .zero

theorem toInt_div_thousand (h : 0 ≤ lPeriod) : (lPeriod / 1000).toInt = lPeriod.toInt / 1000 := by
  rw [Int32.le_iff_toInt_le] at h
  have hdiv : (lPeriod / 1000).toInt = lPeriod.toInt.tdiv 1000 :=
    Int32.toInt_div_of_ne_right lPeriod 1000 (by decide)
  rw [hdiv, Int.tdiv_eq_ediv_of_nonneg h]

theorem toInt_mod_thousand (h : 0 ≤ lPeriod) :
    (lPeriod % 1000 * 1000000).toInt = lPeriod.toInt % 1000 * 1000000 := by
  rw [Int32.le_iff_toInt_le] at h
  have hmod : (lPeriod % 1000).toInt = lPeriod.toInt.tmod 1000 := Int32.toInt_mod lPeriod 1000
  have hmul : (lPeriod % 1000 * 1000000).toInt =
      ((lPeriod % 1000).toInt * 1000000).bmod (2 ^ 32) := Int32.toInt_mul _ _
  rw [hmul, hmod, Int.tmod_eq_emod_of_nonneg h]
  -- less than a billion fits 32 bits
  exact Int.bmod_eq_of_le (by omega) (by omega)

/-- **The interval is the period.** -/
theorem intervalOf_eq (h : 0 ≤ lPeriod) :
    (intervalOf lPeriod).tvSec.toInt = lPeriod.toInt / 1000 ∧
      (intervalOf lPeriod).tvNsec.toInt = lPeriod.toInt % 1000 * 1000000 := by
  rw [intervalOf]
  split
  · rw [Int32.toInt_toInt64, Int32.toInt_toInt64]
    exact ⟨toInt_div_thousand h, toInt_mod_thousand h⟩
  · next hpos =>
    have hzero : lPeriod.toInt = 0 := by
      rw [Int32.lt_iff_toInt_lt] at hpos
      rw [Int32.le_iff_toInt_le] at h
      exact le_antisymm (not_lt.mp hpos) h
    rw [hzero]
    exact ⟨rfl, rfl⟩

theorem toNs_intervalOf (h : 0 ≤ lPeriod) :
    (intervalOf lPeriod).toNs = lPeriod.toInt * 1000000 := by
  obtain ⟨hsec, hnsec⟩ := intervalOf_eq h
  rw [Timespec.toNs, hsec, hnsec]
  omega

theorem normal_intervalOf (h : 0 ≤ lPeriod) : (intervalOf lPeriod).Normal := by
  rw [Timespec.Normal, (intervalOf_eq h).2]
  omega

/-- A due time has a negation, except for one. -/
theorem toInt_due (h : quadPart ≤ 0) (hmin : quadPart ≠ Int64.minValue) :
    (quadPart * (-1)).toInt = -quadPart.toInt := by
  have hmul : (quadPart * (-1)).toInt = (quadPart.toInt * -1).bmod (2 ^ 64) := Int64.toInt_mul _ _
  have hle : quadPart.toInt ≤ 0 := Int64.le_iff_toInt_le.mp h
  have hlow : -2 ^ 63 ≤ quadPart.toInt := Int64.le_toInt quadPart
  have hne : quadPart.toInt ≠ -2 ^ 63 := fun heq => hmin (Int64.toInt_inj.mp heq)
  rw [hmul, Int.bmod_eq_of_le (by omega) (by omega)]
  omega

/-- **The value is the due time**, for the due times that have a negation. -/
theorem valueOf_eq (h : quadPart ≤ 0) (hmin : quadPart ≠ Int64.minValue) :
    (valueOf quadPart).tvSec.toInt = -quadPart.toInt / 10000000 ∧
      (valueOf quadPart).tvNsec.toInt = -quadPart.toInt % 10000000 * 100 := by
  have hdue := toInt_due h hmin
  have hle : quadPart.toInt ≤ 0 := Int64.le_iff_toInt_le.mp h
  have hdiv : (valueOf quadPart).tvSec.toInt = (quadPart * (-1)).toInt.tdiv 10000000 :=
    Int64.toInt_div_of_ne_right _ 10000000 (by decide)
  have hmod : (quadPart * (-1) % 10000000).toInt = (quadPart * (-1)).toInt.tmod 10000000 :=
    Int64.toInt_mod _ 10000000
  have hmul : (valueOf quadPart).tvNsec.toInt =
      ((quadPart * (-1) % 10000000).toInt * 100).bmod (2 ^ 64) := Int64.toInt_mul _ _
  rw [hmul, hdiv, hmod, hdue, Int.tdiv_eq_ediv_of_nonneg (by omega),
    Int.tmod_eq_emod_of_nonneg (by omega)]
  exact ⟨rfl, Int.bmod_eq_of_le (by omega) (by omega)⟩

theorem toNs_valueOf (h : quadPart ≤ 0) (hmin : quadPart ≠ Int64.minValue) :
    (valueOf quadPart).toNs = |quadPart.toInt| * 100 := by
  obtain ⟨hsec, hnsec⟩ := valueOf_eq h hmin
  have hle : quadPart.toInt ≤ 0 := Int64.le_iff_toInt_le.mp h
  rw [Timespec.toNs, hsec, hnsec, abs_of_nonpos hle]
  omega

theorem normal_valueOf (h : quadPart ≤ 0) (hmin : quadPart ≠ Int64.minValue) :
    (valueOf quadPart).Normal := by
  rw [Timespec.Normal, (valueOf_eq h hmin).2]
  omega

/-- A time that is not zero is not the time zero. -/
theorem ne_zero_of_toNs {t : Timespec} (h : t.toNs ≠ 0) : t ≠ .zero := by
  rintro rfl
  exact h rfl

/-- **The times are right except at the two ends of the range**: the least due time, whose
negation goes round, and a due time of zero with a period of zero, which disarms the timer. -/
theorem rightTimes_requestedTimeout_iff (hdue : quadPart ≤ 0) (hperiod : 0 ≤ lPeriod) :
    RightTimes quadPart lPeriod (requestedTimeout quadPart lPeriod) ↔
      quadPart ≠ Int64.minValue ∧ ¬(quadPart = 0 ∧ lPeriod = 0) := by
  constructor
  · intro h
    constructor
    · rintro rfl
      -- the nanoseconds of the least due time are negative
      have hneg : (valueOf Int64.minValue).tvNsec.toInt < 0 := by decide
      exact absurd h.value_normal.1 (not_le.mpr hneg)
    · rintro ⟨rfl, rfl⟩
      exact h.armed rfl
  · rintro ⟨hmin, hzero⟩
    by_cases hq : quadPart = 0
    · have hp : lPeriod.toInt ≠ 0 := fun h => hzero ⟨hq, Int32.toInt_inj.mp h⟩
      have hvalue : (requestedTimeout quadPart lPeriod).itValue = intervalOf lPeriod :=
        if_neg (not_not.mpr hq)
      refine ⟨normal_intervalOf hperiod, ?_, toNs_intervalOf hperiod, fun hneg => ?_, ?_⟩
      · rw [hvalue]
        exact normal_intervalOf hperiod
      · rw [hq] at hneg
        exact absurd hneg (by decide)
      · rw [hvalue]
        refine ne_zero_of_toNs ?_
        rw [toNs_intervalOf hperiod]
        omega
    · have hvalue : (requestedTimeout quadPart lPeriod).itValue = valueOf quadPart := if_pos hq
      have hne : quadPart.toInt ≠ 0 := fun h => hq (Int64.toInt_inj.mp h)
      refine ⟨normal_intervalOf hperiod, ?_, toNs_intervalOf hperiod, fun _ => ?_, ?_⟩
      · rw [hvalue]
        exact normal_valueOf hdue hmin
      · rw [hvalue]
        exact toNs_valueOf hdue hmin
      · rw [hvalue]
        refine ne_zero_of_toNs ?_
        rw [toNs_valueOf hdue hmin]
        have := abs_pos.mpr hne
        omega

end Times

/-! ### What a call passes to the kernel -/

section Calls

variable {answers : Answers} {request : Request} {timer t : WinprTimer} {quadPart : Int64}
  {lPeriod : Int32} {log : List Effect} {e : Effect} {new : Itimerspec}

/-- The times that a system call is given. -/
def Effect.timeout : Effect → Option Itimerspec
  | .timerfdSettime _ new | .timerSettime _ new => some new
  | _ => none

/-- An initialisation passes no times. -/
theorem Initializes.timeout_eq_none {i : Outcome ℤ} (h : Initializes answers timer i)
    (he : e ∈ i.log) : e.timeout = none := by
  cases h with
  | freed | closed => rcases List.mem_pair.mp he with rfl | rfl <;> rfl
  | descriptor | posix =>
    rw [List.mem_singleton.mp he]
    rfl
  | refused => exact absurd he List.not_mem_nil

theorem Readies.timeout_eq_none (h : Readies answers request timer t log) (he : e ∈ log) :
    e.timeout = none := by
  cases h with
  | already => exact absurd he List.not_mem_nil
  | now _ hi => exact hi.timeout_eq_none he

/-- A timer that is ready holds the arguments and the times it held before; nothing has been
freed or closed. -/
structure Kept (request : Request) (timer t : WinprTimer) (log : List Effect) : Prop where
  lPeriod : t.lPeriod = request.lPeriod
  pfnCompletionRoutine : t.pfnCompletionRoutine = request.pfnCompletionRoutine
  lpArgToCompletionRoutine : t.lpArgToCompletionRoutine = request.lpArgToCompletionRoutine
  timeout : t.timeout = timer.timeout
  free : .free ∉ log
  close : ∀ fd, .close fd ∉ log

theorem Readies.kept (h : Readies answers request timer t log) : Kept request timer t log := by
  cases h with
  | already => exact ⟨rfl, rfl, rfl, rfl, List.not_mem_nil, fun _ => List.not_mem_nil⟩
  | now _ hi hok =>
    cases hi with
    | freed | closed | refused => exact absurd hok (Int.negSucc_ne_zero 0)
    | descriptor | posix => exact ⟨rfl, rfl, rfl, rfl, by simp, by simp⟩

/-- **The times passed are those asked for.** -/
theorem Sets.timeout_eq {o : Outcome Bool} (h : Sets answers request timer o)
    (hdue : request.lpDueTime = some quadPart) (he : e ∈ o.log) (hnew : e.timeout = some new) :
    new = requestedTimeout quadPart request.lPeriod := by
  cases h with
  | rejected => exact absurd he List.not_mem_nil
  | uninitialized _ _ _ hi =>
    rw [hi.timeout_eq_none he] at hnew
    exact absurd hnew.symm (Option.some_ne_none new)
  | ready hdue' _ hready ha =>
    obtain rfl := Option.some.inj (hdue.symm.trans hdue')
    rcases List.mem_append.mp he with he | he
    · rw [hready.timeout_eq_none he] at hnew
      exact absurd hnew.symm (Option.some_ne_none new)
    · cases ha with
      | unsupported => exact absurd he List.not_mem_nil
      | descriptor | posix =>
        rw [List.mem_singleton.mp he] at hnew
        exact (Option.some.inj hnew).symm

/-- **A call that returns `TRUE` has passed times.** -/
theorem Sets.exists_timeout {o : Outcome Bool} (h : Sets answers request timer o)
    (htrue : o.result = true) : ∃ e ∈ o.log, ∃ new, e.timeout = some new := by
  cases h with
  | rejected | uninitialized => exact absurd htrue Bool.false_ne_true
  | ready _ _ _ ha =>
    cases ha with
    | unsupported => exact absurd htrue Bool.false_ne_true
    | descriptor | posix =>
      exact ⟨_, List.mem_append_right _ (List.mem_singleton.mpr rfl), _, rfl⟩

/-- **What a call should pass to the kernel**: the times asked for, and such that the timer is
armed when the call returns `TRUE`. -/
def ProgramsTimes (quadPart : Int64) (lPeriod : Int32) (o : Outcome Bool) : Prop :=
  (∀ e ∈ o.log, ∀ new, e.timeout = some new → RightTimes quadPart lPeriod new) ∧
    (o.result = true → ∃ e ∈ o.log, ∃ new, e.timeout = some new ∧ new.itValue ≠ .zero)

/-- **A call that gets as far as the kernel programs the times asked for, except for the least
due time and for a due time of zero with a period of zero.** -/
theorem programs_times_iff (hdue : request.lpDueTime = some quadPart) (hle : quadPart ≤ 0)
    (hperiod : 0 ≤ request.lPeriod)
    (hreached : ∃ e ∈ (setWaitableTimer answers request timer).log, e.timeout ≠ none) :
    ProgramsTimes quadPart request.lPeriod (setWaitableTimer answers request timer) ↔
      quadPart ≠ Int64.minValue ∧ ¬(quadPart = 0 ∧ request.lPeriod = 0) := by
  have hsets := sets answers request timer
  rw [← rightTimes_requestedTimeout_iff hle hperiod]
  constructor
  · rintro ⟨htimes, -⟩
    obtain ⟨e, he, hne⟩ := hreached
    obtain ⟨new, hnew⟩ := Option.ne_none_iff_exists'.mp hne
    have hright := htimes e he new hnew
    rwa [hsets.timeout_eq hdue he hnew] at hright
  · intro hright
    refine ⟨fun e he new hnew => ?_, fun htrue => ?_⟩
    · rw [hsets.timeout_eq hdue he hnew]
      exact hright
    · obtain ⟨e, he, new, hnew⟩ := hsets.exists_timeout htrue
      refine ⟨e, he, new, hnew, ?_⟩
      rw [hsets.timeout_eq hdue he hnew]
      exact hright.armed

/-- A new timer and a system that fails nothing. -/
def granted : Answers where
  timerfdCreate := 3
  fcntl := 0
  timerCreate := some 1
  timerfdSettime := 0
  timerSettime := 0

/-- A second and a half, then every `1200` ms. -/
def everyPeriod : Request where
  lpDueTime := some (-15000000)
  lPeriod := 1200
  pfnCompletionRoutine := none
  lpArgToCompletionRoutine := none

/-- At once, and only once. -/
def atOnce : Request := { everyPeriod with lpDueTime := some 0, lPeriod := 0 }

theorem programs_times_every :
    ProgramsTimes (-15000000) 1200 (setWaitableTimer granted everyPeriod createWaitableTimerA) :=
  (programs_times_iff rfl (by decide) (by decide)
    ⟨_, List.mem_cons_of_mem _ List.mem_cons_self, by decide⟩).mpr (by decide)

/-- A due time of zero without a period: the call returns `TRUE`, and the timer is disarmed. -/
theorem programs_times_at_once :
    ¬∀ (answers : Answers) (request : Request) (timer : WinprTimer) (quadPart : Int64),
      request.lpDueTime = some quadPart → quadPart ≤ 0 → 0 ≤ request.lPeriod →
      (∃ e ∈ (setWaitableTimer answers request timer).log, e.timeout ≠ none) →
      ProgramsTimes quadPart request.lPeriod (setWaitableTimer answers request timer) := by
  intro h
  obtain ⟨htimes, -⟩ := h granted atOnce createWaitableTimerA 0 rfl (by decide) (by decide)
    ⟨_, List.mem_cons_of_mem _ List.mem_cons_self, by decide⟩
  exact (htimes _ (List.mem_cons_of_mem _ List.mem_cons_self) _ rfl).armed rfl

end Calls

end WaitableTimer

end Libuzi
