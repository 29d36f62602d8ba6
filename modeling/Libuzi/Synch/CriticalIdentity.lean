import Libuzi.Synch.CriticalExclusion
import Mathlib.Data.Fintype.EquivFin

/-!
# Who may recurse in a critical section

`EnterCriticalSection` and `TryEnterCriticalSection` let a thread into a locked
section when `OwningThread` is its own identity, and the identity of a thread is
what `GetCurrentThreadId` computes: the low half of its `pthread_t`. Only the low
half is compared, so

* two threads whose `pthread_t` differ in the high half alone are one thread to the
  section, and while one holds it the other walks in;
* a thread whose `pthread_t` has a zero low half has the identity `NULL`, which is
  what `OwningThread` reads before the thread that got the lock has stored its own.

`Critical.only_owner_recurses_iff` shows that nothing else can go wrong, as long as the
counters do not come round (`Critical.Fits`). A thread that is alone with the section
needs no identity at all: a section it does not hold is free (`Critical.Alone`).
-/

namespace Libuzi

open Runs Threads Counters

/-- `GetCurrentThreadId`, for the thread whose `pthread_self` is `tid`: the mask is
an `unsigned long`, so the `DWORD` is widened for it and cut again. -/
def getCurrentThreadId (tid : BitVec 64) : BitVec 32 :=
  ((tid.setWidth 32).setWidth 64 &&& 0xffffffff#64).setWidth 32

/-- The identity of a thread is the low half of its `pthread_t`. -/
theorem getCurrentThreadId_toNat (tid : BitVec 64) :
    (getCurrentThreadId tid).toNat = tid.toNat % 2 ^ 32 := by
  have hmask : (0xffffffff#64).toNat = 2 ^ 32 - 1 := rfl
  simp only [getCurrentThreadId, BitVec.toNat_setWidth, BitVec.toNat_and, hmask,
    Nat.and_two_pow_sub_one_eq_mod]
  omega

namespace Critical

variable {ι : Type*}

/-- `OwningThread` for a thread with this `pthread_t`:
`(HANDLE)(ULONG_PTR) GetCurrentThreadId()`. -/
def identity (pthread : ι → BitVec 64) (i : ι) : ℕ := (getCurrentThreadId (pthread i)).toNat

/-- The place at the head of a recursion branch, of `EnterCriticalSection` itself, of
`TryEnterCriticalSection`, or of the latter called by the former. -/
def Pc.TakesRecursion : Pc → Prop
  | .entering .loadRecursion | .entering (.tryEnter _ .loadRecursion)
  | .trying .loadRecursion => True
  | _ => False

/-- The place in `TryEnterCriticalSection`, whichever function called it. -/
def Pc.tryPc : Pc → Option TryPc
  | .entering (.tryEnter _ p) | .trying p => some p
  | _ => none

section Definition

variable [DecidableEq ι]

/-- **Only the owner recurses**: in every state that threads with these identities
reach from the section `cs` while no counter comes round, a thread in a recursion branch
holds the section. -/
def OnlyOwnerRecurses (tid : ι → ℕ) (cs : CriticalSection) : Prop :=
  ∀ c, ReachesIf (threadStep (next long tid)) (Fits long) (start ι cs) c →
    ∀ i, (c.locals i).pc.TakesRecursion → 0 < (c.locals i).depth

end Definition

theorem Pc.TakesRecursion.stage {p : Pc} (h : p.TakesRecursion) : ∃ w, p.stage = .recursing w := by
  unfold Pc.TakesRecursion at h
  split at h
  · exact ⟨1, rfl⟩
  · exact ⟨0, rfl⟩
  · exact ⟨0, rfl⟩
  · exact h.elim

/-! ### Several threads, told apart by their identities -/

/-- **With distinct identities, none of them `NULL`, only the owner recurses.** -/
theorem onlyOwnerRecurses_of_injective [DecidableEq ι] [Fintype ι] {tid : ι → ℕ}
    (htid : Function.Injective tid) (hnull : ∀ i, tid i ≠ 0)
    {mallocOk semInitOk : Bool} {p n flags : ℕ} {cs : CriticalSection}
    (hcs : initializeCriticalSectionEx mallocOk semInitOk p n flags = some cs) :
    OnlyOwnerRecurses tid cs := by
  intro c hc i hi
  obtain ⟨w, hw⟩ := hi.stage
  have hrec := ((inv_of_reaches counter_long htid hnull hcs hc).place i).recursion
  simp only [views, Local.view, View.RecursionOk, hw] at hrec
  exact hrec.1

/-! ### One thread alone -/

/-- The stages a thread gets to only by way of a section that it finds locked, or that
it leaves. -/
def Stage.Inside : Stage → Prop
  | .out | .waiting | .acquired | .naming => False
  | _ => True

/-- **What holds of a thread alone with the section**, whatever its identity:
`LockCount` counts its calls and nobody else's, and so it finds the section locked
only if it holds it. -/
structure Alone (keep : ℤ → ℤ) (cs : CriticalSection) (l : Local) : Prop where
  /-- `LockCount` keeps what the thread has put into it, less one. -/
  lock : cs.lockCount = keep (l.view.lockWeight - 1)
  /-- A thread that has found the section locked holds it. -/
  inside : l.pc.stage.Inside → 0 < l.depth
  /-- So does one that is about to see who the owner is. -/
  compares : l.pc.tryPc = some .loadOwner → 0 < l.depth

/-- A step of the protocol keeps the account of a thread alone; that it recurses only
from inside has to be known. -/
theorem Protocol.alone {keep : ℤ → ℤ} (hk : Counter keep) {self d : ℕ} {cs cs' : CriticalSection}
    {st : Stage} {v' : View} (hp : Protocol keep self cs d st cs' v')
    (hlock : cs.lockCount = keep (View.lockWeight ⟨st, d⟩ - 1)) (hin : st.Inside → 0 < d)
    (hrec : v'.stage = .recursing 0 → 0 < d) :
    cs'.lockCount = keep (v'.lockWeight - 1) ∧ (v'.stage.Inside → 0 < v'.depth) := by
  -- what `LockCount` is after an increment, and after a decrement
  have hnext : ∀ m : ℤ, m = View.lockWeight ⟨st, d⟩ + 1 →
      keep (cs.lockCount + 1) = keep (m - 1) := by
    rintro m rfl
    rw [hlock, hk.keep_add, sub_add_cancel, add_sub_cancel_right]
  have hprev : ∀ m : ℤ, m = View.lockWeight ⟨st, d⟩ - 1 →
      keep (cs.lockCount - 1) = keep (m - 1) := by
    rintro m rfl
    rw [hlock, hk.keep_sub]
  cases hp with
  | stay => exact ⟨hlock, hin⟩
  | acquire hl =>
    refine ⟨?_, False.elim⟩
    have hread : keep (cs.lockCount + 1) = 0 := by
      rcases hl with hl | hl
      · rw [hl]
        exact hk.keep_small 0 (by decide) (by decide)
      · exact hl
    exact hread.symm.trans (hnext _ (by simp [View.lockWeight]))
  | count hl =>
    refine ⟨hnext _ (by simp [View.lockWeight]), fun _ => ?_⟩
    -- a thread that is not inside would have found the section free
    by_contra hd
    obtain rfl : d = 0 := Nat.eq_zero_of_not_pos hd
    refine hl ((hnext 1 rfl).trans ?_)
    exact hk.keep_small 0 (by decide) (by decide)
  | setRecursion => exact ⟨hlock, False.elim⟩
  | setOwner => exact ⟨hlock, False.elim⟩
  | recurse ho => exact ⟨hlock, fun _ => hrec rfl⟩
  | recurseCounted ho => exact ⟨hlock, fun _ => hin trivial⟩
  | block ho => exact ⟨hlock, False.elim⟩
  | wake hs => exact ⟨hlock, False.elim⟩
  | load w => exact ⟨hlock, hin⟩
  | store v => exact ⟨by simpa [View.lockWeight] using hlock, hin⟩
  | storeCounted v => exact ⟨hlock, False.elim⟩
  | recount => exact ⟨hnext _ rfl, False.elim⟩
  | leave hd => exact ⟨hlock, fun _ => hd⟩
  | leaveLoad => exact ⟨hlock, hin⟩
  | leaveLast v hv => exact ⟨hlock, hin⟩
  | leaveNested v hv => exact ⟨hlock, hin⟩
  | clear => exact ⟨hlock, hin⟩
  | unlockPost hl =>
    have hd := hin trivial
    refine ⟨hprev _ ?_, fun _ => hd⟩
    simp only [View.lockWeight]
    omega
  | unlockFree hl | unnest =>
    have hd := hin trivial
    refine ⟨hprev _ ?_, False.elim⟩
    simp only [View.lockWeight]
    omega
  | post => exact ⟨hlock, False.elim⟩

section Step

variable {keep : ℤ → ℤ} {self : ℕ} {cs cs' : CriticalSection}

theorem Pc.stage_of_tryPc {p : Pc} {q : TryPc} (h : p.tryPc = some q) : p.stage = q.stage := by
  unfold Pc.tryPc at h
  split at h
  · obtain rfl := Option.some.inj h
    rfl
  · obtain rfl := Option.some.inj h
    rfl
  · cases h

/-- A recursion that has put nothing into `LockCount` yet is one of
`TryEnterCriticalSection`. -/
theorem Pc.tryPc_of_stage {p : Pc} (h : p.stage = .recursing 0) :
    p.tryPc = some .loadRecursion := by
  have htry : ∀ q : TryPc, q.stage = .recursing 0 → q = .loadRecursion := by
    intro q hq
    cases q <;> simp_all [TryPc.stage]
  cases p with
  | idle => cases h
  | trying q => exact congrArg some (htry q h)
  | leaving q => cases q <;> cases h
  | entering q =>
    cases q with
    | tryEnter n q => exact congrArg some (htry q h)
    | _ => cases h

theorem tryPc_of_enter {p p' : EnterPc}
    (h : enterCriticalSection keep self cs p = some (cs', some p')) {q : TryPc}
    (hq : (Pc.entering p').tryPc = some q) (hne : q ≠ .cas) :
    ∃ p₀, (Pc.entering p).tryPc = some p₀ ∧
      tryEnterCriticalSection keep self cs p₀ = (cs', .inl q) := by
  cases p with
  | tryEnter n p₀ =>
    refine ⟨p₀, rfl, ?_⟩
    rcases ht : tryEnterCriticalSection keep self cs p₀ with ⟨cs₁, p₁ | (_ | _)⟩ <;>
      simp only [enterCriticalSection, ht] at h <;>
      obtain ⟨rfl, hp'⟩ := Prod.mk.inj (Option.some.inj h)
    · obtain rfl := Option.some.inj hp'
      obtain rfl := Option.some.inj hq
      rfl
    · obtain rfl := Option.some.inj hp'
      cases hq
    · cases hp'
  | loadSpin =>
    -- the call begins at the compare-exchange
    simp only [enterCriticalSection] at h
    obtain ⟨-, hp'⟩ := Prod.mk.inj (Option.some.inj h)
    obtain rfl := Option.some.inj hp'
    split at hq
    · exact absurd (Option.some.inj hq).symm hne
    · cases hq
  | spin n =>
    cases n <;> cases h <;> cases hq
  | loadLock n | spinCas n | increment | loadOwner =>
    simp only [enterCriticalSection] at h
    obtain ⟨-, hp'⟩ := Prod.mk.inj (Option.some.inj h)
    obtain rfl := Option.some.inj hp'
    split at hq <;> cases hq
  | spinSetRecursion | loadRecursion | setRecursion =>
    cases h
    cases hq
  | spinSetOwner | storeRecursion v | setOwner => cases h
  | wait =>
    simp only [enterCriticalSection] at h
    split at h
    · cases h
      cases hq
    · cases h

/-- **A place inside `TryEnterCriticalSection` is reached from the one before it**, by
a step of that function. -/
theorem tryPc_of_next {tid : ι → ℕ} {i : ι} {a : Choice} {l l' : Local}
    (h : next keep tid i a cs l = some (cs', l')) {q : TryPc} (hq : l'.pc.tryPc = some q)
    (hne : q ≠ .cas) :
    ∃ p, l.pc.tryPc = some p ∧ tryEnterCriticalSection keep (tid i) cs p = (cs', .inl q) ∧
      l'.depth = l.depth := by
  unfold next at h
  split at h
  case h_1 =>
    cases h
    cases hq
  case h_2 =>
    cases h
    exact absurd (Option.some.inj hq).symm hne
  case h_3 =>
    split at h
    · cases h
      cases hq
    · cases h
  -- a thread in `EnterCriticalSection` gets there by calling the other function
  case h_4 p hpc =>
    rw [hpc]
    rcases he : enterCriticalSection keep (tid i) cs p with _ | ⟨cs₁, _ | p₁⟩ <;> rw [he] at h <;>
      cases h
    · cases hq
    · obtain ⟨p₀, hp₀, ht⟩ := tryPc_of_enter he hq hne
      exact ⟨p₀, hp₀, ht, rfl⟩
  case h_5 p hpc =>
    rw [hpc]
    rcases ht : tryEnterCriticalSection keep (tid i) cs p with ⟨cs₁, p₁ | (_ | _)⟩ <;>
      rw [ht] at h <;>
      cases h
    · obtain rfl := Option.some.inj hq
      exact ⟨p, rfl, ht, rfl⟩
    · cases hq
    · cases hq
  case h_6 p hpc =>
    rcases hl : leaveCriticalSection keep cs p with ⟨cs₁, _ | p₁⟩ <;> rw [hl] at h <;> cases h <;>
      cases hq
  case h_7 => cases h

/-- `TryEnterCriticalSection` looks at the owner only of a locked section. -/
theorem tryEnter_loadOwner {p : TryPc}
    (h : tryEnterCriticalSection keep self cs p = (cs', .inl .loadOwner)) :
    p = .cas ∧ cs.lockCount ≠ -1 := by
  cases p with
  | cas =>
    refine ⟨rfl, fun hl => ?_⟩
    simp [tryEnterCriticalSection, interlockedCompareExchange, hl] at h
  | loadOwner =>
    simp only [tryEnterCriticalSection] at h
    split at h <;> cases h
  | _ => cases h

/-- It recurses only after it has looked at the owner. -/
theorem tryEnter_loadRecursion {p : TryPc}
    (h : tryEnterCriticalSection keep self cs p = (cs', .inl .loadRecursion)) : p = .loadOwner := by
  cases p with
  | loadOwner => rfl
  | cas =>
    simp only [tryEnterCriticalSection] at h
    obtain ⟨-, hp⟩ := Prod.mk.inj h
    split at hp <;> cases hp
  | _ => cases h

/-- **A step of a thread alone keeps its account.** -/
theorem Alone.next (hk : Counter keep) {tid : ι → ℕ} {i : ι} {a : Choice} {l l' : Local}
    (h : Alone keep cs l) (hfits : l.pc.Fits keep cs)
    (hn : next keep tid i a cs l = some (cs', l')) : Alone keep cs' l' := by
  have hrec : l'.view.stage = .recursing 0 → 0 < l.depth := by
    intro hst
    obtain ⟨p, hp, ht, -⟩ := tryPc_of_next hn (Pc.tryPc_of_stage hst) (by simp)
    obtain rfl := tryEnter_loadRecursion ht
    exact h.compares hp
  obtain ⟨hlock, hin⟩ := (protocol_of_next hfits hn).alone hk h.lock h.inside hrec
  refine ⟨hlock, hin, fun hcmp => ?_⟩
  obtain ⟨p, hp, ht, hd⟩ := tryPc_of_next hn hcmp (by simp)
  obtain ⟨rfl, hl⟩ := tryEnter_loadOwner ht
  have hweight := h.lock
  simp only [Local.view, View.lockWeight, Pc.stage_of_tryPc hp, TryPc.stage] at hweight
  -- outside, it would have found the section free
  by_contra hout
  rw [show l.depth = 0 by omega] at hweight
  exact hl (hweight.trans (hk.keep_small (-1) le_rfl (by decide)))

end Step

/-- **A thread alone with the section recurses only as its owner**, whatever its
identity. -/
theorem onlyOwnerRecurses_of_subsingleton [DecidableEq ι] [Subsingleton ι] (tid : ι → ℕ)
    {mallocOk semInitOk : Bool} {p n flags : ℕ} {cs : CriticalSection}
    (hcs : initializeCriticalSectionEx mallocOk semInitOk p n flags = some cs) :
    OnlyOwnerRecurses tid cs := by
  intro c hc i hi
  have halone : Alone long c.shared (c.locals i) := by
    refine invariant (P := fun d => Alone long d.shared (d.locals i)) hc ?_ ?_
    · refine ⟨?_, False.elim, fun h => by cases h⟩
      have hl : cs.lockCount = -1 := (initializeCriticalSectionEx_eq_some hcs).1
      exact hl.trans (counter_long.keep_small (-1) le_rfl (by decide)).symm
    · intro d j a s l hd hfits hn
      obtain rfl := Subsingleton.elim i j
      rw [Config.move_self]
      exact hd.next counter_long hfits hn
  obtain ⟨w, hw⟩ := hi.stage
  exact halone.inside (by rw [hw]; trivial)

/-! ### Threads that the section confuses -/

section Intrusion

variable [DecidableEq ι] {keep : ℤ → ℤ} {tid : ι → ℕ} {c₀ c : Config ι CriticalSection Local}

/-- The private state of a thread that has nothing to do with the section. -/
def Local.outside : Local := { pc := .idle, depth := 0 }

/-- What a thread does alone while no counter comes round. -/
def AloneFits (keep : ℤ → ℤ) (p : CriticalSection × Local) (_ : Choice) : Prop :=
  p.2.pc.Fits keep p.1

/-- **A thread that is alone for a while.** -/
theorem reachesIf_of_alone (hc : ReachesIf (threadStep (next keep tid)) (Fits keep) c₀ c) {i : ι}
    {s : CriticalSection} {l : Local}
    (h : ReachesIf (alone (next keep tid) i) (AloneFits keep) (c.shared, c.locals i) (s, l)) :
    ReachesIf (threadStep (next keep tid)) (Fits keep) c₀ (c.move i s l) := by
  refine hc.trans (reachesIf_alone h fun p a hp => ?_)
  rw [Fits, Config.move_self]
  exact hp

/-- **A locked section that names thread `i` lets it in**, though it is outside. -/
theorem exists_intrusion (hc : ReachesIf (threadStep (next keep tid)) (Fits keep) c₀ c) {i : ι}
    (hi : c.locals i = .outside) (hl : c.shared.lockCount ≠ -1)
    (ho : c.shared.owningThread = tid i) :
    ∃ c', ReachesIf (threadStep (next keep tid)) (Fits keep) c₀ c' ∧
      (c'.locals i).pc.TakesRecursion ∧ (c'.locals i).depth = 0 := by
  -- it calls `TryEnterCriticalSection`
  have hcall : alone (next keep tid) i (c.shared, .outside) .tryEnter =
      some (c.shared, { pc := .trying .cas, depth := 0 }) := rfl
  -- the compare-exchange fails, since the section is locked
  have hcas : alone (next keep tid) i (c.shared, { pc := .trying .cas, depth := 0 }) .go =
      some (c.shared, { pc := .trying .loadOwner, depth := 0 }) := by
    simp [alone, next, tryEnterCriticalSection, interlockedCompareExchange, hl]
  -- the owner is compared, and seems to be the thread itself
  have howner : alone (next keep tid) i (c.shared, { pc := .trying .loadOwner, depth := 0 }) .go =
      some (c.shared, { pc := .trying .loadRecursion, depth := 0 }) := by
    simp [alone, next, tryEnterCriticalSection, ho]
  have halone : ReachesIf (alone (next keep tid) i) (AloneFits keep) (c.shared, c.locals i)
      (c.shared, { pc := .trying .loadRecursion, depth := 0 }) := by
    rw [hi]
    exact ((ReachesIf.refl.tail trivial hcall).tail trivial hcas).tail trivial howner
  refine ⟨_, reachesIf_of_alone hc halone, ?_, ?_⟩
  · rw [Config.move_self]
    trivial
  · rw [Config.move_self]

/-- A thread that finds the section free gets as far as its compare-exchange: the
section is locked, and `OwningThread` still `NULL`. -/
theorem reaches_locked (keep : ℤ → ℤ) (tid : ι → ℕ) {cs : CriticalSection}
    (hl : cs.lockCount = -1) (j : ι) :
    ∃ c, ReachesIf (threadStep (next keep tid)) (Fits keep) (start ι cs) c ∧
      c.shared = { cs with lockCount := 0 } ∧
      c.locals j = { pc := .trying .setRecursion, depth := 0 } ∧
      ∀ i, i ≠ j → c.locals i = .outside := by
  have hcall : alone (next keep tid) j (cs, .outside) .tryEnter =
      some (cs, { pc := .trying .cas, depth := 0 }) := rfl
  have hcas : alone (next keep tid) j (cs, { pc := .trying .cas, depth := 0 }) .go =
      some ({ cs with lockCount := 0 }, { pc := .trying .setRecursion, depth := 0 }) := by
    simp [alone, next, tryEnterCriticalSection, interlockedCompareExchange, hl]
  refine ⟨_, reachesIf_of_alone .refl ((ReachesIf.refl.tail trivial hcall).tail trivial hcas), rfl,
    Config.move_self .., fun i hi => ?_⟩
  rw [Config.move_of_ne _ _ _ hi]
  rfl

/-- Two more steps and it has named itself. -/
theorem reaches_named (keep : ℤ → ℤ) (tid : ι → ℕ) {cs : CriticalSection}
    (hl : cs.lockCount = -1) (j : ι) :
    ∃ c, ReachesIf (threadStep (next keep tid)) (Fits keep) (start ι cs) c ∧
      c.shared.lockCount ≠ -1 ∧ c.shared.owningThread = tid j ∧
      ∀ i, i ≠ j → c.locals i = .outside := by
  obtain ⟨c, hc, hs, hj, hout⟩ := reaches_locked keep tid hl j
  have hrec : alone (next keep tid) j (c.shared, { pc := .trying .setRecursion, depth := 0 }) .go =
      some ({ c.shared with recursionCount := 1 }, { pc := .trying .setOwner, depth := 0 }) := rfl
  have hown : alone (next keep tid) j ({ c.shared with recursionCount := 1 },
      { pc := .trying .setOwner, depth := 0 }) .go =
      some ({ c.shared with recursionCount := 1, owningThread := tid j },
        { pc := .idle, depth := 1 }) := rfl
  have halone : ReachesIf (alone (next keep tid) j) (AloneFits keep) (c.shared, c.locals j)
      ({ c.shared with recursionCount := 1, owningThread := tid j },
        { pc := .idle, depth := 1 }) := by
    rw [hj]
    exact (ReachesIf.refl.tail trivial hrec).tail trivial hown
  refine ⟨_, reachesIf_of_alone hc halone, ?_, rfl, fun i hi => ?_⟩
  · rw [Config.move_shared, hs]
    change (0 : ℤ) ≠ -1
    decide
  · rw [Config.move_of_ne _ _ _ hi]
    exact hout i hi

end Intrusion

/-! ### Exactly when only the owner recurses -/

/-- **Only the owner recurses, as long as no counter comes round, if and only if**, of any
two threads, the low halves of the `pthread_t` values differ and neither is zero. The values
of live threads are distinct and not zero, but that says nothing about their low halves. -/
theorem only_owner_recurses_iff [DecidableEq ι] (pthread : ι → BitVec 64)
    {mallocOk semInitOk : Bool} {p n flags : ℕ} {cs : CriticalSection}
    (hcs : initializeCriticalSectionEx mallocOk semInitOk p n flags = some cs) :
    OnlyOwnerRecurses (identity pthread) cs ↔
      ∀ i j, i ≠ j → (pthread i).toNat % 2 ^ 32 ≠ (pthread j).toNat % 2 ^ 32 ∧
        (pthread i).toNat % 2 ^ 32 ≠ 0 := by
  obtain ⟨hl, -, hnull, -⟩ := initializeCriticalSectionEx_eq_some hcs
  simp only [← getCurrentThreadId_toNat]
  constructor
  · intro h i j hij
    constructor
    · -- while `j` holds the section, it names `i` as well
      intro heq
      obtain ⟨c, hc, hlock, hown, hout⟩ := reaches_named long (identity pthread) hl j
      obtain ⟨c', hc', hrec, hd⟩ := exists_intrusion hc (hout i hij) hlock (hown.trans heq.symm)
      exact absurd (h c' hc' i hrec) (by omega)
    · -- before `j` has named itself, the section names `i`
      intro hzero
      obtain ⟨c, hc, hs, -, hout⟩ := reaches_locked long (identity pthread) hl j
      have hown : c.shared.owningThread = identity pthread i := by
        rw [hs]
        exact hnull.trans hzero.symm
      obtain ⟨c', hc', hrec, hd⟩ := exists_intrusion hc (hout i hij) (by simp [hs]) hown
      exact absurd (h c' hc' i hrec) (by omega)
  · intro h
    rcases subsingleton_or_nontrivial ι with hone | hmany
    · exact onlyOwnerRecurses_of_subsingleton _ hcs
    · -- distinct identities, none of which is zero: mutual exclusion applies
      have htid : Function.Injective (identity pthread) := by
        intro i j heq
        by_contra hij
        exact (h i j hij).1 heq
      have hfin : Function.Injective fun i => (getCurrentThreadId (pthread i)).toFin :=
        fun i j heq => htid (congrArg Fin.val heq)
      have _ : Fintype ι := Fintype.ofInjective _ hfin
      refine onlyOwnerRecurses_of_injective htid (fun i => ?_) hcs
      obtain ⟨j, hj⟩ := exists_ne i
      exact (h i j hj.symm).2

/-- Two threads whose stacks lie 8 MiB apart. -/
def neighbours (i : Fin 2) : BitVec 64 := if i = 0 then 0x7f0000000700#64 else 0x7f0000800700#64

theorem only_owner_recurses_neighbours :
    OnlyOwnerRecurses (identity neighbours) twoProcessors :=
  (only_owner_recurses_iff neighbours
    (show initializeCriticalSectionEx true true 2 1 0 = _ from rfl)).mpr (by decide)

/-- Two threads whose stacks lie 4 GiB apart. -/
def twins (i : Fin 2) : BitVec 64 := if i = 0 then 0x7f0000000700#64 else 0x7f0100000700#64

/-- Thread `0` enters; thread `1`, which has entered nothing, tries to. -/
def enterAndTry : List (Fin 2 × Choice) :=
  (0, .tryEnter) :: List.replicate 3 (0, .go) ++ (1, .tryEnter) :: List.replicate 2 (1, .go)

/-- The section takes the one twin for the other. -/
theorem twins_not_only_owner_recurses :
    Function.Injective twins ∧ (∀ i, twins i ≠ 0) ∧
      ¬OnlyOwnerRecurses (identity twins) twoProcessors := by
  refine ⟨by unfold Function.Injective; decide, by decide, fun h => ?_⟩
  have hrun : run (threadStep (next long (identity twins))) (start (Fin 2) twoProcessors)
      enterAndTry = some (final _ _ _) := run_eq_final (by decide +kernel)
  have hpc : (final (threadStep (next long (identity twins))) (start (Fin 2) twoProcessors)
      enterAndTry).locals 1 = { pc := .trying .loadRecursion, depth := 0 } := by
    decide +kernel
  have hpos := h _ (reachesIf_of_run _ (by decide +kernel) hrun) 1 (by rw [hpc]; trivial)
  exact absurd hpos (by rw [hpc]; decide)

end Critical

end Libuzi
