import Libuzi.Synch.OpaqueSection

/-!
# What the operations on an opaque section write

The machine that the functions of `uzi.c` run on: the bytes of memory, and the semaphores
that `malloc` has handed out. A byte is *outside* when it belongs neither to the 32 bytes
of the `UZI_CS` nor to one of these semaphores; it is the program's own, and the machine
also keeps what the program has put there (`Opaque.Machine.program`), so that a write of
the library to it shows.

Every access of the functions goes to the 32 bytes, or to the semaphore that the field
`LockSemaphore` points to, or is the store of `SpinCount`, which goes to the eight bytes
behind the object (`Opaque.asks_code`). The last is the only one that leaves the object,
and it does no harm only where it finds what it stores (`Opaque.uziCS_clean`).
-/

namespace Libuzi

open Effects Runs Threads Bytes

namespace Opaque

/-! ### The machine -/

/-- `sizeof(UZI_CS)`. -/
def objectSize : ℕ := 32

/-- `sizeof(winpr_sem_t)`, which is glibc's `sem_t`. -/
def semaphoreSize : ℕ := 32

/-- The memory, and who owns it. -/
structure Machine where
  /-- The bytes. -/
  memory : Memory
  /-- What the program has put into the memory that is its own. -/
  program : Memory
  /-- The semaphores that `malloc` has handed out and `free` has not taken back. -/
  semaphores : List ℕ

/-- The byte at `x` belongs neither to the object at `p` nor to a semaphore. -/
def Machine.Outside (p : ℕ) (s : Machine) (x : ℕ) : Prop :=
  ¬(p ≤ x ∧ x < p + objectSize) ∧ ∀ q ∈ s.semaphores, ¬(q ≤ x ∧ x < q + semaphoreSize)

instance (p : ℕ) (s : Machine) (x : ℕ) : Decidable (s.Outside p x) :=
  inferInstanceAs (Decidable (_ ∧ _))

/-- **No byte outside has been changed** but by the program itself. -/
def Machine.Clean (p : ℕ) (s : Machine) : Prop := ∀ x, s.Outside p x → s.memory x = s.program x

/-- What the machine does not determine: the pointer that `malloc` returns, and what the
semaphore library leaves in the semaphore and returns. -/
structure Reply where
  /-- From `malloc`; `0` is `NULL`. -/
  pointer : ℕ
  /-- The bytes of the semaphore. -/
  contents : ℕ → Byte
  /-- Whether the call succeeds. -/
  ok : Bool

/-- **One access.** A blocked `sem_wait` is one that is not given its reply yet. The
bookkeeping of `malloc` is not memory of the program, and a block that is given back is
the program's again, with what it holds. -/
def perform (r : Reply) (s : Machine) : (e : Access) → Machine × Answer e
  | .load a n => (s, Bytes.load s.memory a n)
  | .store a n w => ({ s with memory := Bytes.store s.memory a n w }, ())
  | .interlocked a f =>
    ({ s with memory := Bytes.store s.memory a 4 (f (Bytes.load s.memory a 4)) },
      Bytes.load s.memory a 4)
  | .malloc =>
    (if r.pointer = 0 then s else { s with semaphores := r.pointer :: s.semaphores }, r.pointer)
  | .free a =>
    (if a ∈ s.semaphores then
        { s with
          program := overwrite s.program a semaphoreSize fun k => s.memory (a + k)
          semaphores := s.semaphores.erase a }
      else s, ())
  | .semaphore _ a =>
    ({ s with memory := overwrite s.memory a semaphoreSize r.contents }, r.ok)

/-- What a thread does next. -/
inductive Choice
  /-- Call one of the functions on the object. -/
  | call (c : Call)
  /-- Write a byte of its own. -/
  | write (x : ℕ) (b : Byte)
  /-- Go on with the call under way. -/
  | go (r : Reply)

variable {ι : Type*}

/-- **One step of thread `i`**, whose identity is `tid i`: its private state is the rest of
the call it is in. -/
def next (dwNumberOfProcessors p : ℕ) (tid : ι → ℕ) (i : ι) (a : Choice) (s : Machine)
    (l : Code Unit) : Option (Machine × Code Unit) :=
  match a, l with
  | .call c, .ret _ => some (s, c.code dwNumberOfProcessors (tid i) p)
  | .write x b, .ret _ =>
    if s.Outside p x then
      some ({ s with
        memory := Function.update s.memory x b
        program := Function.update s.program x b }, .ret ())
    else none
  | .go r, .ask e k => some ((perform r s e).1, k (perform r s e).2)
  | _, _ => none

/-- The start: memory with these contents, and every thread outside the functions. -/
def start (ι : Type*) (m : Memory) : Config ι Machine (Code Unit) where
  shared := { memory := m, program := m, semaphores := [] }
  locals := fun _ => .ret ()

/-! ### Where the functions write -/

/-- A store inside the object at `p`, or the store of `SpinCount`; and any load, any call
of the allocator or of the semaphore library. -/
def Within (p : ℕ) : Access → Prop
  | .store a n _ => (p ≤ a ∧ 0 < n ∧ a + n ≤ p + objectSize) ∨ (a = p + objectSize ∧ n = 8)
  | .interlocked a _ => p ≤ a ∧ a + 4 ≤ p + objectSize
  | _ => True

/-- Every field but `SpinCount` lies in the object, and `SpinCount` right behind it. -/
theorem within_store (p w : ℕ) (f : Field) : Within p (.store (p + f.offset) f.size w) := by
  cases f
  case spinCount => exact Or.inr ⟨rfl, rfl⟩
  all_goals exact Or.inl ⟨by simp, by decide, by simp [Field.offset, Field.size, objectSize]⟩

theorem within_interlocked (p : ℕ) (f : ℕ → ℕ) :
    Within p (.interlocked (p + Field.lockCount.offset) f) :=
  ⟨by simp, by simp [Field.offset, objectSize]⟩

section Asks

variable {p : ℕ}

theorem asks_load (f : Field) : (load p f).Asks (Within p) := Prog.asks_perform trivial

theorem asks_store (f : Field) (w : ℕ) : (store p f w).Asks (Within p) :=
  Prog.asks_perform (within_store p w f)

theorem asks_interlocked (f : ℕ → ℕ) : (interlockedLockCount p f).Asks (Within p) :=
  Prog.asks_perform (within_interlocked p f)

theorem asks_increment : (incrementLockCount p).Asks (Within p) :=
  (asks_interlocked _).bind fun _ => Prog.asks_pure _

theorem asks_decrement : (decrementLockCount p).Asks (Within p) :=
  (asks_interlocked _).bind fun _ => Prog.asks_pure _

theorem asks_incrementRecursionCount : (incrementRecursionCount p).Asks (Within p) :=
  (asks_load _).bind fun _ => asks_store _ _

theorem asks_decrementRecursionCount : (decrementRecursionCount p).Asks (Within p) :=
  (asks_load _).bind fun _ => (asks_store _ _).bind fun _ => Prog.asks_pure _

theorem asks_malloc : malloc.Asks (Within p) := Prog.asks_perform trivial

theorem asks_free (a : ℕ) : (free a).Asks (Within p) := Prog.asks_perform trivial

theorem asks_semaphore (op : SemaphoreOp) (a : ℕ) : (semaphore op a).Asks (Within p) :=
  Prog.asks_perform trivial

theorem asks_own (self : ℕ) : (own self p).Asks (Within p) :=
  (asks_store _ _).bind fun _ => asks_store _ _

theorem asks_setCriticalSectionSpinCount (n dwSpinCount : ℕ) :
    (setCriticalSectionSpinCount n p dwSpinCount).Asks (Within p) :=
  (asks_load _).bind fun _ => (asks_store _ _).bind fun _ => Prog.asks_pure _

theorem asks_initializeCriticalSectionEx (n dwSpinCount flags : ℕ) :
    (initializeCriticalSectionEx n p dwSpinCount flags).Asks (Within p) := by
  refine Prog.asks_ite (Prog.asks_pure _) ?_
  iterate 5 refine (asks_store _ _).bind fun _ => ?_
  refine asks_malloc.bind fun q => (asks_store _ _).bind fun _ => (asks_load _).bind fun q' => ?_
  refine Prog.asks_ite (Prog.asks_pure _) ?_
  refine (asks_load _).bind fun _ => (asks_semaphore _ _).bind fun ok => Prog.asks_ite ?_ ?_
  · exact (asks_setCriticalSectionSpinCount _ _).bind fun _ => Prog.asks_pure _
  · exact (asks_load _).bind fun _ => (asks_free _).bind fun _ => Prog.asks_pure _

theorem asks_tryEnterCriticalSection (self : ℕ) :
    (tryEnterCriticalSection self p).Asks (Within p) := by
  refine (asks_interlocked _).bind fun old => Prog.asks_ite ?_ ?_
  · exact (asks_own _).bind fun _ => Prog.asks_pure _
  · refine (asks_load _).bind fun owner => Prog.asks_ite ?_ (Prog.asks_pure _)
    exact asks_incrementRecursionCount.bind fun _ => asks_increment.bind fun _ => Prog.asks_pure _

theorem asks_spin (self n : ℕ) : (spin self p n).Asks (Within p) := by
  induction n with
  | zero => exact Prog.asks_pure _
  | succ n ih =>
    refine (asks_load _).bind fun lock => Prog.asks_ite ?_ (Prog.asks_pure _)
    refine (asks_interlocked _).bind fun old => Prog.asks_ite ?_ ih
    exact (asks_own _).bind fun _ => Prog.asks_pure _

theorem asks_enterCriticalSection (self : ℕ) :
    (enterCriticalSection self p).Asks (Within p) := by
  have hload : (loadSpinCount p).Asks (Within p) := (asks_load _).bind fun _ => Prog.asks_pure _
  refine hload.bind fun spinCount => Prog.Asks.bind ?_ fun early => ?_
  · exact Prog.asks_ite (asks_tryEnterCriticalSection _) (Prog.asks_pure _)
  refine Prog.asks_ite (Prog.asks_pure _) ((asks_spin _ _).bind fun got => ?_)
  refine Prog.asks_ite (Prog.asks_pure _) (asks_increment.bind fun lock => ?_)
  refine Prog.asks_ite ((asks_load _).bind fun owner => ?_) (asks_own _)
  refine Prog.asks_ite asks_incrementRecursionCount ?_
  exact (asks_load _).bind fun _ => (asks_semaphore _ _).bind fun _ => asks_own _

theorem asks_leaveCriticalSection : (leaveCriticalSection p).Asks (Within p) := by
  refine asks_decrementRecursionCount.bind fun r => Prog.asks_ite ?_ ?_
  · refine (asks_store _ _).bind fun _ => asks_decrement.bind fun lock => ?_
    refine Prog.asks_ite ?_ (Prog.asks_pure _)
    exact (asks_load _).bind fun _ => (asks_semaphore _ _).bind fun _ => Prog.asks_pure _
  · exact asks_decrement.bind fun _ => Prog.asks_pure _

theorem asks_deleteCriticalSection : (deleteCriticalSection p).Asks (Within p) := by
  unfold deleteCriticalSection
  iterate 4 refine (asks_store _ _).bind fun _ => ?_
  refine (asks_load _).bind fun q => Prog.asks_ite ?_ (Prog.asks_pure _)
  refine (asks_load _).bind fun _ => (asks_semaphore _ _).bind fun _ => ?_
  exact (asks_load _).bind fun _ => (asks_free _).bind fun _ => asks_store _ _

/-- **Every access of every call** stays within the object, but for the store of
`SpinCount`, the allocator and the semaphore library. -/
theorem asks_code (n self : ℕ) (c : Call) : (c.code n self p).Asks (Within p) := by
  cases c with
  | uziInitCS spinCount flags =>
    exact (asks_initializeCriticalSectionEx _ _ _).bind fun _ => Prog.asks_pure _
  | uziEnterCS => exact asks_enterCriticalSection _
  | uziTryEnterCS => exact (asks_tryEnterCriticalSection _).bind fun _ => Prog.asks_pure _
  | uziLeaveCS => exact asks_leaveCriticalSection
  | uziDeleteCS => exact asks_deleteCriticalSection

end Asks

/-! ### When an access leaves the outside alone -/

section Access

variable {p : ℕ} {s : Machine} {e : Access}

/-- **The condition**: the store of `SpinCount` finds the eight bytes behind the object as
it leaves them, unless they belong to a semaphore; and a call of the semaphore library is
given a semaphore that is one, or lies in the object. -/
def InPlace (p : ℕ) (s : Machine) : Access → Prop
  | .store a _ w => a = p + objectSize →
      ∀ k < 8, s.Outside p (a + k) → byte w k = s.memory (a + k)
  | .semaphore _ a => ∀ k < semaphoreSize, ¬s.Outside p (a + k)
  | _ => True

instance decidableInPlace (p : ℕ) (s : Machine) : (e : Access) → Decidable (InPlace p s e)
  | .store a _ w => inferInstanceAs (Decidable (a = p + objectSize →
      ∀ k < 8, s.Outside p (a + k) → byte w k = s.memory (a + k)))
  | .semaphore _ a => inferInstanceAs (Decidable (∀ k < semaphoreSize, ¬s.Outside p (a + k)))
  | .load .. | .interlocked .. | .malloc | .free _ => inferInstanceAs (Decidable True)

/-- A replacement of bytes leaves the outside alone when it puts there what was there. -/
theorem Machine.Clean.overwrite (hs : s.Clean p) {a n : ℕ} {contents : ℕ → Byte} :
    ({ s with memory := overwrite s.memory a n contents }).Clean p ↔
      ∀ k < n, s.Outside p (a + k) → contents k = s.memory (a + k) := by
  constructor
  · intro h k hk hout
    have hx : Bytes.overwrite s.memory a n contents (a + k) = s.program (a + k) := h (a + k) hout
    rw [overwrite_inside hk] at hx
    rw [hx, hs _ hout]
  · intro h x hout
    change Bytes.overwrite s.memory a n contents x = s.program x
    by_cases hx : a ≤ x ∧ x < a + n
    · obtain ⟨k, rfl⟩ := Nat.exists_eq_add_of_le hx.1
      have hk : k < n := by omega
      rw [overwrite_inside hk, h k hk hout]
      exact hs _ hout
    · rw [overwrite_outside (by omega)]
      exact hs _ hout

theorem not_outside {x : ℕ} (h : p ≤ x) (hx : x < p + objectSize) : ¬s.Outside p x :=
  fun hout => hout.1 ⟨h, hx⟩

/-- A semaphore handed out takes bytes from the outside, one given back returns them as
they are. -/
theorem Machine.Clean.allocator (hs : s.Clean p) (r : Reply) :
    (perform r s .malloc).1.Clean p ∧ ∀ a, (perform r s (.free a)).1.Clean p := by
  constructor
  · simp only [perform]
    split
    · exact hs
    · exact fun x hx => hs x ⟨hx.1, fun q hq => hx.2 q (List.mem_cons_of_mem _ hq)⟩
  · intro a
    simp only [perform]
    split
    · intro x hx
      change s.memory x =
        Bytes.overwrite s.program a semaphoreSize (fun k => s.memory (a + k)) x
      -- the bytes of the semaphore become the program's, with what they hold
      by_cases hxa : a ≤ x ∧ x < a + semaphoreSize
      · obtain ⟨k, rfl⟩ := Nat.exists_eq_add_of_le hxa.1
        rw [overwrite_inside (by omega)]
      · rw [overwrite_outside (by omega)]
        refine hs x ⟨hx.1, fun q hq => ?_⟩
        rcases eq_or_ne q a with rfl | hne
        · exact hxa
        · exact hx.2 q ((List.mem_erase_of_ne hne).mpr hq)
    · exact hs

/-- **An access of one of the functions leaves the outside alone, whatever the reply, if
and only if it is in place.** -/
theorem Machine.Clean.perform_iff (hs : s.Clean p) (he : Within p e) :
    (∀ r, (perform r s e).1.Clean p) ↔ InPlace p s e := by
  cases e with
  | load a n => exact iff_of_true (fun _ => hs) trivial
  | store a n w =>
    have hconst : (∀ r, (perform r s (.store a n w)).1.Clean p) ↔
        ({ s with memory := Bytes.store s.memory a n w }).Clean p :=
      ⟨fun h => h ⟨0, fun _ => 0, true⟩, fun h _ => h⟩
    refine hconst.trans (hs.overwrite.trans ?_)
    -- a store into the object, or the one behind it
    rcases he with ⟨hpa, hn, han⟩ | ⟨rfl, rfl⟩
    · refine iff_of_true (fun k hk hout => ?_) (fun ha => by omega)
      exact absurd hout (not_outside (by omega) (by omega))
    · exact ⟨fun h _ => h, fun h => h rfl⟩
  | interlocked a f =>
    refine iff_of_true (fun r => hs.overwrite.mpr fun k hk hout => ?_) trivial
    obtain ⟨hpa, han⟩ := he
    exact absurd hout (not_outside (by omega) (by omega))
  | malloc => exact iff_of_true (fun r => (hs.allocator r).1) trivial
  | free a => exact iff_of_true (fun r => (hs.allocator r).2 a) trivial
  | semaphore op a =>
    constructor
    · -- the library may change every byte of what it is told is a semaphore
      intro h k hk hout
      have hx := hs.overwrite.mp (h ⟨0, fun k => s.memory (a + k) + 1, true⟩) k hk hout
      simp at hx
    · exact fun h r => hs.overwrite.mpr fun k hk hout => absurd hout (h k hk)

end Access

/-! ### Every run -/

section Run

variable {ι : Type*} {n p : ℕ} {tid : ι → ℕ}

/-- The access that a thread is about to make, if it is in a call, is in place. -/
def StepInPlace (p : ℕ) (c : Config ι Machine (Code Unit)) (i : ι) : Prop :=
  match c.locals i with
  | .ret _ => True
  | .ask e _ => InPlace p c.shared e

instance (p : ℕ) (c : Config ι Machine (Code Unit)) (i : ι) : Decidable (StepInPlace p c i) :=
  match h : c.locals i with
  | .ret _ => isTrue (by rw [StepInPlace, h]; trivial)
  | .ask e _ => decidable_of_iff (InPlace p c.shared e) (by rw [StepInPlace, h])

theorem stepInPlace_iff {c : Config ι Machine (Code Unit)} {i : ι} :
    StepInPlace p c i ↔ ∀ e k, c.locals i = .ask e k → InPlace p c.shared e := by
  unfold StepInPlace
  split
  case h_1 h => simp [h]
  case h_2 e k h =>
    refine ⟨fun hplace e' k' hask => ?_, fun hplace => hplace e k h⟩
    obtain ⟨rfl, -⟩ := Prog.ask.inj (h.symm.trans hask)
    exact hplace

/-- What a step of a thread does. -/
theorem next_eq_some {i : ι} {a : Choice} {s s' : Machine} {l l' : Code Unit}
    (h : next n p tid i a s l = some (s', l')) :
    (s' = s ∧ ∃ c : Call, l' = c.code n (tid i) p) ∨
      (l' = .ret () ∧ ∃ x b, s.Outside p x ∧ s' = { s with
        memory := Function.update s.memory x b
        program := Function.update s.program x b }) ∨
      ∃ r e k, l = .ask e k ∧ s' = (perform r s e).1 ∧ l' = k (perform r s e).2 := by
  unfold next at h
  split at h
  case h_1 c _ =>
    obtain ⟨rfl, rfl⟩ := Prod.mk.inj (Option.some.inj h)
    exact Or.inl ⟨rfl, c, rfl⟩
  case h_2 x b _ =>
    split at h
    case isTrue hx =>
      obtain ⟨rfl, rfl⟩ := Prod.mk.inj (Option.some.inj h)
      exact Or.inr (Or.inl ⟨rfl, x, b, hx, rfl⟩)
    case isFalse => cases h
  case h_3 r e k =>
    obtain ⟨rfl, rfl⟩ := Prod.mk.inj (Option.some.inj h)
    exact Or.inr (Or.inr ⟨r, e, k, rfl, rfl, rfl⟩)
  case h_4 => cases h

/-- A write of the program to its own memory shows in both places. -/
theorem Machine.Clean.write {s : Machine} (hs : s.Clean p) (x : ℕ) (b : Byte) :
    ({ s with
      memory := Function.update s.memory x b
      program := Function.update s.program x b }).Clean p := by
  intro y hy
  rcases eq_or_ne y x with rfl | hne
  · simp
  · simpa [Function.update_of_ne hne] using hs y hy

/-- **What a step keeps**: the rest of a call asks for no other accesses than the call. -/
theorem asks_next {i : ι} {a : Choice} {s s' : Machine} {l l' : Code Unit}
    (hl : l.Asks (Within p)) (h : next n p tid i a s l = some (s', l')) :
    l'.Asks (Within p) := by
  rcases next_eq_some h with ⟨-, c, rfl⟩ | ⟨rfl, -⟩ | ⟨r, e, k, rfl, -, rfl⟩
  · exact asks_code n (tid i) c
  · exact Prog.asks_pure ()
  · exact hl.2 _

/-- **And the outside clean**, if its access is in place. -/
theorem clean_next {i : ι} {a : Choice} {s s' : Machine} {l l' : Code Unit} (hs : s.Clean p)
    (hl : l.Asks (Within p)) (hplace : ∀ e k, l = .ask e k → InPlace p s e)
    (h : next n p tid i a s l = some (s', l')) : s'.Clean p := by
  rcases next_eq_some h with ⟨rfl, -⟩ | ⟨-, x, b, -, rfl⟩ | ⟨r, e, k, rfl, rfl, -⟩
  · exact hs
  · exact hs.write x b
  · exact (hs.perform_iff hl.1).mpr (hplace e k rfl) r

variable [DecidableEq ι]

/-- No state that threads with these identities reach has a byte outside changed. -/
def StaysInside (n p : ℕ) (tid : ι → ℕ) (m : Memory) : Prop :=
  ∀ c, Reaches (threadStep (next n p tid)) (start ι m) c → c.shared.Clean p

/-- **Every run keeps the outside clean as long as its steps are in place**, and no
longer: in every state it reaches, a thread can go on without harm, whatever the replies,
if and only if its access is in place. -/
theorem uziCS_clean {m : Memory} {c : Config ι Machine (Code Unit)}
    (h : ReachesIf (threadStep (next n p tid)) (fun c e => StepInPlace p c e.1) (start ι m) c) :
    c.shared.Clean p ∧ ∀ i,
      (∀ r s l, next n p tid i (.go r) c.shared (c.locals i) = some (s, l) → s.Clean p) ↔
        StepInPlace p c i := by
  have hinv : c.shared.Clean p ∧ ∀ i, (c.locals i).Asks (Within p) := by
    refine invariant (P := fun d => d.shared.Clean p ∧ ∀ i, (d.locals i).Asks (Within p)) h
      ⟨fun _ _ => rfl, fun _ => Prog.asks_pure ()⟩ ?_
    rintro d i a s l ⟨hclean, hasks⟩ hok hn
    refine ⟨clean_next hclean (hasks i) (stepInPlace_iff.mp hok) hn, ?_⟩
    exact Config.forall_move (P := fun _ l => Prog.Asks (Within p) l) (asks_next (hasks i) hn)
      fun j _ => hasks j
  obtain ⟨hclean, hasks⟩ := hinv
  refine ⟨hclean, fun i => Iff.trans ⟨fun hgo e k hl => ?_, fun hplace r s l hn => ?_⟩
    stepInPlace_iff.symm⟩
  · have he : Within p e := (hl ▸ hasks i).1
    refine (hclean.perform_iff he).mp fun r => hgo r _ (k (perform r c.shared e).2) ?_
    rw [hl]
    rfl
  · exact clean_next hclean (hasks i) hplace hn

/-- The semaphore of these runs is at `8192`, and every call succeeds. -/
def reply : Reply := { pointer := 8192, contents := fun _ => 0, ok := true }

/-- A thread initialises the section. -/
def initialise : List (Fin 1 × Choice) :=
  (0, .call (.uziInitCS 0 0)) :: List.replicate 12 (0, .go reply)

/-- It enters twice, leaves twice and deletes the section. -/
def useAndDelete : List (Fin 1 × Choice) :=
  (0, .call .uziEnterCS) :: List.replicate 4 (0, .go reply) ++
    (0, .call .uziTryEnterCS) :: List.replicate 5 (0, .go reply) ++
    (0, .call .uziLeaveCS) :: List.replicate 3 (0, .go reply) ++
    (0, .call .uziLeaveCS) :: List.replicate 4 (0, .go reply) ++
    (0, .call .uziDeleteCS) :: List.replicate 10 (0, .go reply)

/-- On one processor `SpinCount` is zero throughout, and so is the memory it lies in. -/
theorem uziCS_clean_oneProcessor :
    ∃ c, run (threadStep (next 1 4096 fun _ => 7)) (start (Fin 1) fun _ => 0)
        (initialise ++ useAndDelete) = some c ∧
      c.shared.semaphores = [] ∧ c.shared.Clean 4096 := by
  have hrun : run (threadStep (next 1 4096 fun _ => 7)) (start (Fin 1) fun _ => 0)
      (initialise ++ useAndDelete) = some (final _ _ _) := run_eq_final (by decide +kernel)
  refine ⟨_, hrun, by decide +kernel, ?_⟩
  exact (uziCS_clean (reachesIf_of_run _ (by decide +kernel) hrun)).1

/-- On two processors it is `4000`, whose low byte is not. -/
theorem uziCS_not_staysInside : ¬StaysInside 2 4096 (fun _ : Fin 1 => 7) fun _ => 0 := by
  intro h
  have hrun : run (threadStep (next 2 4096 fun _ => 7)) (start (Fin 1) fun _ => 0)
      initialise = some (final _ _ _) := run_eq_final (by decide +kernel)
  have hbyte := h _ (reaches_of_run _ hrun) (4096 + objectSize) (by decide +kernel)
  exact absurd hbyte (by decide +kernel)

end Run

end Opaque

end Libuzi
