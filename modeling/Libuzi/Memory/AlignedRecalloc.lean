import Libuzi.Memory.AlignedHeap

/-!
# Aligned blocks filled with zeros

`_aligned_offset_recalloc` of `libuzi/alignment.c`. It should do for a block what `calloc` and
`realloc` do together: give back a block of `num * size` bytes with the bytes of the old one, and
zeros after them. Its two branches part from this in different places.

| | `memblock` is `NULL` | `memblock` is a block |
|---|---|---|
| `_aligned_offset_malloc` fails | returns `NULL` | returns `NULL` |
| it succeeds | fills the new block, returns `memblock` | fills the new block, releases the old one |

On the left the new block is lost, because `memblock` is `NULL`. On the right the bytes of the old
block are; they are as they should be only if they were zero anyway. And both multiply in 64
bits. So the function does what it should exactly where no block is allocated, or else the old
block has been zero as far as the new one goes and nothing wraps
(`Aligned.recallocates_iff`).
-/

namespace Libuzi

open Bytes Rounding Runs

namespace Aligned

/-- `ZeroMemory`. -/
def Heap.zeroMemory (h : Heap) (p length : Size) : Heap :=
  { h with memory := overwrite h.memory p.toNat length.toNat fun _ => 0 }

/-- **`_aligned_offset_recalloc`**. -/
def alignedOffsetRecalloc (h : Heap) (memblock : Option Size) (num size alignment offset : Size)
    (answer : Option Size) : Heap × Option Size :=
  match memblock with
  | none =>
    match alignedOffsetMalloc h (size * num) alignment offset answer with
    | (h, none) => (h, memblock)
    | (h, some newMemblock) =>
      let pNewMem := h.header (structFromPtr newMemblock)
      (h.zeroMemory newMemblock pNewMem.size, memblock)
  | some p =>
    if (h.header (structFromPtr p)).sig ≠ signature then (h, none)
    else if size = 0 then (alignedFree h memblock, none)
    else
      match alignedOffsetMalloc h (size * num) alignment offset answer with
      | (h, none) => (h, none)
      | (h, some newMemblock) =>
        let pNewMem := h.header (structFromPtr newMemblock)
        (alignedFree (h.zeroMemory newMemblock pNewMem.size) memblock, some newMemblock)

/-- `_aligned_recalloc`. -/
def alignedRecalloc (h : Heap) (memblock : Option Size) (num size alignment : Size)
    (answer : Option Size) : Heap × Option Size :=
  alignedOffsetRecalloc h memblock num size alignment 0 answer

/-- The bytes of the old block, and zeros after them. -/
def grownBytes (h : Heap) (old : Option Block) (i : ℕ) : Byte :=
  match old with
  | none => 0
  | some b => if i < b.size.toNat then h.memory (b.ptr.toNat + i) else 0

/-- The regions without that of the old block. -/
def regionsWithout (live : List Region) : Option Block → List Region
  | none => live
  | some b => live.filter (·.base ≠ b.region.base)

/-- **A block of exactly `num * size` bytes**, as numbers without a bound, in the region that
`malloc` has returned. -/
structure IsBlock (h : Heap) (r : Region) (q num size : Size) : Prop where
  header : r.base.toNat + 24 ≤ q.toNat
  block : q.toNat + num.toNat * size.toNat ≤ r.base.toNat + r.length.toNat
  msize : ∀ alignment offset,
    (alignedMsize h (some q) alignment offset).toNat = num.toNat * size.toNat

/-- **What is expected of `_aligned_offset_recalloc`**: `NULL`, with the old block as before and
nothing allocated, or a grown block filled with zeros, the old one having been released. -/
def Recallocates (h : Heap) (old : Option Block) (num size alignment : Size)
    (answer : Option Size) (result : Heap × Option Size) : Prop :=
  match result with
  | (h', none) =>
    h'.live = h.live ∧ h'.freed = h.freed ∧
      ∀ b ∈ old, b.Stands h' ∧ Copied h.memory h'.memory b.ptr.toNat b.ptr.toNat b.size.toNat
  | (h', some q) =>
    ∃ base, answer = some base ∧
      IsBlock h' ⟨base, mallocSize (size * num) alignment⟩ q num size ∧
      (∀ i < num.toNat * size.toNat, h'.memory (q.toNat + i) = grownBytes h old i) ∧
      h'.freed = (old.map (·.region.base)).toList ++ h.freed ∧
      h'.live = ⟨base, mallocSize (size * num) alignment⟩ :: regionsWithout h.live old

/-- **When it is met**: no block is allocated; or the old block has been zero as far as the new
one goes, and the product, the alignment and the header do not overflow. -/
def Harmless (h : Heap) (old : Option Block) (num size alignment offset : Size)
    (answer : Option Size) : Prop :=
  Refused (size * num) alignment offset ∨ answer = none ∨
    ∃ b, old = some b ∧ num.toNat * size.toNat + (raise alignment).toNat + 24 < 2 ^ 64 ∧
      ∀ i < min b.size.toNat (num.toNat * size.toNat), h.memory (b.ptr.toNat + i) = 0

section Recalloc

variable {s : State} {h h' : Heap} {b : Block} {old : Option Block}
  {num size alignment offset base q n : Size} {answer : Option Size}

theorem zeroMemory_inside {k : ℕ} (hk : k < n.toNat) :
    (h.zeroMemory q n).memory (q.toNat + k) = 0 := by
  simp only [Heap.zeroMemory, overwrite_inside hk]

/-- Nothing is allocated. -/
theorem recalloc_of_none (hold : ∀ b ∈ old, b.Stands h) (hsize : size ≠ 0)
    (hnone : alignedOffsetMalloc h (size * num) alignment offset answer = (h, none)) :
    alignedOffsetRecalloc h (old.map Block.ptr) num size alignment offset answer = (h, none) := by
  cases old with
  | none => simp only [Option.map_none, alignedOffsetRecalloc, hnone]
  | some b =>
    have hsig := congrArg AlignedMem.sig (hold b rfl).header
    rw [Option.map_some, alignedOffsetRecalloc, if_neg fun hne => hne hsig, if_neg hsize, hnone]

/-- The product of the code is the product, where that fits into 64 bits. -/
theorem toNat_product (h : num.toNat * size.toNat < 2 ^ 64) :
    (size * num).toNat = num.toNat * size.toNat := by
  rw [BitVec.toNat_mul, Nat.mul_comm]
  exact Nat.mod_eq_of_lt h

/-- Where the region is as long as it should be, nothing wraps. -/
theorem sum_of_isBlock (hle : (raise alignment).toNat ≤ 2 ^ 63)
    (hb : IsBlock h ⟨base, mallocSize (size * num) alignment⟩ q num size) :
    num.toNat * size.toNat + (raise alignment).toNat + 24 < 2 ^ 64 := by
  have hheader : base.toNat + 24 ≤ q.toNat := hb.header
  have hblock : q.toNat + num.toNat * size.toNat ≤
    base.toNat + (mallocSize (size * num) alignment).toNat := hb.block
  have hlength := (mallocSize (size * num) alignment).isLt
  have hproduct : (size * num).toNat = num.toNat * size.toNat := toNat_product (by omega)
  have h24 : sizeofAlignedMem.toNat = 24 := rfl
  rw [mallocSize, BitVec.toNat_add, BitVec.toNat_add, h24, hproduct] at hblock
  omega

/-- A block is allocated beside the old one. -/
theorem recalloc_of_some (hb : b.Stands h) (hsize : size ≠ 0)
    (hsome : alignedOffsetMalloc h (size * num) alignment offset answer = (h', some q)) :
    alignedOffsetRecalloc h (some b.ptr) num size alignment offset answer =
      (alignedFree (h'.zeroMemory q (h'.header (structFromPtr q)).size) (some b.ptr), some q) := by
  have hsig := congrArg AlignedMem.sig hb.header
  rw [alignedOffsetRecalloc, if_neg fun hne => hne hsig, if_neg hsize, hsome]

/-- Where `NULL` is given, `NULL` is returned, and the block that has been allocated is lost. -/
theorem not_recallocates_of_null
    (hsome : alignedOffsetMalloc h (size * num) alignment offset answer = (h', some q))
    (hlive : h'.live = ⟨base, n⟩ :: h.live) :
    ¬ Recallocates h none num size alignment answer
      (alignedOffsetRecalloc h none num size alignment offset answer) := by
  rw [alignedOffsetRecalloc, hsome]
  rintro ⟨hkept, -, -⟩
  change h'.live = h.live at hkept
  rw [hlive] at hkept
  exact List.cons_ne_self _ _ hkept

/-- **A block beside the old one, where nothing wraps**: it is filled with zeros, and the region of
the old one is released. -/
theorem recalloc_spec (hb : b.Stands h) (hlive : b.region ∈ h.live) (hsize : size ≠ 0)
    (hr : ¬ Refused (size * num) alignment offset) (hfits : Fits (size * num) alignment)
    (hanswer : MayAnswer h (mallocSize (size * num) alignment) (some base)) :
    ∃ h' q, alignedOffsetRecalloc h (some b.ptr) num size alignment offset (some base) =
        (h'.free b.region.base, some q) ∧
      Gains h h' ⟨q, size * num, ⟨base, mallocSize (size * num) alignment⟩⟩ ∧
      ∀ i < (size * num).toNat, h'.memory (q.toNat + i) = 0 := by
  obtain hnone | ⟨h', base', q, hbase, hsome, hg⟩ :=
    malloc_spec offset hfits hanswer
  · exact absurd hnone (alignedOffsetMalloc_ne_none hr)
  obtain rfl := Option.some.inj hbase
  have hapart := (hanswer base rfl).2 _ hlive
  have hg' : Gains h (h'.zeroMemory q (size * num))
      ⟨q, size * num, ⟨base, mallocSize (size * num) alignment⟩⟩ :=
    hg.overwrite (Nat.le_refl _) _
  have hnew : (h'.header (structFromPtr q)).size = size * num :=
    congrArg AlignedMem.size hg.stands.header
  refine ⟨h'.zeroMemory q (size * num), q, ?_, hg', fun i hi => zeroMemory_inside hi⟩
  rw [recalloc_of_some hb hsize hsome, hnew,
    alignedFree_of_stands (hb.congr hg'.outside hapart)]

/-- **What becomes of the old block then**: the grown block is as it should be exactly when the
bytes it should have kept are zero. -/
theorem recallocates_some_iff (hb : b.Stands h) (hlive : b.region ∈ h.live) (hsize : size ≠ 0)
    (hr : ¬ Refused (size * num) alignment offset)
    (hsum : num.toNat * size.toNat + (raise alignment).toNat + 24 < 2 ^ 64)
    (hanswer : MayAnswer h (mallocSize (size * num) alignment) (some base)) :
    Recallocates h (some b) num size alignment (some base)
        (alignedOffsetRecalloc h (some b.ptr) num size alignment offset (some base)) ↔
      ∀ i < min b.size.toNat (num.toNat * size.toNat), h.memory (b.ptr.toNat + i) = 0 := by
  have hproduct : (size * num).toNat = num.toNat * size.toNat := toNat_product (by omega)
  have hfits : Fits (size * num) alignment := by rwa [Fits, hproduct]
  obtain ⟨h', q, hresult, hg, hzero⟩ := recalloc_spec hb hlive hsize hr hfits hanswer
  rw [hproduct] at hzero
  rw [hresult]
  constructor
  · rintro ⟨base', -, -, hbytes, -, -⟩ i hi
    have hlt : i < b.size.toNat := Nat.lt_of_lt_of_le hi (Nat.min_le_left _ _)
    have hlt' : i < num.toNat * size.toNat := Nat.lt_of_lt_of_le hi (Nat.min_le_right _ _)
    have hkept : h'.memory (q.toNat + i) = grownBytes h (some b) i := hbytes i hlt'
    rw [hzero i hlt', grownBytes, if_pos hlt] at hkept
    exact hkept.symm
  · intro hzeros
    obtain ⟨hq, hreleased, hlive'⟩ := hg.free hb ((hanswer base rfl).2 _ hlive)
    refine ⟨base, rfl, ⟨hg.stands.inside.header, ?_, fun _ _ => ?_⟩, fun i hi => ?_, hreleased,
      hlive'⟩
    · rw [← hproduct]
      exact hg.stands.inside.block
    · rw [alignedMsize_of_stands hq, hproduct]
    · have hgrown : grownBytes h (some b) i = 0 := by
        rw [grownBytes]
        split
        · rename_i hlt
          exact hzeros i (Nat.lt_min.mpr ⟨hlt, hi⟩)
        · rfl
      rw [hgrown]
      exact hzero i hi

end Recalloc

/-- **`_aligned_offset_recalloc` does what is expected of it exactly where that is harmless**: in
every state of every disciplined run, for `NULL` and for every block. -/
theorem recallocates_iff {s : State} (memory : Memory) (old : Option Block)
    (num size alignment offset : Size) (answer : Option Size)
    (hreach : ReachesIf step Disciplined (start memory) s) (hold : ∀ b ∈ old, b ∈ s.blocks)
    (hsize : size ≠ 0) (hpow : alignment.toNat.isPowerOfTwo)
    (hanswer : MayAnswer s.heap (mallocSize (size * num) alignment) answer) :
    Recallocates s.heap old num size alignment answer
        (alignedOffsetRecalloc s.heap (old.map Block.ptr) num size alignment offset answer) ↔
      Harmless s.heap old num size alignment offset answer := by
  have hi : Inv s := hreach.invariant (inv_start memory) inv_step
  have hstands : ∀ b ∈ old, b.Stands s.heap := fun b hb => hi.stands b (hold b hb)
  -- Nothing is allocated, or `malloc` has returned a region.
  by_cases hnone : alignedOffsetMalloc s.heap (size * num) alignment offset answer =
      (s.heap, none)
  · rw [recalloc_of_none hstands hsize hnone]
    refine ⟨fun _ => ?_, fun _ => ⟨rfl, rfl, fun b hb => ⟨hstands b hb, fun _ _ => rfl⟩⟩⟩
    by_cases hr : Refused (size * num) alignment offset
    · exact .inl hr
    cases answer with
    | none => exact .inr (.inl rfl)
    | some base => exact absurd hnone (alignedOffsetMalloc_ne_none hr)
  have hr : ¬ Refused (size * num) alignment offset := fun hr =>
    hnone (alignedOffsetMalloc_of_refused hr)
  obtain ⟨base, rfl⟩ : ∃ base, answer = some base := by
    refine Option.ne_none_iff_exists'.mp fun hanswer => ?_
    rw [hanswer, alignedOffsetMalloc_none] at hnone
    exact hnone rfl
  have hharmless : Harmless s.heap old num size alignment offset (some base) ↔
      ∃ b, old = some b ∧ num.toNat * size.toNat + (raise alignment).toNat + 24 < 2 ^ 64 ∧
        ∀ i < min b.size.toNat (num.toNat * size.toNat), s.heap.memory (b.ptr.toNat + i) = 0 := by
    refine ⟨fun hh => ?_, fun hh => .inr (.inr hh)⟩
    rcases hh with hr' | hbase | hh
    · exact absurd hr' hr
    · cases hbase
    · exact hh
  rw [hharmless]
  cases old with
  | none =>
    refine ⟨fun hrec => ?_, fun ⟨b, hb, _⟩ => by cases hb⟩
    exact absurd hrec (not_recallocates_of_null (alignedOffsetMalloc_some hr) rfl)
  | some b =>
    by_cases hsum : num.toNat * size.toNat + (raise alignment).toNat + 24 < 2 ^ 64
    · rw [Option.map_some, recallocates_some_iff (hstands b rfl) (hi.region_mem (hold b rfl)) hsize
        hr hsum hanswer]
      refine ⟨fun hzeros => ⟨b, rfl, hsum, hzeros⟩, ?_⟩
      rintro ⟨b', hb', -, hzeros⟩
      obtain rfl := Option.some.inj hb'
      exact hzeros
    · refine ⟨fun hrec => ?_, fun ⟨_, _, hsum', _⟩ => absurd hsum' hsum⟩
      rw [Option.map_some, recalloc_of_some (hstands b rfl) hsize
        (alignedOffsetMalloc_some hr)] at hrec
      obtain ⟨base', hbase', hblock, -⟩ := hrec
      obtain rfl := Option.some.inj hbase'
      exact absurd (sum_of_isBlock (raise_le_of_isPowerOfTwo hpow) hblock) hsum

/-- 100 bytes that have never been written, over a memory of zeros, may grow to 200. -/
theorem recallocates_untouched :
    Recallocates oneBlock.heap (some ⟨65568, 100, ⟨65536, 140⟩⟩) 50 4 16 (some 131072)
      (alignedOffsetRecalloc oneBlock.heap (some 65568) 50 4 16 0 (some 131072)) := by
  have hmem : (⟨65568, 100, ⟨65536, 140⟩⟩ : Block) ∈ oneBlock.blocks := by decide
  refine (recallocates_iff (fun _ => 0) (some ⟨65568, 100, ⟨65536, 140⟩⟩) 50 4 16 0 (some 131072)
    reaches_oneBlock ?_ (by decide) ⟨4, rfl⟩ mayAnswer_oneBlock).mpr
      (.inr (.inr ⟨_, rfl, by decide, ?_⟩))
  · rintro b ⟨⟩
    exact hmem
  · intro i hi
    have hlt : i < 100 := Nat.lt_of_lt_of_le hi (Nat.min_le_left _ _)
    -- The header ends where the block begins.
    have houtside : oneBlock.heap.memory (65568 + i) = 0 := setHeader_outside (.inr (by
      change 65568 ≤ 65568 + i
      omega))
    exact houtside

/-- Where `NULL` is given, the block of 100 bytes that has been allocated is lost. -/
theorem not_recallocates_null :
    ¬ Recallocates (start fun _ => 0).heap none 25 4 16 (some 65536)
      (alignedOffsetRecalloc (start fun _ => 0).heap none 25 4 16 0 (some 65536)) := by
  rintro ⟨hlive, -, -⟩
  have hlength := congrArg List.length hlive
  exact absurd hlength (by decide)

end Aligned

end Libuzi
