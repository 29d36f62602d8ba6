import Libuzi.Bytes
import Libuzi.Rounding

/-!
# Aligned allocation

`_aligned_offset_malloc` of `libuzi/alignment.c`, on LP64. It asks `malloc` for the size, the
alignment and the size of a header together, rounds an address in the region it gets down to
a multiple of the alignment, and puts the header in front of it:

| bytes before the block | field of the `WINPR_ALIGNED_MEM` |
|---|---|
| 24 to 20 | `sig` |
| 16 to 8 | `size` |
| 8 to 0 | `base_addr` |

Two things have to be arranged for this, and neither is arranged for all that is let through.

* **The rounding has to be a rounding.** It is done with a mask, which is right for powers of
  two. The test rejects odd alignments only. So an alignment is honoured for every region that
  `malloc` may return if it is a power of two, and else, unless it is odd, for some of them
  only (`Aligned.honours_iff`).
* **The region has to be long enough.** It is, wherever in it the rounding leads, if the sum
  that `malloc` is asked for is the sum. It is computed in 64 bits, and when it is not less
  than `2 ^ 64` the region is shorter than the block alone (`Aligned.inside_iff`).

A pointer is its address; `NULL` is `none`. What `malloc` answers is an argument.
-/

namespace Libuzi

open Bytes Rounding

namespace Aligned

/-! ### The heap -/

/-- A `size_t`, and the address that a pointer is. -/
abbrev Size := BitVec 64

/-- A region that `malloc` has handed out. -/
structure Region where
  base : Size
  length : Size
  deriving DecidableEq

/-- The memory of the process and what `malloc` knows of it. -/
structure Heap where
  /-- Every byte. -/
  memory : Memory
  /-- The regions handed out and not freed since. -/
  live : List Region
  /-- What `free` has been called with, the latest first. -/
  freed : List Size

/-- `malloc`, whose answer is given. -/
def Heap.malloc (h : Heap) (length : Size) (answer : Option Size) : Heap × Option Size :=
  match answer with
  | none => (h, none)
  | some base => ({ h with live := ⟨base, length⟩ :: h.live }, some base)

/-- `free`. -/
def Heap.free (h : Heap) (base : Size) : Heap :=
  { h with live := h.live.filter (·.base ≠ base), freed := base :: h.freed }

/-! ### The header -/

/-- `WINPR_ALIGNED_MEM`. -/
structure AlignedMem where
  sig : ℕ
  size : Size
  baseAddr : Size
  deriving DecidableEq

/-- `sizeof(WINPR_ALIGNED_MEM)`. -/
def sizeofAlignedMem : Size := 24

/-- `sizeof(void*)`. -/
def sizeofPtr : Size := 8

/-- `WINPR_ALIGNED_MEM_SIGNATURE`. -/
def signature : ℕ := 0x0BA0BAB

/-- `WINPR_ALIGNED_MEM_STRUCT_FROM_PTR`. -/
def structFromPtr (memptr : Size) : Size := memptr - sizeofAlignedMem

/-- The fields in memory. -/
def Heap.header (h : Heap) (pMem : Size) : AlignedMem where
  sig := load h.memory pMem.toNat 4
  size := BitVec.ofNat 64 (load h.memory (pMem.toNat + 8) 8)
  baseAddr := BitVec.ofNat 64 (load h.memory (pMem.toNat + 16) 8)

/-- Assign the fields, in the order of the source. -/
def Heap.setHeader (h : Heap) (pMem : Size) (v : AlignedMem) : Heap :=
  let memory := store h.memory pMem.toNat 4 v.sig
  let memory := store memory (pMem.toNat + 16) 8 v.baseAddr.toNat
  let memory := store memory (pMem.toNat + 8) 8 v.size.toNat
  { h with memory := memory }

/-! ### The function -/

/-- The minimum alignment is pointer size. -/
def raise (alignment : Size) : Size := if alignment < sizeofPtr then sizeofPtr else alignment

/-- What `malloc` is asked for. -/
def mallocSize (size alignment : Size) : Size := size + raise alignment + sizeofAlignedMem

/-- The address that is returned. -/
def memblockOf (base alignment offset : Size) : Size :=
  ((base + raise alignment + offset + sizeofAlignedMem) &&& ~~~(raise alignment - 1)) - offset

/-- **`_aligned_offset_malloc`**. -/
def alignedOffsetMalloc (h : Heap) (size alignment offset : Size) (answer : Option Size) :
    Heap × Option Size :=
  -- alignment must be a power of 2
  if alignment % 2 = 1 then (h, none)
  -- offset must be less than size
  else if size ≤ offset then (h, none)
  else
    match h.malloc (mallocSize size alignment) answer with
    | (h, none) => (h, none)
    | (h, some base) =>
      let memblock := memblockOf base alignment offset
      (h.setHeader (structFromPtr memblock) ⟨signature, size, base⟩, some memblock)

/-- `_aligned_malloc`. -/
def alignedMalloc (h : Heap) (size alignment : Size) (answer : Option Size) :
    Heap × Option Size :=
  alignedOffsetMalloc h size alignment 0 answer

/-- The calls that are refused before `malloc` is called. -/
def Refused (size alignment offset : Size) : Prop := alignment % 2 = 1 ∨ size ≤ offset

instance (size alignment offset : Size) : Decidable (Refused size alignment offset) :=
  inferInstanceAs (Decidable (_ ∨ _))

/-- **What a region from `malloc` is**: bytes up to the end of the address space at most, from an
address other than `NULL` on that suits every type. -/
structure Grants (length base : Size) : Prop where
  ne_null : 0 < base.toNat
  suits : 16 ∣ base.toNat
  fits : base.toNat + length.toNat ≤ 2 ^ 64

section Malloc

variable {h : Heap} {size alignment offset base : Size} {answer : Option Size}

theorem refused_iff :
    Refused size alignment offset ↔ alignment.toNat % 2 = 1 ∨ size.toNat ≤ offset.toNat := by
  have hodd : alignment % 2 = 1 ↔ alignment.toNat % 2 = 1 := by
    rw [← BitVec.toNat_inj, BitVec.toNat_umod]
    rfl
  rw [Refused, hodd, BitVec.le_def]

theorem alignedOffsetMalloc_of_refused (hr : Refused size alignment offset) :
    alignedOffsetMalloc h size alignment offset answer = (h, none) := by
  rw [alignedOffsetMalloc]
  rcases hr with hodd | hle
  · rw [if_pos hodd]
  · rw [if_pos hle, ite_self]

@[simp]
theorem alignedOffsetMalloc_none :
    alignedOffsetMalloc h size alignment offset none = (h, none) := by
  simp only [alignedOffsetMalloc, Heap.malloc, ite_self]

/-- **A call that succeeds**: the region, the header, the pointer. -/
theorem alignedOffsetMalloc_some (hr : ¬ Refused size alignment offset) :
    alignedOffsetMalloc h size alignment offset (some base) =
      (Heap.setHeader { h with live := ⟨base, mallocSize size alignment⟩ :: h.live }
        (structFromPtr (memblockOf base alignment offset)) ⟨signature, size, base⟩,
       some (memblockOf base alignment offset)) := by
  rw [alignedOffsetMalloc, if_neg fun hodd => hr (.inl hodd), if_neg fun hle => hr (.inr hle)]
  rfl

theorem alignedOffsetMalloc_ne_none {h' : Heap} (hr : ¬ Refused size alignment offset) :
    alignedOffsetMalloc h size alignment offset (some base) ≠ (h', none) := by
  intro hnone
  have hsnd := congrArg Prod.snd hnone
  rw [alignedOffsetMalloc_some hr] at hsnd
  cases hsnd

/-- A pointer is returned by no other call. -/
theorem alignedOffsetMalloc_eq_some {p : Size}
    (hp : (alignedOffsetMalloc h size alignment offset answer).2 = some p) :
    ¬ Refused size alignment offset ∧
      ∃ base, answer = some base ∧ p = memblockOf base alignment offset := by
  by_cases hr : Refused size alignment offset
  · rw [alignedOffsetMalloc_of_refused hr] at hp
    cases hp
  · cases answer with
    | none =>
      rw [alignedOffsetMalloc_none] at hp
      cases hp
    | some base =>
      rw [alignedOffsetMalloc_some hr] at hp
      exact ⟨hr, base, rfl, (Option.some.inj hp).symm⟩

end Malloc

/-! ### Where the block is -/

section Address

variable {size alignment offset base : Size}

theorem toNat_raise (alignment : Size) : (raise alignment).toNat = max 8 alignment.toNat := by
  have h8 : sizeofPtr.toNat = 8 := rfl
  rw [raise]
  split
  · rename_i hlt
    rw [BitVec.lt_def, h8] at hlt
    omega
  · rename_i hge
    rw [BitVec.lt_def, h8] at hge
    omega

theorem eight_le_raise (alignment : Size) : 8 ≤ (raise alignment).toNat :=
  toNat_raise alignment ▸ Nat.le_max_left 8 _

/-- What `malloc` is asked for, where the sum does not wrap. -/
theorem toNat_mallocSize (hsum : size.toNat + (raise alignment).toNat + 24 < 2 ^ 64) :
    (mallocSize size alignment).toNat = size.toNat + (raise alignment).toNat + 24 := by
  have h24 : sizeofAlignedMem.toNat = 24 := rfl
  rw [mallocSize, BitVec.toNat_add, BitVec.toNat_add, h24]
  omega

/-- The pointer and the offset make up the masked address, in 64 bits. -/
theorem memblockOf_add (base alignment offset : Size) :
    memblockOf base alignment offset + offset =
      (base + raise alignment + offset + sizeofAlignedMem) &&& ~~~(raise alignment - 1) :=
  BitVec.sub_add_cancel _ _

theorem toNat_raise_sub_one (alignment : Size) :
    (raise alignment - 1).toNat = (raise alignment).toNat - 1 := by
  have h8 := eight_le_raise alignment
  rw [BitVec.toNat_sub_of_le (BitVec.le_def.mpr (Nat.le_trans (by decide) h8))]
  rfl

/-- **Where nothing wraps, the pointer and the offset make up the rounded address.** -/
theorem toNat_memblockOf_add (base alignment offset : Size)
    (hfits : base.toNat + (raise alignment).toNat + offset.toNat + 24 < 2 ^ 64) :
    (memblockOf base alignment offset).toNat + offset.toNat =
      clear (base.toNat + (raise alignment).toNat + offset.toNat + 24)
        ((raise alignment).toNat - 1) := by
  have h8 := eight_le_raise alignment
  have hsum : (base + raise alignment + offset + sizeofAlignedMem).toNat =
      base.toNat + (raise alignment).toNat + offset.toNat + 24 := by
    have h24 : sizeofAlignedMem.toNat = 24 := rfl
    rw [BitVec.toNat_add, BitVec.toNat_add, BitVec.toNat_add, h24]
    omega
  have hmask : ((base + raise alignment + offset + sizeofAlignedMem) &&&
      ~~~(raise alignment - 1)).toNat = clear (base.toNat + (raise alignment).toNat +
        offset.toNat + 24) ((raise alignment).toNat - 1) := by
    rw [toNat_and_not, hsum, toNat_raise_sub_one]
  have hle := le_clear_add (base.toNat + (raise alignment).toNat + offset.toNat + 24)
    ((raise alignment).toNat - 1)
  rw [← hmask] at hle ⊢
  rw [memblockOf, BitVec.toNat_sub_of_le (BitVec.le_def.mpr (by omega))]
  omega

/-- **The header and the slack suffice for the rounding.** -/
theorem memblockOf_bounds (base alignment offset : Size)
    (hfits : base.toNat + (raise alignment).toNat + offset.toNat + 24 < 2 ^ 64) :
    base.toNat + 24 < (memblockOf base alignment offset).toNat ∧
      (memblockOf base alignment offset).toNat ≤ base.toNat + (raise alignment).toNat + 24 := by
  have h8 := eight_le_raise alignment
  have hadd := toNat_memblockOf_add base alignment offset hfits
  have hle := le_clear_add (base.toNat + (raise alignment).toNat + offset.toNat + 24)
    ((raise alignment).toNat - 1)
  have hge := clear_le (base.toNat + (raise alignment).toNat + offset.toNat + 24)
    ((raise alignment).toNat - 1)
  omega

end Address

/-! ### Alignments that are honoured -/

section Honoured

variable {size alignment offset base : Size}

/-- The size, the alignment, the offset and the size of a header do not overflow. -/
def NoOverflow (size alignment offset : Size) : Prop :=
  size.toNat + alignment.toNat + offset.toNat + 24 < 2 ^ 64

/-- **An alignment is honoured**: whatever is asked for with it and whatever region `malloc`
returns, the pointer, if there is one, is aligned at the offset. -/
def Honours (alignment : Size) : Prop :=
  ∀ (h : Heap) (size offset base p : Size), NoOverflow size alignment offset →
    Grants (mallocSize size alignment) base →
    (alignedOffsetMalloc h size alignment offset (some base)).2 = some p →
    0 < alignment.toNat → alignment.toNat ∣ p.toNat + offset.toNat

/-- A power of two stays one when it is raised, and a divisor of what it is raised to. -/
theorem raise_of_isPowerOfTwo (hpow : alignment.toNat.isPowerOfTwo) :
    (raise alignment).toNat.isPowerOfTwo ∧ alignment.toNat ∣ (raise alignment).toNat := by
  obtain ⟨k, hk⟩ := hpow
  rw [raise]
  split
  · rename_i hlt
    have hlt : 2 ^ k < 2 ^ 3 := hk ▸ hlt
    have hk3 : k < 3 := (Nat.pow_lt_pow_iff_right (by decide)).mp hlt
    refine ⟨⟨3, rfl⟩, ?_⟩
    rw [hk]
    exact Nat.pow_dvd_pow 2 (Nat.le_of_lt hk3)
  · exact ⟨⟨k, hk⟩, Nat.dvd_refl _⟩

/-- **A power of two is honoured**, even where a sum wraps. -/
theorem dvd_of_isPowerOfTwo (hpow : alignment.toNat.isPowerOfTwo) (base offset : Size) :
    alignment.toNat ∣ (memblockOf base alignment offset).toNat + offset.toNat := by
  obtain ⟨hraised, hdvd⟩ := raise_of_isPowerOfTwo hpow
  have hround : alignment.toNat ∣ (memblockOf base alignment offset + offset).toNat := by
    rw [memblockOf_add, toNat_and_not, toNat_raise_sub_one]
    exact Nat.dvd_trans hdvd (dvd_clear hraised _)
  have hword : alignment.toNat ∣ 2 ^ 64 := by
    obtain ⟨k, hk⟩ := hpow
    have hlt : 2 ^ k < 2 ^ 64 := hk ▸ alignment.isLt
    rw [hk]
    exact Nat.pow_dvd_pow 2 (Nat.le_of_lt ((Nat.pow_lt_pow_iff_right (by decide)).mp hlt))
  rw [BitVec.toNat_add] at hround
  exact (Nat.dvd_mod_iff hword).mp hround

/-- **Any other alignment is not honoured for every region**: of two regions that are as far
apart as a power of two, one does not suit. -/
theorem not_dvd_of_room (base offset : Size) {t : ℕ} (hpow : ¬ alignment.toNat.isPowerOfTwo)
    (ht : (raise alignment).toNat ≤ 2 ^ t)
    (hroom : base.toNat + 2 ^ t + (raise alignment).toNat + offset.toNat + 24 < 2 ^ 64) :
    ¬ alignment.toNat ∣ (memblockOf base alignment offset).toNat + offset.toNat ∨
      ¬ alignment.toNat ∣
        (memblockOf (base + BitVec.ofNat 64 (2 ^ t)) alignment offset).toNat + offset.toNat := by
  have h8 := eight_le_raise alignment
  have hnext : (base + BitVec.ofNat 64 (2 ^ t)).toNat = base.toNat + 2 ^ t := by
    rw [BitVec.toNat_add, BitVec.toNat_ofNat, Nat.mod_eq_of_lt (a := 2 ^ t) (by omega)]
    exact Nat.mod_eq_of_lt (by omega)
  rw [toNat_memblockOf_add base _ _ (by omega),
    toNat_memblockOf_add _ _ _ (by rw [hnext]; omega), hnext,
    show base.toNat + 2 ^ t + (raise alignment).toNat + offset.toNat + 24 =
      base.toNat + (raise alignment).toNat + offset.toNat + 24 + 2 ^ t by omega]
  exact not_dvd_clear hpow (by omega) _

/-- What an alignment that is honoured does for one byte. -/
theorem Honours.dvd (hh : Honours alignment) (base : Size) (heven : alignment.toNat % 2 = 0)
    (hpos : 0 < alignment.toNat) (hsum : (raise alignment).toNat + 25 < 2 ^ 64)
    (hbase : 0 < base.toNat) (hsuits : 16 ∣ base.toNat)
    (hfits : base.toNat + (raise alignment).toNat + 25 ≤ 2 ^ 64) :
    alignment.toNat ∣ (memblockOf base alignment 0).toNat := by
  have h1 : (1 : Size).toNat = 1 := rfl
  have h0 : (0 : Size).toNat = 0 := rfl
  have hno : NoOverflow 1 alignment 0 := by
    have hraise := toNat_raise alignment
    rw [NoOverflow, h1, h0]
    omega
  have hgrant : Grants (mallocSize 1 alignment) base := by
    refine ⟨hbase, hsuits, ?_⟩
    rw [toNat_mallocSize (by rw [h1]; omega), h1]
    omega
  have hr : ¬ Refused 1 alignment 0 := by
    rw [refused_iff, h1, h0]
    omega
  have hreturns : (alignedOffsetMalloc ⟨fun _ => 0, [], []⟩ 1 alignment 0 (some base)).2 =
      some (memblockOf base alignment 0) := by
    rw [alignedOffsetMalloc_some hr]
  exact hh ⟨fun _ => 0, [], []⟩ 1 0 base _ hno hgrant hreturns hpos

/-- An alignment that is not a power of two is not honoured for one byte, in the first region
there is or in the fifth one. -/
theorem not_honours (heven : alignment.toNat % 2 = 0) (hpow : ¬ alignment.toNat.isPowerOfTwo)
    (hpos : 0 < alignment.toNat) (hroom : alignment.toNat + 41 ≤ 2 ^ 64) :
    ¬ Honours alignment := by
  intro hh
  by_cases hsmall : alignment.toNat ≤ 40
  · have hraise := toNat_raise alignment
    have h16 : (16 : Size).toNat = 16 := rfl
    have h80 : (16 + BitVec.ofNat 64 (2 ^ 6) : Size).toNat = 80 := rfl
    have h0 : (0 : Size).toNat = 0 := rfl
    have hfirst := hh.dvd 16 heven hpos (by omega) (by decide) (by decide)
      (by rw [h16]; omega)
    have hfifth := hh.dvd (16 + BitVec.ofNat 64 (2 ^ 6)) heven hpos (by omega) (by decide)
      (by decide) (by rw [h80]; omega)
    obtain hbad | hbad := not_dvd_of_room 16 0 (t := 6) hpow (by omega)
      (by rw [h16, h0]; omega)
    · exact hbad hfirst
    · exact hbad hfifth
  · -- The rounded address is less than twice the alignment, and it is not the alignment.
    have hraise : (raise alignment).toNat = alignment.toNat := by
      rw [toNat_raise]
      omega
    have h16 : (16 : Size).toNat = 16 := rfl
    have h0 : (0 : Size).toNat = 0 := rfl
    have hfirst := hh.dvd 16 heven hpos (by rw [hraise]; omega) (by decide) (by decide)
      (by rw [hraise, h16]; omega)
    have hround := toNat_memblockOf_add 16 alignment 0
      (by rw [hraise, h16, h0]; omega)
    rw [hraise, h16, h0, Nat.add_zero] at hround
    rw [hround] at hfirst
    exact not_dvd_clear_of_lt hpow (by omega) (by omega) hfirst

/-- **An alignment is honoured exactly when it is a power of two**, or odd and so refused, or
zero, which is no alignment, or so large that no region has room for it. -/
theorem honours_iff (alignment : Size) :
    Honours alignment ↔ alignment.toNat = 0 ∨ alignment.toNat % 2 = 1 ∨
      alignment.toNat.isPowerOfTwo ∨ 2 ^ 64 < alignment.toNat + 41 := by
  constructor
  · intro hh
    by_contra hnone
    simp only [not_or] at hnone
    obtain ⟨hpos, heven, hpow, hroom⟩ := hnone
    exact not_honours (by omega) hpow (by omega) (by omega) hh
  · intro hcases h size offset base p hno hgrant hp hpos
    obtain ⟨hr, base', hbase, rfl⟩ := alignedOffsetMalloc_eq_some hp
    rcases hcases with hzero | hodd | hpow | hlarge
    · exact absurd hzero (Nat.pos_iff_ne_zero.mp hpos)
    · exact absurd (refused_iff.mpr (.inl hodd)) hr
    · exact dvd_of_isPowerOfTwo hpow base' offset
    · -- The region would have to begin below the first address there is.
      rw [refused_iff] at hr
      rw [NoOverflow] at hno
      have hraise : (raise alignment).toNat = alignment.toNat := by
        rw [toNat_raise]
        omega
      have hfits := hgrant.fits
      have hbase16 : 16 ≤ base.toNat := Nat.le_of_dvd hgrant.ne_null hgrant.suits
      rw [toNat_mallocSize (by omega)] at hfits
      omega

/-- With a region at address 65536, 100 bytes at an alignment of 12 are not aligned. -/
theorem not_honours_twelve : ¬ Honours 12 := by
  intro hh
  have hdvd := hh ⟨fun _ => 0, [], []⟩ 100 0 65536 65572 (by unfold NoOverflow; decide)
    ⟨by decide, by decide, by decide⟩ rfl (by decide)
  exact absurd hdvd (by decide)

end Honoured

/-! ### The header and the block in the region -/

/-- **The header and the block lie inside a region.** -/
structure Inside (r : Region) (p size : Size) : Prop where
  header : r.base.toNat + 24 ≤ p.toNat
  block : p.toNat + size.toNat ≤ r.base.toNat + r.length.toNat

/-- Where the sum does not wrap, the rounding stays in the region. -/
theorem inside_of_sum {size alignment offset base : Size} (hr : ¬ Refused size alignment offset)
    (hsum : size.toNat + (raise alignment).toNat + 24 < 2 ^ 64)
    (hgrant : Grants (mallocSize size alignment) base) :
    Inside ⟨base, mallocSize size alignment⟩ (memblockOf base alignment offset) size := by
  rw [refused_iff] at hr
  have hfits := hgrant.fits
  rw [toNat_mallocSize hsum] at hfits
  obtain ⟨hlo, hhi⟩ := memblockOf_bounds base alignment offset (by omega)
  refine ⟨Nat.le_of_lt hlo, ?_⟩
  change _ ≤ base.toNat + (mallocSize size alignment).toNat
  rw [toNat_mallocSize hsum]
  omega

/-- Where it wraps, the region is shorter than the block. -/
theorem not_inside_of_wrap {size alignment base p : Size}
    (hwrap : ¬ size.toNat + (raise alignment).toNat + 24 < 2 ^ 64)
    (hle : (raise alignment).toNat ≤ 2 ^ 63) :
    ¬ Inside ⟨base, mallocSize size alignment⟩ p size := by
  rintro ⟨hheader, hblock⟩
  change base.toNat + 24 ≤ p.toNat at hheader
  change p.toNat + size.toNat ≤ base.toNat + (mallocSize size alignment).toNat at hblock
  have h24 : sizeofAlignedMem.toNat = 24 := rfl
  have hsize := size.isLt
  rw [mallocSize, BitVec.toNat_add, BitVec.toNat_add, h24] at hblock
  omega

/-- A power of two has at most the highest bit. -/
theorem raise_le_of_isPowerOfTwo {alignment : Size} (hpow : alignment.toNat.isPowerOfTwo) :
    (raise alignment).toNat ≤ 2 ^ 63 := by
  obtain ⟨⟨k, hk⟩, -⟩ := raise_of_isPowerOfTwo hpow
  have hlt : 2 ^ k < 2 ^ 64 := hk ▸ (raise alignment).isLt
  have hk64 : k < 64 := (Nat.pow_lt_pow_iff_right (by decide)).mp hlt
  rw [hk]
  exact Nat.pow_le_pow_right Nat.two_pos (Nat.le_of_lt_succ hk64)

/-- **The header and the block lie inside what `malloc` has returned exactly when the sum it is
asked for is less than `2 ^ 64`**, if there is a block at all. -/
theorem inside_iff (h : Heap) (size alignment offset : Size) (answer : Option Size)
    (hpow : alignment.toNat.isPowerOfTwo)
    (hgrant : ∀ base ∈ answer, Grants (mallocSize size alignment) base) :
    (∀ p, (alignedOffsetMalloc h size alignment offset answer).2 = some p →
      ∃ r, (alignedOffsetMalloc h size alignment offset answer).1.live = r :: h.live ∧
        Inside r p size) ↔
      Refused size alignment offset ∨ answer = none ∨
        size.toNat + (raise alignment).toNat + 24 < 2 ^ 64 := by
  constructor
  · intro hinside
    by_contra hnone
    simp only [not_or] at hnone
    obtain ⟨hr, hne, hwrap⟩ := hnone
    obtain ⟨base, rfl⟩ := Option.ne_none_iff_exists'.mp hne
    rw [alignedOffsetMalloc_some hr] at hinside
    obtain ⟨r, hlive, hin⟩ := hinside _ rfl
    obtain rfl : (⟨base, mallocSize size alignment⟩ : Region) = r := (List.cons.inj hlive).1
    exact not_inside_of_wrap hwrap (raise_le_of_isPowerOfTwo hpow) hin
  · intro hcases p hp
    obtain ⟨hr, base, rfl, rfl⟩ := alignedOffsetMalloc_eq_some hp
    rcases hcases with hr' | hnone | hsum
    · exact absurd hr' hr
    · cases hnone
    · rw [alignedOffsetMalloc_some hr]
      exact ⟨_, rfl, inside_of_sum hr hsum (hgrant base rfl)⟩

/-- 100 bytes at an alignment of 16, with a region at address 65536. -/
theorem inside_hundred :
    ∃ r, (alignedOffsetMalloc ⟨fun _ => 0, [], []⟩ 100 16 0 (some 65536)).1.live = [r] ∧
      Inside r 65568 100 := by
  have hgrant : ∀ base ∈ some (65536 : Size), Grants (mallocSize 100 16) base := by
    rintro base ⟨⟩
    exact ⟨by decide, by decide, by decide⟩
  exact (inside_iff ⟨fun _ => 0, [], []⟩ 100 16 0 (some 65536) ⟨4, rfl⟩ hgrant).mpr
    (.inr (.inr (by decide))) 65568 rfl

/-- With `2 ^ 64 - 16` bytes at an alignment of 8, `malloc` is asked for 16 bytes. -/
theorem not_inside_huge :
    Grants (mallocSize (BitVec.ofNat 64 (2 ^ 64 - 16)) 8) 65536 ∧
      ∃ p, (alignedOffsetMalloc ⟨fun _ => 0, [], []⟩ (BitVec.ofNat 64 (2 ^ 64 - 16)) 8 0
          (some 65536)).2 = some p ∧
        (alignedOffsetMalloc ⟨fun _ => 0, [], []⟩ (BitVec.ofNat 64 (2 ^ 64 - 16)) 8 0
          (some 65536)).1.live = [⟨65536, 16⟩] ∧
        ¬ Inside ⟨65536, 16⟩ p (BitVec.ofNat 64 (2 ^ 64 - 16)) := by
  refine ⟨⟨by decide, by decide, by decide⟩, 65568, rfl, rfl, ?_⟩
  rintro ⟨-, hblock⟩
  exact absurd hblock (by decide)


end Aligned

end Libuzi
