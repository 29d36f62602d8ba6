import Libuzi.Memory.AlignedMalloc
import Libuzi.Runs
import Mathlib.Data.List.Pairwise

/-!
# Aligned blocks over a run

`_aligned_offset_realloc`, `_aligned_msize` and `_aligned_free` of `libuzi/alignment.c` find what
they have to know of a block 24 bytes in front of it. So what they do depends on nobody having
written there since, neither the caller, who has all the bytes of all the blocks, nor the
functions themselves.

What keeps the headers as they are is where the blocks lie. Every block has a region of its own
(`Aligned.Block`), with the header and the block inside it, and no two regions have a byte in
common (`Aligned.Inv`). A new block lies in a region that `malloc` has just returned; a copy and
a write by the caller stay in one region; and a block that is released takes its region
with it. This holds along every run, and what is promised of the functions follows from it in
every state of the run (`Aligned.promises_of_reaches`).
-/

namespace Libuzi

open Bytes Rounding Runs

namespace Aligned

/-! ### The functions -/

/-- `CopyMemory`. -/
def Heap.copyMemory (h : Heap) (dst src length : Size) : Heap :=
  { h with
    memory := overwrite h.memory dst.toNat length.toNat fun k => h.memory (src.toNat + k) }

/-- `_aligned_free`. -/
def alignedFree (h : Heap) (memblock : Option Size) : Heap :=
  match memblock with
  | none => h
  | some p =>
    let pMem := h.header (structFromPtr p)
    if pMem.sig ≠ signature then h else h.free pMem.baseAddr

/-- `_aligned_msize`, which does not look at the alignment and the offset. -/
def alignedMsize (h : Heap) (memblock : Option Size) (_alignment _offset : Size) : Size :=
  match memblock with
  | none => 0
  | some p =>
    let pMem := h.header (structFromPtr p)
    if pMem.sig ≠ signature then 0 else pMem.size

/-- **`_aligned_offset_realloc`**. -/
def alignedOffsetRealloc (h : Heap) (memblock : Option Size) (size alignment offset : Size)
    (answer : Option Size) : Heap × Option Size :=
  match memblock with
  | none => alignedOffsetMalloc h size alignment offset answer
  | some p =>
    if (h.header (structFromPtr p)).sig ≠ signature then (h, none)
    else if size = 0 then (alignedFree h memblock, none)
    else
      match alignedOffsetMalloc h size alignment offset answer with
      | (h, none) => (h, none)
      | (h, some newMemblock) =>
        let pMem := h.header (structFromPtr p)
        let pNewMem := h.header (structFromPtr newMemblock)
        let copySize := if pNewMem.size < pMem.size then pNewMem.size else pMem.size
        (alignedFree (h.copyMemory newMemblock p copySize) memblock, some newMemblock)

/-- `_aligned_realloc`. -/
def alignedRealloc (h : Heap) (memblock : Option Size) (size alignment : Size)
    (answer : Option Size) : Heap × Option Size :=
  alignedOffsetRealloc h memblock size alignment 0 answer

/-- A byte written by the caller. -/
def Heap.write (h : Heap) (memblock : Size) (i : ℕ) (byte : Byte) : Heap :=
  { h with memory := overwrite h.memory (memblock.toNat + i) 1 fun _ => byte }

/-! ### Blocks -/

/-- A block that has been handed out, with the size last requested for it and the region from
`malloc` that it lies in. -/
structure Block where
  ptr : Size
  size : Size
  region : Region
  deriving DecidableEq

/-- **Two regions have no byte in common.** -/
def Region.Apart (r r' : Region) : Prop :=
  r.base.toNat + r.length.toNat ≤ r'.base.toNat ∨ r'.base.toNat + r'.length.toNat ≤ r.base.toNat

/-- Two memories agree outside a region. -/
def SameOutside (r : Region) (m m' : Memory) : Prop :=
  ∀ x, x < r.base.toNat ∨ r.base.toNat + r.length.toNat ≤ x → m' x = m x

/-- **A block stands**: it lies in its region, behind its header. -/
structure Block.Stands (h : Heap) (b : Block) : Prop where
  header : h.header (structFromPtr b.ptr) = ⟨signature, b.size, b.region.base⟩
  inside : Inside b.region b.ptr b.size

/-- **`malloc` may answer so**: it fails, or it returns a region apart from the live ones. -/
def MayAnswer (h : Heap) (length : Size) (answer : Option Size) : Prop :=
  ∀ base ∈ answer, Grants length base ∧ ∀ r ∈ h.live, Region.Apart ⟨base, length⟩ r

/-- **A heap has one more block**, and otherwise no byte of it has changed. -/
structure Gains (h h' : Heap) (b : Block) : Prop where
  stands : b.Stands h'
  outside : SameOutside b.region h.memory h'.memory
  live : h'.live = b.region :: h.live
  freed : h'.freed = h.freed

section Blocks

variable {h h' : Heap} {b b' : Block} {r r' : Region} {p q size alignment offset base n : Size}
  {m m' : Memory} {v : AlignedMem}

theorem Region.Apart.symm (hr : r.Apart r') : r'.Apart r := Or.symm hr

theorem toNat_structFromPtr (hp : 24 ≤ p.toNat) : (structFromPtr p).toNat = p.toNat - 24 :=
  BitVec.toNat_sub_of_le (BitVec.le_def.mpr hp)

/-- A header is the bytes in front of the block. -/
theorem header_congr
    (hsame : ∀ k < 24, h'.memory ((structFromPtr p).toNat + k) =
      h.memory ((structFromPtr p).toNat + k)) :
    h'.header (structFromPtr p) = h.header (structFromPtr p) := by
  have hload : ∀ a n, a + n ≤ 24 → load h'.memory ((structFromPtr p).toNat + a) n =
      load h.memory ((structFromPtr p).toNat + a) n := by
    intro a n hn
    refine load_congr fun k hk => ?_
    rw [Nat.add_assoc]
    exact hsame (a + k) (by omega)
  rw [Heap.header, Heap.header, hload 8 8 (by omega), hload 16 8 (by omega)]
  rw [← Nat.add_zero (structFromPtr p).toNat, hload 0 4 (by omega)]

/-- The header that has been written. -/
theorem header_setHeader (hsig : v.sig < 256 ^ 4) : (h.setHeader p v).header p = v := by
  have hsize : v.size.toNat % 256 ^ 8 = v.size.toNat := Nat.mod_eq_of_lt v.size.isLt
  have hbase : v.baseAddr.toNat % 256 ^ 8 = v.baseAddr.toNat := Nat.mod_eq_of_lt v.baseAddr.isLt
  simp only [Heap.header, Heap.setHeader]
  rw [load_store_of_disjoint (by omega), load_store_of_disjoint (by omega), load_store, load_store,
    load_store_of_disjoint (by omega), load_store, Nat.mod_eq_of_lt hsig, hsize, hbase,
    BitVec.ofNat_toNat, BitVec.ofNat_toNat, BitVec.setWidth_eq, BitVec.setWidth_eq]

/-- Writing it changes nothing else. -/
theorem setHeader_outside {x : ℕ} (hx : x < p.toNat ∨ p.toNat + 24 ≤ x) :
    (h.setHeader p v).memory x = h.memory x := by
  simp only [Heap.setHeader, store]
  rw [overwrite_outside (by omega), overwrite_outside (by omega), overwrite_outside (by omega)]

theorem copyMemory_inside {k : ℕ} (hk : k < n.toNat) :
    (h.copyMemory p q n).memory (p.toNat + k) = h.memory (q.toNat + k) := by
  simp only [Heap.copyMemory, overwrite_inside hk]

theorem signature_lt : signature < 256 ^ 4 := by decide

/-- **A block stands as long as no byte of its region changes.** -/
theorem Block.Stands.congr (hb : b.Stands h) (hout : SameOutside r h.memory h'.memory)
    (hapart : r.Apart b.region) : b.Stands h' := by
  have hin := hb.inside
  have hlo := hin.header
  have hhi := hin.block
  refine ⟨?_, hin⟩
  rw [← hb.header]
  refine header_congr fun k hk => hout _ ?_
  rw [toNat_structFromPtr (by omega)]
  rw [Region.Apart] at hapart
  omega

/-- The bytes of a block are in its region. -/
theorem Block.Stands.byte (hb : b.Stands h) (hout : SameOutside r h.memory h'.memory)
    (hapart : r.Apart b.region) {i : ℕ} (hi : i < b.size.toNat) :
    h'.memory (b.ptr.toNat + i) = h.memory (b.ptr.toNat + i) := by
  have hlo := hb.inside.header
  have hhi := hb.inside.block
  rw [Region.Apart] at hapart
  exact hout _ (by omega)

/-- Blocks in regions apart are different, and so are the regions. -/
theorem ne_of_apart (hb : Inside b.region b.ptr b.size) (hb' : Inside b'.region b'.ptr b'.size)
    (hapart : b.region.Apart b'.region) : b.ptr ≠ b'.ptr ∧ b.region.base ≠ b'.region.base := by
  have hlo := hb.header
  have hhi := hb.block
  have hlo' := hb'.header
  have hhi' := hb'.block
  rw [Region.Apart] at hapart
  constructor
  · intro heq
    rw [heq] at hlo hhi
    omega
  · intro heq
    rw [heq] at hlo hhi hapart
    omega

end Blocks

/-! ### What each function does -/

section Spec

variable {h h' : Heap} {b : Block} {size alignment offset base p n : Size} {answer : Option Size}

/-- What is asked of a request: the size, the alignment and the header do not overflow. -/
def Fits (size alignment : Size) : Prop := size.toNat + (raise alignment).toNat + 24 < 2 ^ 64

/-- **`_aligned_offset_malloc` hands out one more block, or changes nothing.** -/
theorem malloc_spec (offset : Size) (hfits : Fits size alignment)
    (hanswer : MayAnswer h (mallocSize size alignment) answer) :
    alignedOffsetMalloc h size alignment offset answer = (h, none) ∨
      ∃ h' base p, answer = some base ∧
        alignedOffsetMalloc h size alignment offset answer = (h', some p) ∧
        Gains h h' ⟨p, size, ⟨base, mallocSize size alignment⟩⟩ := by
  by_cases hr : Refused size alignment offset
  · exact .inl (alignedOffsetMalloc_of_refused hr)
  cases answer with
  | none => exact .inl alignedOffsetMalloc_none
  | some base =>
    obtain ⟨hgrant, -⟩ := hanswer base rfl
    have hin := inside_of_sum hr hfits hgrant
    have hlo : base.toNat + 24 ≤ (memblockOf base alignment offset).toNat := hin.header
    have hhi : (memblockOf base alignment offset).toNat + size.toNat ≤
      base.toNat + (mallocSize size alignment).toNat := hin.block
    refine .inr ⟨_, base, _, rfl, alignedOffsetMalloc_some hr, ?_⟩
    refine ⟨⟨header_setHeader signature_lt, hin⟩, fun x hx => setHeader_outside ?_, rfl, rfl⟩
    change x < base.toNat ∨ base.toNat + (mallocSize size alignment).toNat ≤ x at hx
    rw [toNat_structFromPtr (by omega)]
    omega

/-- Bytes written into the new block, over its first ones at most. -/
theorem Gains.overwrite {n : ℕ} (hg : Gains h h' b) (hn : n ≤ b.size.toNat) (contents : ℕ → Byte) :
    Gains h { h' with memory := Bytes.overwrite h'.memory b.ptr.toNat n contents } b := by
  have hlo := hg.stands.inside.header
  have hhi := hg.stands.inside.block
  refine ⟨⟨?_, hg.stands.inside⟩, fun x hx => ?_, hg.live, hg.freed⟩
  · rw [← hg.stands.header]
    refine header_congr fun k hk => overwrite_outside ?_
    rw [toNat_structFromPtr (by omega)]
    omega
  · rw [← hg.outside x hx]
    exact overwrite_outside (by omega)

theorem alignedFree_of_stands (hb : b.Stands h) :
    alignedFree h (some b.ptr) = h.free b.region.base := by
  simp only [alignedFree, hb.header]
  rw [if_neg fun hne => hne rfl]

theorem alignedMsize_of_stands (hb : b.Stands h) (alignment offset : Size) :
    alignedMsize h (some b.ptr) alignment offset = b.size := by
  simp only [alignedMsize, hb.header]
  rw [if_neg fun hne => hne rfl]

/-- **A block gained, and the region of another one released.** -/
theorem Gains.free (hg : Gains h h' b') (hb : b.Stands h) (hapart : b'.region.Apart b.region) :
    b'.Stands (h'.free b.region.base) ∧
      (h'.free b.region.base).freed = b.region.base :: h.freed ∧
      (h'.free b.region.base).live = b'.region :: h.live.filter (·.base ≠ b.region.base) := by
  have hne := (ne_of_apart hg.stands.inside hb.inside hapart).2
  refine ⟨⟨hg.stands.header, hg.stands.inside⟩, congrArg (List.cons _) hg.freed, ?_⟩
  change h'.live.filter _ = _
  rw [hg.live]
  exact List.filter_cons_of_pos (decide_eq_true hne)

/-- The bytes that have been copied. -/
def Copied (m m' : Memory) (src dst n : ℕ) : Prop := ∀ i < n, m' (dst + i) = m (src + i)

/-- **`_aligned_offset_realloc` of a block that stands**, for a size that is not zero: nothing has
changed, or there is one more block, with the bytes of the old one, and the region of the old one
is released. -/
theorem realloc_spec (offset : Size) (hb : b.Stands h) (hlive : b.region ∈ h.live)
    (hsize : size ≠ 0) (hfits : Fits size alignment)
    (hanswer : MayAnswer h (mallocSize size alignment) answer) :
    alignedOffsetRealloc h (some b.ptr) size alignment offset answer = (h, none) ∨
      ∃ h' base p, answer = some base ∧
        alignedOffsetRealloc h (some b.ptr) size alignment offset answer =
          (h'.free b.region.base, some p) ∧
        Gains h h' ⟨p, size, ⟨base, mallocSize size alignment⟩⟩ ∧
        Copied h.memory h'.memory b.ptr.toNat p.toNat (min b.size.toNat size.toNat) := by
  have hsig : (h.header (structFromPtr b.ptr)).sig = signature := congrArg AlignedMem.sig hb.header
  rw [alignedOffsetRealloc, if_neg fun hne => hne hsig, if_neg hsize]
  rcases malloc_spec offset hfits hanswer with hnone | ⟨h', base, p, rfl, hsome, hg⟩
  · rw [hnone]
    exact .inl rfl
  · have hapart : Region.Apart ⟨base, mallocSize size alignment⟩ b.region :=
      (hanswer base rfl).2 _ hlive
    have hb' : b.Stands h' := hb.congr hg.outside hapart
    have hnew : h'.header (structFromPtr p) = ⟨signature, size, base⟩ := hg.stands.header
    have hcopy : (if size < b.size then size else b.size).toNat =
        min b.size.toNat size.toNat := by
      split
      · rename_i hlt
        rw [BitVec.lt_def] at hlt
        omega
      · rename_i hge
        rw [BitVec.lt_def] at hge
        omega
    have hg' : Gains h (h'.copyMemory p b.ptr (if size < b.size then size else b.size))
        ⟨p, size, ⟨base, mallocSize size alignment⟩⟩ :=
      hg.overwrite (by rw [hcopy]; exact Nat.min_le_right _ _) _
    rw [hsome]
    simp only [hnew, hb'.header]
    rw [alignedFree_of_stands (hb.congr hg'.outside hapart)]
    refine .inr ⟨_, base, p, rfl, rfl, hg', fun i hi => ?_⟩
    have hlt : i < b.size.toNat := Nat.lt_of_lt_of_le hi (Nat.min_le_left _ _)
    rw [← hcopy] at hi
    exact (copyMemory_inside hi).trans (hb.byte hg.outside hapart hlt)

/-- For a size of zero, the region is released. -/
theorem realloc_zero (hb : b.Stands h) :
    alignedOffsetRealloc h (some b.ptr) 0 alignment offset answer =
      (h.free b.region.base, none) := by
  have hsig : (h.header (structFromPtr b.ptr)).sig = signature := congrArg AlignedMem.sig hb.header
  rw [alignedOffsetRealloc, if_neg fun hne => hne hsig, if_pos rfl, alignedFree_of_stands hb]

end Spec

/-! ### Runs -/

section Runs

/-- A heap, and the blocks that the caller has. -/
structure State where
  heap : Heap
  blocks : List Block

/-- What the caller does. A pointer is `NULL` or one of a block. -/
inductive Call
  | malloc (size alignment offset : Size) (answer : Option Size)
  | realloc (memblock : Option Size) (size alignment offset : Size) (answer : Option Size)
  | msize (memblock : Option Size) (alignment offset : Size)
  | free (memblock : Option Size)
  /-- Write the byte `i` of a block. -/
  | write (memblock : Size) (i : ℕ) (byte : Byte)

/-- The blocks without the one at a pointer. -/
def without (blocks : List Block) : Option Size → List Block
  | none => blocks
  | some p => blocks.filter (·.ptr ≠ p)

/-- The block that the caller takes a pointer for. -/
def newBlock (size alignment : Size) (answer : Option Size) (p : Size) : Block :=
  ⟨p, size, ⟨answer.getD 0, mallocSize size alignment⟩⟩

/-- **One call**. -/
def step (s : State) : Call → Option State
  | .malloc size alignment offset answer =>
    match alignedOffsetMalloc s.heap size alignment offset answer with
    | (h, none) => some ⟨h, s.blocks⟩
    | (h, some p) => some ⟨h, newBlock size alignment answer p :: s.blocks⟩
  | .realloc memblock size alignment offset answer =>
    match alignedOffsetRealloc s.heap memblock size alignment offset answer with
    | (h, none) => some ⟨h, if size = 0 then without s.blocks memblock else s.blocks⟩
    | (h, some p) => some ⟨h, newBlock size alignment answer p :: without s.blocks memblock⟩
  | .msize .. => some s
  | .free memblock => some ⟨alignedFree s.heap memblock, without s.blocks memblock⟩
  | .write memblock i byte => some ⟨s.heap.write memblock i byte, s.blocks⟩

/-- The pointer is `NULL` or one of a block. -/
def Known (s : State) (memblock : Option Size) : Prop :=
  ∀ p ∈ memblock, ∃ b ∈ s.blocks, b.ptr = p

/-- A request with a power of two for alignment and no overflow, and an answer of `malloc` that
may be. -/
structure Request (h : Heap) (size alignment : Size) (answer : Option Size) : Prop where
  pow : alignment.toNat.isPowerOfTwo
  fits : Fits size alignment
  answer : MayAnswer h (mallocSize size alignment) answer

/-- **What the caller keeps to**: pointers are those of blocks, requests are as they should be,
and it writes inside its blocks. -/
def Disciplined (s : State) : Call → Prop
  | .malloc size alignment _ answer => Request s.heap size alignment answer
  | .realloc memblock size alignment _ answer =>
    Known s memblock ∧ Request s.heap size alignment answer
  | .msize memblock .. => Known s memblock
  | .free memblock => Known s memblock
  | .write memblock i _ => ∃ b ∈ s.blocks, b.ptr = memblock ∧ i < b.size.toNat

/-- No block has been handed out. -/
def start (memory : Memory) : State := ⟨⟨memory, [], []⟩, []⟩

/-- **The invariant**: the live regions are those of the blocks, every block stands in its own,
and no two have a byte in common. -/
structure Inv (s : State) : Prop where
  live : s.heap.live = s.blocks.map Block.region
  stands : ∀ b ∈ s.blocks, b.Stands s.heap
  apart : s.blocks.Pairwise fun b b' => b.region.Apart b'.region

variable {s s' : State} {h : Heap} {b b' : Block} {bs : List Block}
  {size alignment offset : Size} {answer : Option Size}

theorem inv_start (memory : Memory) : Inv (start memory) := by
  refine ⟨rfl, ?_, List.Pairwise.nil⟩
  intro b hb
  exact absurd hb List.not_mem_nil

theorem Inv.region_mem (hi : Inv s) (hb : b ∈ s.blocks) : b.region ∈ s.heap.live := by
  rw [hi.live]
  exact List.mem_map_of_mem hb

/-- Two blocks are one, or their regions are apart. -/
theorem Inv.eq_or_apart (hi : Inv s) (hb : b ∈ s.blocks) (hb' : b' ∈ s.blocks) :
    b = b' ∨ b.region.Apart b'.region := by
  by_cases heq : b = b'
  · exact .inl heq
  · have : Std.Symm fun b b' : Block => b.region.Apart b'.region := ⟨fun _ _ => Region.Apart.symm⟩
    exact .inr (hi.apart.forall hb hb' heq)

/-- A pointer is that of one block, and so is the base of a region. -/
theorem Inv.base_ne_iff (hi : Inv s) (hb : b ∈ s.blocks) (hb' : b' ∈ s.blocks) :
    b'.region.base ≠ b.region.base ↔ b'.ptr ≠ b.ptr := by
  rcases hi.eq_or_apart hb' hb with rfl | hapart
  · exact ⟨fun hne => absurd rfl hne, fun hne => absurd rfl hne⟩
  · obtain ⟨hptr, hbase⟩ := ne_of_apart (hi.stands b' hb').inside (hi.stands b hb).inside hapart
    exact ⟨fun _ => hptr, fun _ => hbase⟩

/-- **One more block.** -/
theorem Inv.gain (hi : Inv s) (hg : Gains s.heap h b)
    (hapart : ∀ r ∈ s.heap.live, b.region.Apart r) : Inv ⟨h, b :: s.blocks⟩ := by
  refine ⟨?_, ?_, ?_⟩
  · change h.live = b.region :: s.blocks.map Block.region
    rw [hg.live, hi.live]
  · intro b' hb'
    rcases List.mem_cons.mp hb' with rfl | hmem
    · exact hg.stands
    · exact (hi.stands b' hmem).congr hg.outside (hapart _ (hi.region_mem hmem))
  · refine List.pairwise_cons.mpr ⟨fun b' hb' => ?_, hi.apart⟩
    exact hapart _ (hi.region_mem hb')

/-- **One block less.** -/
theorem Inv.free (hi : Inv s) (hb : b ∈ s.blocks) :
    Inv ⟨s.heap.free b.region.base, s.blocks.filter (·.ptr ≠ b.ptr)⟩ := by
  refine ⟨?_, ?_, hi.apart.filter _⟩
  · change s.heap.live.filter _ = (s.blocks.filter _).map Block.region
    rw [hi.live, List.filter_map]
    congr 1
    refine List.filter_congr fun b' hb' => ?_
    exact decide_eq_decide.mpr (hi.base_ne_iff hb hb')
  · intro b' hb'
    have hstands := hi.stands b' (List.mem_of_mem_filter hb')
    exact ⟨hstands.header, hstands.inside⟩

/-- A byte of a block. -/
theorem write_outside {i x : ℕ} {p : Size} {byte : Byte} (hx : x ≠ p.toNat + i) :
    (h.write p i byte).memory x = h.memory x := by
  simp only [Heap.write]
  exact overwrite_outside (by omega)

/-- **The caller's bytes are in no header.** -/
theorem Inv.write_header (hi : Inv s) (hb : b ∈ s.blocks) {i : ℕ} (hlt : i < b.size.toNat)
    (hb' : b' ∈ s.blocks) (byte : Byte) {x : ℕ} (hlo : b'.ptr.toNat - 24 ≤ x)
    (hhi : x < b'.ptr.toNat) : (s.heap.write b.ptr i byte).memory x = s.heap.memory x := by
  have hin := (hi.stands b hb).inside
  have hin' := (hi.stands b' hb').inside
  have h1 := hin.header
  have h2 := hin.block
  have h3 := hin'.header
  have h4 := hin'.block
  refine write_outside ?_
  rcases hi.eq_or_apart hb hb' with rfl | hapart
  · omega
  · rw [Region.Apart] at hapart
    omega

theorem Inv.write (hi : Inv s) (hb : b ∈ s.blocks) {i : ℕ} (hlt : i < b.size.toNat) (byte : Byte) :
    Inv ⟨s.heap.write b.ptr i byte, s.blocks⟩ := by
  refine ⟨hi.live, fun b' hb' => ?_, hi.apart⟩
  have hstands := hi.stands b' hb'
  have hlo := hstands.inside.header
  refine ⟨?_, hstands.inside⟩
  rw [← hstands.header]
  refine header_congr fun k hk => ?_
  rw [toNat_structFromPtr (by omega)]
  exact hi.write_header hb hlt hb' byte (by omega) (by omega)

/-- A block that is handed out. -/
theorem Inv.malloc (hi : Inv s) (hreq : Request s.heap size alignment answer)
    (hstep : step s (.malloc size alignment offset answer) = some s') : Inv s' := by
  rw [step] at hstep
  obtain hnone | ⟨h, base, p, rfl, hsome, hg⟩ :=
    malloc_spec offset hreq.fits hreq.answer
  · rw [hnone] at hstep
    obtain rfl := Option.some.inj hstep
    exact hi
  · rw [hsome] at hstep
    obtain rfl := Option.some.inj hstep
    exact hi.gain hg (hreq.answer base rfl).2

/-- A block that is handed out for another one. -/
theorem Inv.realloc (hi : Inv s) (hb : b ∈ s.blocks)
    (hreq : Request s.heap size alignment answer)
    (hstep : step s (.realloc (some b.ptr) size alignment offset answer) = some s') :
    Inv s' := by
  have hstands := hi.stands b hb
  rw [step] at hstep
  by_cases hsize : size = 0
  · rw [hsize, realloc_zero hstands] at hstep
    obtain rfl := Option.some.inj hstep
    exact hi.free hb
  obtain hnone | ⟨h, base, p, rfl, hsome, hg, -⟩ :=
    realloc_spec offset hstands (hi.region_mem hb) hsize hreq.fits hreq.answer
  · rw [hnone] at hstep
    simp only [if_neg hsize] at hstep
    obtain rfl := Option.some.inj hstep
    exact hi
  · rw [hsome] at hstep
    obtain rfl := Option.some.inj hstep
    have hapart := (hreq.answer base rfl).2
    have hne := (ne_of_apart hg.stands.inside hstands.inside (hapart _ (hi.region_mem hb))).1
    have hfilter : (newBlock size alignment (some base) p :: s.blocks).filter (·.ptr ≠ b.ptr) =
        newBlock size alignment (some base) p :: without s.blocks (some b.ptr) :=
      List.filter_cons_of_pos (decide_eq_true hne)
    rw [← hfilter]
    exact (hi.gain hg hapart).free (List.mem_cons_of_mem _ hb)

/-- **Every disciplined call keeps the invariant.** -/
theorem inv_step (s s' : State) (c : Call) (hi : Inv s) (hc : Disciplined s c)
    (hstep : step s c = some s') : Inv s' := by
  cases c with
  | malloc size alignment offset answer => exact hi.malloc hc hstep
  | realloc memblock size alignment offset answer =>
    obtain ⟨hknown, hreq⟩ := hc
    cases memblock with
    | none =>
      have hmalloc : step s (.malloc size alignment offset answer) = some s' := by
        rw [← hstep, step, step, alignedOffsetRealloc]
        simp only [without, ite_self]
      exact hi.malloc hreq hmalloc
    | some p =>
      obtain ⟨b, hb, rfl⟩ := hknown p rfl
      exact hi.realloc hb hreq hstep
  | msize memblock alignment offset =>
    obtain rfl := Option.some.inj hstep
    exact hi
  | free memblock =>
    obtain rfl := Option.some.inj hstep
    cases memblock with
    | none => exact hi
    | some p =>
      obtain ⟨b, hb, rfl⟩ := hc p rfl
      rw [alignedFree_of_stands (hi.stands b hb)]
      exact hi.free hb
  | write memblock i byte =>
    obtain rfl := Option.some.inj hstep
    obtain ⟨b, hb, rfl, hlt⟩ := hc
    exact hi.write hb hlt byte

/-- **What `_aligned_offset_realloc` promises for a size that is not zero**: `NULL`, and nothing
has changed, or a block of that size with the first bytes of the old one, whose region alone has
been released. -/
def Reallocates (h : Heap) (b : Block) (size alignment : Size) (answer : Option Size)
    (result : Heap × Option Size) : Prop :=
  match result with
  | (h', none) => h' = h
  | (h', some q) =>
    ∃ base, answer = some base ∧
      (∀ alignment offset, alignedMsize h' (some q) alignment offset = size) ∧
      Copied h.memory h'.memory b.ptr.toNat q.toNat (min b.size.toNat size.toNat) ∧
      h'.freed = b.region.base :: h.freed ∧
      h'.live = ⟨base, mallocSize size alignment⟩ ::
        h.live.filter (·.base ≠ b.region.base)

/-- **What is promised in a state.** -/
structure Promises (s : State) : Prop where
  msize : ∀ b ∈ s.blocks, ∀ alignment offset,
    alignedMsize s.heap (some b.ptr) alignment offset = b.size
  realloc : ∀ b ∈ s.blocks, ∀ size alignment offset answer, size ≠ 0 →
    Request s.heap size alignment answer →
      Reallocates s.heap b size alignment answer
        (alignedOffsetRealloc s.heap (some b.ptr) size alignment offset answer)
  realloc_zero : ∀ b ∈ s.blocks, ∀ alignment offset answer,
    alignedOffsetRealloc s.heap (some b.ptr) 0 alignment offset answer =
      (s.heap.free b.region.base, none)
  header : ∀ b ∈ s.blocks, ∀ i < b.size.toNat, ∀ byte, ∀ b' ∈ s.blocks,
    ∀ x, b'.ptr.toNat - 24 ≤ x → x < b'.ptr.toNat →
      (s.heap.write b.ptr i byte).memory x = s.heap.memory x

/-- **In every state of every disciplined run, the functions do what they promise.** -/
theorem promises_of_reaches (memory : Memory)
    (hreach : ReachesIf step Disciplined (start memory) s) : Promises s := by
  have hi : Inv s := hreach.invariant (inv_start memory) inv_step
  refine ⟨fun b hb => alignedMsize_of_stands (hi.stands b hb), ?_,
    fun b hb alignment offset answer => realloc_zero (hi.stands b hb),
    fun b hb i hlt byte b' hb' x => hi.write_header hb hlt hb' byte⟩
  intro b hb size alignment offset answer hsize hreq
  have hlive := hi.region_mem hb
  obtain hnone | ⟨h, base, q, rfl, hsome, hg, hcopied⟩ :=
    realloc_spec offset (hi.stands b hb) hlive hsize hreq.fits hreq.answer
  · rw [hnone]
    rfl
  · rw [hsome]
    obtain ⟨hq, hreleased, hlive'⟩ := hg.free (hi.stands b hb) ((hreq.answer base rfl).2 _ hlive)
    have hmsize := alignedMsize_of_stands hq
    exact ⟨base, rfl, hmsize, hcopied, hreleased, hlive'⟩

/-- 100 bytes at address 65568 have been handed out. -/
def oneBlock : State := final step (start fun _ => 0) [.malloc 100 16 0 (some 65536)]

/-- The block has been made 200 bytes long, and is now at address 131104. -/
def grownBlock : State := final step oneBlock [.realloc (some 65568) 200 16 0 (some 131072)]

theorem reaches_oneBlock : ReachesIf step Disciplined (start fun _ => 0) oneBlock := by
  refine .tail .refl ?_ (step_eq_final (by decide))
  refine ⟨⟨4, rfl⟩, by unfold Fits; decide, ?_⟩
  rintro base ⟨⟩
  refine ⟨⟨by decide, by decide, by decide⟩, fun r hr => ?_⟩
  exact absurd hr List.not_mem_nil

/-- There is room for 200 bytes beside it. -/
theorem mayAnswer_oneBlock : MayAnswer oneBlock.heap (mallocSize 200 16) (some 131072) := by
  rintro base ⟨⟩
  refine ⟨⟨by decide, by decide, by decide⟩, fun r hr => ?_⟩
  obtain rfl : r = ⟨65536, 140⟩ := List.mem_singleton.mp hr
  exact .inr (by decide)

theorem reaches_grownBlock : ReachesIf step Disciplined (start fun _ => 0) grownBlock := by
  refine .tail reaches_oneBlock ?_ (step_eq_final (by decide))
  refine ⟨?_, ⟨4, rfl⟩, by unfold Fits; decide, mayAnswer_oneBlock⟩
  rintro p ⟨⟩
  exact ⟨⟨65568, 100, ⟨65536, 140⟩⟩, by decide, rfl⟩

/-- The block is there, and the promises hold. -/
theorem promises_grownBlock :
    grownBlock.blocks = [⟨131104, 200, ⟨131072, 240⟩⟩] ∧ Promises grownBlock :=
  ⟨by decide, promises_of_reaches (fun _ => 0) reaches_grownBlock⟩

end Runs

end Aligned

end Libuzi
