import Libuzi.Buffer
import Libuzi.File.Path
import Libuzi.Memory.AlignedHeap

/-!
# Loading a file

`UziFile_Load` of `libuzi/file.c`, with `UziFile_Seek` and `UziFile_Tell`, on LP64. It returns the
content of a file with some zeros after it, and writes to `*size` how many bytes that are. Here it
is run with every answer that the system may give to its calls.

| `*size` | where |
|---|---|
| `0` | at the beginning |
| what `ftello` says, or `2 ^ 64 - 1` if it fails | before `malloc` |
| `0` | after a short read |
| `padding` more | at the end, after a short read as well |

So the pointer and `*size` do not agree when `malloc` fails for a file that is not empty, when
the read is short and there is padding, and when `ftello` fails; nor when the seek to the end fails,
since the file is then taken to be empty. They do agree in every other case (`Load.agrees_iff`).
-/

namespace Libuzi

open Bytes Aligned

namespace Load

/-! ### The function -/

/-- A file, whose length is an `off_t`. -/
structure File where
  content : List Byte
  length_lt : content.length < 2 ^ 63

/-- What the system answers in one call. -/
structure Answers where
  /-- `fopen` succeeds. -/
  opened : Bool
  /-- The seek to the end succeeds. -/
  seekEnd : Bool
  /-- `ftello` succeeds. -/
  tell : Bool
  /-- The seek to the beginning succeeds. -/
  seekSet : Bool
  /-- What `malloc` returns. -/
  malloc : Option Size
  /-- How many bytes `fread` delivers at most. -/
  delivered : ℕ

/-- `UziFile_Seek`: the position afterwards. -/
def uziFileSeek (succeeds : Bool) (position target : ℕ) : ℕ := if succeeds then target else position

/-- `UziFile_Tell`, which converts the `-1` of `ftello` to an unsigned number. -/
def uziFileTell (succeeds : Bool) (position : ℕ) : Size :=
  if succeeds then BitVec.ofNat 64 position else -1

/-- The bytes that `fread` delivers. -/
def fread (file : File) (position count delivered : ℕ) : List Byte :=
  ((file.content.drop position).take count).take delivered

/-- Bytes written to an address. -/
def writeBytes (h : Heap) (p : Size) (bytes : List Byte) : Heap :=
  { h with memory := overwrite h.memory p.toNat bytes.length fun k => bytes.getD k 0 }

/-- **`UziFile_Load`**: the heap, what is returned, and `*size`, if `size` is not `NULL`. -/
def uziFileLoad (file : File) (answers : Answers) (h : Heap) (filename : Option Path.Str)
    (size : Option Size) (padding : BitVec 32) : Heap × Option Size × Option Size :=
  match filename, size with
  | some _, some _ =>
    if answers.opened then
      let position := uziFileSeek answers.seekEnd 0 file.content.length
      let size := uziFileTell answers.tell position
      let position := uziFileSeek answers.seekSet position 0
      match h.malloc (size + padding.setWidth 64) answers.malloc with
      | (h, none) => (h, none, some size)
      | (h, some data) =>
        let h := writeBytes h (data + size) (List.replicate padding.toNat 0)
        let bytes := fread file position size.toNat answers.delivered
        let h := writeBytes h data bytes
        let (h, data, size) :=
          if bytes.length ≠ size.toNat then (h.free data, none, 0) else (h, some data, size)
        let size := if padding ≠ 0 then size + padding.setWidth 64 else size
        (h, data, some size)
    else (h, none, some 0)
  | _, _ => (h, none, size)

/-! ### What is expected -/

/-- **Pointer and size agree**: `NULL` and zero; or a buffer that has been allocated with so many
bytes, the content and zeros after it, no other byte having been written. -/
def Agrees (file : File) (h : Heap) (padding : BitVec 32)
    (result : Heap × Option Size × Option Size) : Prop :=
  match result with
  | (_, none, size) => ∀ n ∈ size, n = 0
  | (h', some data, size) =>
    ∃ n, size = some n ∧ n.toNat = file.content.length + padding.toNat ∧
      h'.live = ⟨data, n⟩ :: h.live ∧
      Buffer.Holds h'.memory data.toNat (file.content ++ List.replicate padding.toNat 0) ∧
      SameOutside ⟨data, n⟩ h.memory h'.memory

/-- **When they agree**, said of what the system answers. -/
def LoadsWell (file : File) (answers : Answers) (filename : Option Path.Str) (size : Option Size)
    (padding : BitVec 32) : Prop :=
  match filename, size with
  | _, none => True
  | none, some n => n = 0
  | some _, some _ =>
    answers.opened = false ∨ answers.tell = true ∧
      match answers.malloc with
      | none => file.content = [] ∨ answers.seekEnd = false
      | some _ =>
        file.content = [] ∨ answers.seekEnd = true ∧
          (padding = 0 ∨ answers.seekSet = true ∧ file.content.length ≤ answers.delivered)

/-- What `*size` is before `malloc`. -/
def told (file : File) (answers : Answers) : Size :=
  uziFileTell answers.tell (uziFileSeek answers.seekEnd 0 file.content.length)

/-- The bytes that are read. -/
def bytesRead (file : File) (answers : Answers) : List Byte :=
  fread file (uziFileSeek answers.seekSet (uziFileSeek answers.seekEnd 0 file.content.length) 0)
    (told file answers).toNat answers.delivered

section Load

variable {file : File} {answers : Answers} {h : Heap} {filename : Path.Str} {n data : Size}
  {padding : BitVec 32}

/-! ### What is told and read -/

theorem toNat_told (file : File) (htell : answers.tell = true) :
    (told file answers).toNat = if answers.seekEnd then file.content.length else 0 := by
  have hlt := file.length_lt
  rw [told, uziFileTell, if_pos htell, uziFileSeek, BitVec.toNat_ofNat]
  split <;> exact Nat.mod_eq_of_lt (by omega)

theorem told_of_not_tell (htell : answers.tell = false) : told file answers = -1 := by
  rw [told, uziFileTell, htell]
  rfl

theorem bytesRead_sublist (file : File) (answers : Answers) :
    (bytesRead file answers).Sublist file.content :=
  ((List.take_sublist _ _).trans (List.take_sublist _ _)).trans (List.drop_sublist _ _)

theorem length_bytesRead_le (file : File) (answers : Answers) :
    (bytesRead file answers).length ≤ (told file answers).toNat := by
  rw [bytesRead, fread, List.length_take, List.length_take]
  omega

/-- What is read is the content, if it is as long. -/
theorem bytesRead_eq (hlength : (bytesRead file answers).length = file.content.length) :
    bytesRead file answers = file.content :=
  (bytesRead_sublist file answers).eq_of_length hlength

/-- The whole of the file is read, if the stream is at its beginning and enough is delivered. -/
theorem length_bytesRead (htell : answers.tell = true) (hseek : answers.seekEnd = true) :
    (bytesRead file answers).length = (told file answers).toNat ↔
      file.content = [] ∨ answers.seekSet = true ∧ file.content.length ≤ answers.delivered := by
  rw [bytesRead, fread, toNat_told file htell, if_pos hseek, List.length_take, List.length_take,
    List.length_drop, ← List.length_eq_zero_iff, uziFileSeek, uziFileSeek, if_pos hseek]
  cases answers.seekSet with
  | true =>
    simp only [if_true, true_and]
    omega
  | false =>
    simp only [Bool.false_eq_true, if_false, false_and, or_false]
    omega

/-! ### The ways to the end -/

/-- `malloc` fails. -/
theorem uziFileLoad_of_malloc_fails (hopen : answers.opened = true)
    (hmalloc : answers.malloc = none) :
    uziFileLoad file answers h (some filename) (some n) padding =
      (h, none, some (told file answers)) := by
  rw [uziFileLoad, if_pos hopen]
  simp only [hmalloc, Heap.malloc]
  rfl

/-- The heap after both writes. -/
def filled (file : File) (answers : Answers) (h : Heap) (padding : BitVec 32) (data : Size) :
    Heap :=
  writeBytes
    (writeBytes { h with live := ⟨data, told file answers + padding.setWidth 64⟩ :: h.live }
      (data + told file answers) (List.replicate padding.toNat 0))
    data (bytesRead file answers)

/-- The read is short. -/
theorem uziFileLoad_of_short (h : Heap) (filename : Path.Str) (n : Size) (padding : BitVec 32)
    (hopen : answers.opened = true) (hmalloc : answers.malloc = some data)
    (hshort : (bytesRead file answers).length ≠ (told file answers).toNat) :
    ∃ h', uziFileLoad file answers h (some filename) (some n) padding =
      (h', none, some (if padding ≠ 0 then padding.setWidth 64 else 0)) := by
  refine ⟨(filled file answers h padding data).free data, ?_⟩
  rw [uziFileLoad, if_pos hopen]
  simp only [hmalloc, Heap.malloc]
  rw [bytesRead, told] at hshort
  have hsum : (0 : Size) + padding.setWidth 64 = padding.setWidth 64 := BitVec.zero_add _
  simp only [if_pos hshort]
  rw [hsum]
  rfl

/-- The read is not short. -/
theorem uziFileLoad_of_read (hopen : answers.opened = true) (hmalloc : answers.malloc = some data)
    (hread : (bytesRead file answers).length = (told file answers).toNat) :
    uziFileLoad file answers h (some filename) (some n) padding =
      (filled file answers h padding data, some data,
        some (told file answers + padding.setWidth 64)) := by
  rw [uziFileLoad, if_pos hopen]
  simp only [hmalloc, Heap.malloc]
  have hnot : ¬ (bytesRead file answers).length ≠ (told file answers).toNat := not_not.mpr hread
  rw [bytesRead, told] at hnot
  simp only [if_neg hnot]
  have hsize : (if padding ≠ 0 then told file answers + padding.setWidth 64
      else told file answers) = told file answers + padding.setWidth 64 := by
    split
    · rfl
    · rename_i hzero
      rw [not_not.mp hzero]
      exact (BitVec.add_zero _).symm
  rw [← hsize]
  rfl

theorem toNat_setWidth_padding (padding : BitVec 32) :
    (padding.setWidth 64 : Size).toNat = padding.toNat := by
  have hlt := padding.isLt
  rw [BitVec.toNat_setWidth]
  exact Nat.mod_eq_of_lt (by omega)

/-- The bytes that are written are there. -/
theorem writeBytes_inside {p : Size} {bytes : List Byte} {k : ℕ} (hk : k < bytes.length) :
    (writeBytes h p bytes).memory (p.toNat + k) = bytes[k] := by
  simp only [writeBytes]
  rw [overwrite_inside hk, List.getD_eq_getElem?_getD, List.getElem?_eq_getElem hk,
    Option.getD_some]

theorem writeBytes_outside {p : Size} {bytes : List Byte} {x : ℕ}
    (hx : x < p.toNat ∨ p.toNat + bytes.length ≤ x) :
    (writeBytes h p bytes).memory x = h.memory x := by
  simp only [writeBytes]
  rw [overwrite_outside hx]

/-- **The buffer after both writes**, where they fit into it. -/
theorem filled_spec (h : Heap) (hread : (bytesRead file answers).length = (told file answers).toNat)
    (hfits : data.toNat + ((told file answers).toNat + padding.toNat) ≤ 2 ^ 64) :
    Buffer.Holds (filled file answers h padding data).memory data.toNat
        (bytesRead file answers ++ List.replicate padding.toNat 0) ∧
      ∀ x, x < data.toNat ∨ data.toNat + (told file answers).toNat + padding.toNat ≤ x →
        (filled file answers h padding data).memory x = h.memory x := by
  -- The zeros are written where the content ends, if there are any.
  have hend : padding.toNat ≠ 0 →
      (data + told file answers).toNat = data.toNat + (told file answers).toNat := by
    intro hpos
    rw [BitVec.toNat_add]
    exact Nat.mod_eq_of_lt (by omega)
  refine ⟨Buffer.holds_append.mpr ⟨fun i hi => writeBytes_inside hi, fun i hi => ?_⟩, ?_⟩
  · rw [List.length_replicate] at hi
    rw [filled, writeBytes_outside (by rw [hread]; omega), hread, ← hend (by omega),
      writeBytes_inside (by rwa [List.length_replicate])]
  · intro x hx
    rw [filled, writeBytes_outside (by rw [hread]; omega)]
    by_cases hzero : padding.toNat = 0
    · refine writeBytes_outside ?_
      rw [List.length_replicate, hzero]
      omega
    · refine writeBytes_outside ?_
      rw [List.length_replicate, hend hzero]
      omega

/-! ### Whether pointer and size agree -/

theorem agrees_null_iff {h' : Heap} {size : Size} :
    Agrees file h padding (h', none, some size) ↔ size = 0 :=
  ⟨fun hall => hall size rfl, fun hzero _ hn => Option.some.inj hn ▸ hzero⟩

/-- After a short read, they agree where there is no padding. -/
theorem padding_iff : (if padding ≠ 0 then padding.setWidth 64 else (0 : Size)) = 0 ↔
    padding = 0 := by
  split
  · rename_i hne
    refine ⟨fun hzero => absurd ?_ hne, fun hzero => absurd hzero hne⟩
    have hnat := congrArg BitVec.toNat hzero
    rw [toNat_setWidth_padding] at hnat
    exact BitVec.eq_of_toNat_eq hnat
  · rename_i heq
    exact ⟨fun _ => not_not.mp heq, fun _ => rfl⟩

/-- After a full one, they agree where the file is as long as it has been told. -/
theorem agrees_filled_iff (htell : answers.tell = true)
    (hread : (bytesRead file answers).length = (told file answers).toNat)
    (hgrant : Grants (told file answers + padding.setWidth 64) data) :
    Agrees file h padding (filled file answers h padding data, some data,
        some (told file answers + padding.setWidth 64)) ↔
      (told file answers).toNat = file.content.length := by
  have hsum : (told file answers + padding.setWidth 64).toNat =
      (told file answers).toNat + padding.toNat := by
    have hlt := file.length_lt
    have hpad := padding.isLt
    have htold := toNat_told file htell
    rw [BitVec.toNat_add, toNat_setWidth_padding]
    refine Nat.mod_eq_of_lt ?_
    rw [htold]
    split <;> omega
  have hfits := hgrant.fits
  rw [hsum] at hfits
  constructor
  · rintro ⟨n, hn, hlength, -⟩
    obtain rfl := Option.some.inj hn
    omega
  · intro hlength
    obtain ⟨hholds, houtside⟩ := filled_spec h hread hfits
    rw [bytesRead_eq (hread.trans hlength)] at hholds
    refine ⟨_, rfl, by omega, rfl, hholds, fun x hx => houtside x ?_⟩
    change x < data.toNat ∨ data.toNat + (told file answers + padding.setWidth 64).toNat ≤ x at hx
    omega

/-- **Where `ftello` fails, they do not agree**: the read cannot but be short. -/
theorem not_agrees_of_not_tell (hopen : answers.opened = true) (htell : answers.tell = false)
    (hgrant : ∀ data ∈ answers.malloc, Grants (told file answers + padding.setWidth 64) data) :
    ¬ Agrees file h padding (uziFileLoad file answers h (some filename) (some n) padding) := by
  have htold : (told file answers).toNat = 2 ^ 64 - 1 := by
    rw [told_of_not_tell htell]
    rfl
  cases hmalloc : answers.malloc with
  | none =>
    rw [uziFileLoad_of_malloc_fails hopen hmalloc, agrees_null_iff]
    intro hzero
    rw [hzero] at htold
    exact absurd htold (by decide)
  | some data =>
    have hshort : (bytesRead file answers).length ≠ (told file answers).toNat := by
      have hle := (bytesRead_sublist file answers).length_le
      have hlt := file.length_lt
      omega
    obtain ⟨h', hresult⟩ := uziFileLoad_of_short h filename n padding hopen hmalloc hshort
    rw [hresult, agrees_null_iff, padding_iff]
    rintro rfl
    -- Without padding, the region would be as long as the address space.
    have hg := hgrant data hmalloc
    have hzero : (told file answers + (0 : BitVec 32).setWidth 64).toNat = 2 ^ 64 - 1 := by
      rw [BitVec.toNat_add, htold]
      rfl
    have hfits := hg.fits
    have h16 : 16 ≤ data.toNat := Nat.le_of_dvd hg.ne_null hg.suits
    rw [hzero] at hfits
    omega

/-- Where it succeeds, they agree as is said. -/
theorem agrees_iff_of_tell (hopen : answers.opened = true) (htell : answers.tell = true)
    (hgrant : ∀ data ∈ answers.malloc, Grants (told file answers + padding.setWidth 64) data) :
    Agrees file h padding (uziFileLoad file answers h (some filename) (some n) padding) ↔
      match answers.malloc with
      | none => file.content = [] ∨ answers.seekEnd = false
      | some _ =>
        file.content = [] ∨ answers.seekEnd = true ∧
          (padding = 0 ∨ answers.seekSet = true ∧ file.content.length ≤ answers.delivered) := by
  have htold := toNat_told file htell
  have hempty : file.content = [] ↔ file.content.length = 0 := List.length_eq_zero_iff.symm
  cases hmalloc : answers.malloc with
  | none =>
    rw [uziFileLoad_of_malloc_fails hopen hmalloc, agrees_null_iff, ← BitVec.toNat_inj, htold]
    change _ = 0 ↔ file.content = [] ∨ answers.seekEnd = false
    cases answers.seekEnd with
    | true => simp only [if_true, hempty, Bool.true_eq_false, or_false]
    | false => simp only [Bool.false_eq_true, if_false, or_true]
  | some data =>
    by_cases hread : (bytesRead file answers).length = (told file answers).toNat
    · rw [uziFileLoad_of_read hopen hmalloc hread,
        agrees_filled_iff htell hread (hgrant data hmalloc), htold]
      cases hseek : answers.seekEnd with
      | true =>
        have hwhole := (length_bytesRead htell hseek).mp hread
        rw [if_pos rfl]
        exact ⟨fun _ => hwhole.imp id fun hall => ⟨rfl, .inr hall⟩, fun _ => rfl⟩
      | false =>
        simp only [Bool.false_eq_true, if_false, false_and, or_false, hempty]
        exact eq_comm
    · obtain ⟨h', hresult⟩ := uziFileLoad_of_short h filename n padding hopen hmalloc hread
      rw [hresult, agrees_null_iff, padding_iff]
      cases hseek : answers.seekEnd with
      | true =>
        have hpart := mt (length_bytesRead htell hseek).mpr hread
        rw [not_or] at hpart
        refine ⟨fun hzero => .inr ⟨rfl, .inl hzero⟩, fun hwell => ?_⟩
        rcases hwell with hnil | ⟨-, hzero | hall⟩
        · exact absurd hnil hpart.1
        · exact hzero
        · exact absurd hall hpart.2
      | false =>
        rw [hseek, if_neg Bool.false_ne_true] at htold
        have hle := length_bytesRead_le file answers
        omega

end Load

/-- **Pointer and size agree exactly where the system answers so**, for every file, every padding
and all answers. -/
theorem agrees_iff (file : File) (answers : Answers) (h : Heap) (filename : Option Path.Str)
    (size : Option Size) (padding : BitVec 32)
    (hgrant : ∀ data ∈ answers.malloc, Grants (told file answers + padding.setWidth 64) data) :
    Agrees file h padding (uziFileLoad file answers h filename size padding) ↔
      LoadsWell file answers filename size padding := by
  cases size with
  | none =>
    refine ⟨fun _ => by cases filename <;> trivial, fun _ => ?_⟩
    cases filename <;> exact fun n hn => (by cases hn)
  | some n =>
    cases filename with
    | none => exact agrees_null_iff
    | some filename =>
      cases hopen : answers.opened with
      | false =>
        have hclosed : uziFileLoad file answers h (some filename) (some n) padding =
            (h, none, some 0) := by
          rw [uziFileLoad, hopen, if_neg Bool.false_ne_true]
        rw [hclosed, agrees_null_iff]
        exact ⟨fun _ => .inl hopen, fun _ => rfl⟩
      | true =>
        have hwell : LoadsWell file answers (some filename) (some n) padding ↔
            answers.tell = true ∧
              match answers.malloc with
              | none => file.content = [] ∨ answers.seekEnd = false
              | some _ =>
                file.content = [] ∨ answers.seekEnd = true ∧
                  (padding = 0 ∨ answers.seekSet = true ∧
                    file.content.length ≤ answers.delivered) := by
          simp only [LoadsWell, hopen, Bool.true_eq_false, false_or]
        rw [hwell]
        cases htell : answers.tell with
        | false =>
          refine ⟨fun hagrees => ?_, fun ⟨hno, _⟩ => absurd hno Bool.false_ne_true⟩
          exact absurd hagrees (not_agrees_of_not_tell hopen htell hgrant)
        | true =>
          rw [agrees_iff_of_tell hopen htell hgrant]
          exact ⟨fun hcases => ⟨rfl, hcases⟩, fun hcases => hcases.2⟩

/-- Two bytes, read as a whole, with one zero after them. -/
theorem agrees_two :
    Agrees ⟨[0x61, 0x62], by decide⟩ ⟨fun _ => 1, [], []⟩ 1
      (uziFileLoad ⟨[0x61, 0x62], by decide⟩ ⟨true, true, true, true, some 4096, 2⟩
        ⟨fun _ => 1, [], []⟩ (some [0x66]) (some 7) 1) := by
  refine (agrees_iff ⟨[0x61, 0x62], by decide⟩ ⟨true, true, true, true, some 4096, 2⟩ _ _ _ _
    ?_).mpr (.inr ⟨rfl, .inr ⟨rfl, .inr ⟨rfl, by decide⟩⟩⟩)
  rintro data ⟨⟩
  exact ⟨by decide, by decide, by decide⟩

/-- Of two bytes one is read: `NULL` is returned, and a size of one, which is the padding. -/
theorem not_agrees_short :
    ¬ Agrees ⟨[0x61, 0x62], by decide⟩ ⟨fun _ => 1, [], []⟩ 1
      (uziFileLoad ⟨[0x61, 0x62], by decide⟩ ⟨true, true, true, true, some 4096, 1⟩
        ⟨fun _ => 1, [], []⟩ (some [0x66]) (some 7) 1) := by
  intro hagrees
  exact absurd (hagrees 1 rfl) (by decide)

end Load

end Libuzi
