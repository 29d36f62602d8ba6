import Libuzi.Effects
import Libuzi.Unicode.Accept

/-!
# Paths for wide functions

The Windows branches of `libuzi/file.c`. Each of seven functions converts its paths into buffers of
1024 units and calls a wide function with them; none looks at what `UziUtf8toUtf16` returns.

| | wide function | its failure |
|---|---|---|
| `UziFile_Open` | `_wfopen` | `NULL` |
| `UziFile_Move` | `MoveFileW` | `false` |
| `UziFile_Exists` | `PathFileExistsW` | `false` |
| `UziFile_Delete` | `DeleteFileW` | `false` |
| `UziMkDir` | `CreateDirectoryW` | `-1` |
| `UziRmDir` | `RemoveDirectoryW` | `-1` |
| `UziChMod` | `_wchmod` | `-1` |

So what the wide function is given is a conversion exactly when there is one that fits: when each
path is well-formed UTF-8, and its UTF-16 form with a terminator has at most 1024 units
(`WidePath.careful_iff`). For any other path the call is made nevertheless, with a buffer that
holds a part of the path, or what was on the stack. Only `UziFile_Open` looks at its arguments,
and makes no call if one of them is `NULL`.

The functions are programs that ask for wide functions (`Effects.Prog`), so that what is said of
a call holds whatever the calls answer.
-/

namespace Libuzi

open Buffer Effects Unicode

namespace WidePath

/-! ### The functions -/

/-- The units from an address on. -/
abbrev Units : Type := ℕ → UInt16

/-- **A zero-terminated byte string.** -/
structure CString where
  mem : ℕ → UInt8
  terminated : ∃ i, mem i = 0

/-- Its bytes, without the terminator. -/
def CString.text (s : CString) : List UInt8 := contents s.mem (wcslen s.mem s.terminated)

/-- `UZI_MAX_PATH`. -/
def uziMaxPath : ℤ := 1024

/-- **A call of a wide function.** -/
inductive WideCall where
  | wfopen (pathW modeW : Units)
  | moveFile (srcW dstW : Units)
  | pathFileExists (filenameW : Units)
  | deleteFile (filenameW : Units)
  | createDirectory (pathW : Units)
  | removeDirectory (pathW : Units)
  | wchmod (filenameW : Units) (mode : ℤ)

/-- What it answers: a `FILE*`, or a `BOOL` or an `int`. -/
abbrev WideCall.Answer : WideCall → Type
  | .wfopen _ _ => Option ℕ
  | _ => ℤ

/-- The paths that it is given. -/
def WideCall.names : WideCall → List Units
  | .wfopen pathW _ => [pathW]
  | .moveFile srcW dstW => [srcW, dstW]
  | .pathFileExists filenameW => [filenameW]
  | .deleteFile filenameW => [filenameW]
  | .createDirectory pathW => [pathW]
  | .removeDirectory pathW => [pathW]
  | .wchmod filenameW _ => [filenameW]

/-- A function that calls wide functions. -/
abbrev Program (ρ : Type) : Type := Prog WideCall WideCall.Answer ρ

/-- `UziUtf8toUtf16(s, -1, w, cch)`: what it returns, and the buffer afterwards. -/
def toUtf16 (s : CString) (w : Units) (cch : ℤ) : ℤ × Units :=
  uziUtf8toUtf16 s.mem (-1) (fun _ => s.terminated) w cch

/-- **A function that converts one path**, whose buffer holds `w` before, and makes one call. The
value of the conversion is not used. -/
def byWideName {ρ : Type} (name : CString) (w : Units) (call : Units → WideCall)
    (result : ∀ w, (call w).Answer → ρ) : Program ρ := do
  let nameW := (toUtf16 name w uziMaxPath).2
  let answer ← Prog.perform (call nameW)
  return result nameW answer

/-- **`UziFile_Open`**. -/
def uziFileOpen (path mode : Option CString) (modeW pathW : Units) : Program (Option ℕ) :=
  match path, mode with
  | some path, some mode =>
    let modeW := (toUtf16 mode modeW 32).2
    byWideName path pathW (fun pathW => .wfopen pathW modeW) fun _ (fp : Option ℕ) => fp
  | _, _ => pure none

/-- **`UziFile_Move`**. -/
def uziFileMove (src dst : CString) (_replace : Bool) (srcW dstW : Units) : Program Bool := do
  let srcW := (toUtf16 src srcW uziMaxPath).2
  let dstW := (toUtf16 dst dstW uziMaxPath).2
  let moved : ℤ ← Prog.perform (WideCall.moveFile srcW dstW)
  return decide (moved ≠ 0)

/-- **`UziFile_Exists`**. -/
def uziFileExists (filename : CString) (filenameW : Units) : Program Bool :=
  byWideName filename filenameW .pathFileExists fun _ (answer : ℤ) => decide (answer ≠ 0)

/-- **`UziFile_Delete`**. -/
def uziFileDelete (filename : CString) (filenameW : Units) : Program Bool :=
  byWideName filename filenameW .deleteFile fun _ (answer : ℤ) => decide (answer ≠ 0)

/-- **`UziMkDir`**. -/
def uziMkDir (path : CString) (_mode : ℤ) (pathW : Units) : Program ℤ :=
  byWideName path pathW .createDirectory fun _ (answer : ℤ) => if answer ≠ 0 then 0 else -1

/-- **`UziRmDir`**. -/
def uziRmDir (path : CString) (pathW : Units) : Program ℤ :=
  byWideName path pathW .removeDirectory fun _ (answer : ℤ) => if answer ≠ 0 then 0 else -1

/-- **`UziChMod`**. -/
def uziChMod (filename : CString) (mode : ℤ) (filenameW : Units) : Program ℤ :=
  byWideName filename filenameW (.wchmod · mode) fun _ (status : ℤ) => status

/-! ### What is asked of them -/

/-- **The buffer holds the complete conversion of the path**, with the terminator. -/
def IsConversion (path : CString) (w : Units) : Prop :=
  ∃ cs, path.text = utf8Encode cs ∧ ((utf16Encode cs ++ [0]).length : ℤ) ≤ uziMaxPath ∧
    Holds w 0 (utf16Encode cs ++ [0])

/-- **There is one that fits.** -/
def Convertible (path : CString) : Prop :=
  ∃ cs, path.text = utf8Encode cs ∧ ((utf16Encode cs ++ [0]).length : ℤ) ≤ uziMaxPath

/-- **A function that does not use a bad conversion**: it calls wide functions only with
conversions of its paths, and fails without a call if one of these has none. -/
structure Careful {ρ : Type} (paths : List CString) (failed : ρ) (program : Program ρ) : Prop where
  converted : program.Asks fun call => List.Forall₂ IsConversion paths call.names
  refused : (∃ path ∈ paths, ¬ Convertible path) → program = pure failed

/-- A call of one of the functions, with paths that are not `NULL`. -/
inductive Request where
  | fileOpen (path : CString) (mode : Option CString)
  | fileMove (src dst : CString) (replace : Bool)
  | fileExists (filename : CString)
  | fileDelete (filename : CString)
  | mkDir (path : CString) (mode : ℤ)
  | rmDir (path : CString)
  | chMod (filename : CString) (mode : ℤ)

/-- The paths of a call. -/
def Request.paths : Request → List CString
  | .fileOpen path _ => [path]
  | .fileMove src dst _ => [src, dst]
  | .fileExists filename => [filename]
  | .fileDelete filename => [filename]
  | .mkDir path _ => [path]
  | .rmDir path => [path]
  | .chMod filename _ => [filename]

/-- The function called is careful, with `w` and `w'` on the stack. -/
def Request.Careful (w w' : Units) : Request → Prop
  | .fileOpen path mode => WidePath.Careful [path] none (uziFileOpen (some path) mode w w')
  | .fileMove src dst replace =>
    WidePath.Careful [src, dst] false (uziFileMove src dst replace w w')
  | .fileExists filename => WidePath.Careful [filename] false (uziFileExists filename w)
  | .fileDelete filename => WidePath.Careful [filename] false (uziFileDelete filename w)
  | .mkDir path mode => WidePath.Careful [path] (-1) (uziMkDir path mode w)
  | .rmDir path => WidePath.Careful [path] (-1) (uziRmDir path w)
  | .chMod filename mode => WidePath.Careful [filename] (-1) (uziChMod filename mode w)

/-- `UziFile_Open` is called without a mode. -/
def Request.NoMode : Request → Prop
  | .fileOpen _ mode => mode = none
  | _ => False

section Law

variable {ρ : Type} {path name : CString} {w : Units}

/-- The terminator, as a character. -/
def nul : Char := Char.ofNat 0

theorem utf8Encode_concat (cs : List Char) : utf8Encode (cs ++ [nul]) = utf8Encode cs ++ [0] :=
  List.flatMap_append

theorem utf16Encode_concat (cs : List Char) : utf16Encode (cs ++ [nul]) = utf16Encode cs ++ [0] :=
  List.flatMap_append

/-- **The string with its terminator**, if it is well formed. -/
theorem holds_of_text {cs : List Char} (h : path.text = utf8Encode cs) :
    Holds path.mem 0 (utf8Encode (cs ++ [nul])) ∧
      (utf8Encode (cs ++ [nul])).length = wcslen path.mem path.terminated + 1 := by
  obtain ⟨hheld, hlength⟩ := contents_eq_iff.mp h
  rw [utf8Encode_concat, holds_append, List.length_append, hlength, Nat.zero_add]
  exact ⟨⟨hheld, holds_cons.mpr ⟨Nat.find_spec path.terminated, holds_nil⟩⟩, rfl⟩

/-- **A path that has a conversion that fits is converted**, whatever the buffer held before. -/
theorem toUtf16_of_text {cs : List Char} (htext : path.text = utf8Encode cs)
    (hfits : ((utf16Encode cs ++ [0]).length : ℤ) ≤ uziMaxPath) (w : Units) :
    toUtf16 path w uziMaxPath =
      (((utf16Encode cs ++ [0]).length : ℤ), blit w 0 (utf16Encode cs ++ [0])) := by
  obtain ⟨hheld, hlength⟩ := holds_of_text htext
  have hthree := (length_encode (cs ++ [nul])).2
  rw [← utf16Encode_concat] at hfits ⊢
  have hspan : Spans path.mem (-1) (utf8Encode (cs ++ [nul])).length :=
    .inr ⟨rfl, path.terminated, hlength⟩
  have hcall : toUtf16 path w uziMaxPath =
      uziUtf8toUtf16 path.mem (utf8Encode (cs ++ [nul])).length (terminated_natCast _ _) w
        uziMaxPath :=
    uziConvert_spans (fun _ => path.terminated) hspan (by rw [uziMaxPath] at hfits; omega) w
      uziMaxPath
  rw [hcall]
  exact uziUtf8toUtf16_text hheld w (by decide) hfits (by decide)

theorem isConversion_toUtf16 (h : Convertible path) (w : Units) :
    IsConversion path (toUtf16 path w uziMaxPath).2 := by
  obtain ⟨cs, htext, hfits⟩ := h
  refine ⟨cs, htext, hfits, ?_⟩
  rw [toUtf16_of_text htext hfits]
  exact holds_blit

/-- **Where the conversion returns 0** there is none that fits. -/
theorem not_convertible_of_toUtf16 (h : (toUtf16 path w uziMaxPath).1 = 0) :
    ¬ Convertible path := by
  rintro ⟨cs, htext, hfits⟩
  rw [toUtf16_of_text htext hfits, List.length_append, List.length_singleton] at h
  exact absurd h (by omega)

theorem IsConversion.convertible (h : IsConversion path w) : Convertible path := by
  obtain ⟨cs, htext, hlength, -⟩ := h
  exact ⟨cs, htext, hlength⟩

/-- The paths of a careful call all have conversions. -/
theorem forall_convertible {paths : List CString} {ws : List Units}
    (h : List.Forall₂ IsConversion paths ws) : ∀ path ∈ paths, Convertible path := by
  induction h with
  | nil => exact fun path hpath => absurd hpath List.not_mem_nil
  | cons h _ ih => exact List.forall_mem_cons.mpr ⟨h.convertible, ih⟩

/-- **A function that makes one call** is careful exactly when the call is for conversions. -/
theorem careful_perform_iff {paths : List CString} {failed : ρ} {call : WideCall}
    {result : call.Answer → ρ} :
    Careful paths failed (Prog.perform call >>= fun answer => pure (result answer)) ↔
      List.Forall₂ IsConversion paths call.names := by
  constructor
  · intro h
    exact h.converted.1
  · intro h
    refine ⟨⟨h, fun _ => trivial⟩, ?_⟩
    rintro ⟨path, hpath, hnot⟩
    exact absurd (forall_convertible h path hpath) hnot

/-- **A function that converts one path** is careful exactly when there is a conversion that
fits. -/
theorem careful_byWideName_iff {call : Units → WideCall} {result : ∀ w, (call w).Answer → ρ}
    {failed : ρ} (hnames : ∀ w, (call w).names = [w]) :
    Careful [name] failed (byWideName name w call result) ↔ Convertible name := by
  rw [byWideName, careful_perform_iff, hnames, List.forall₂_cons]
  constructor
  · intro h
    exact h.1.convertible
  · intro h
    exact ⟨isConversion_toUtf16 h w, .nil⟩

/-- **`UziFile_Open`** is careful, too, without a mode. -/
theorem careful_uziFileOpen_iff (path : CString) (mode : Option CString) (w w' : Units) :
    Careful [path] none (uziFileOpen (some path) mode w w') ↔ mode = none ∨ Convertible path := by
  cases mode with
  | none => exact ⟨fun _ => .inl rfl, fun _ => ⟨trivial, fun _ => rfl⟩⟩
  | some mode =>
    rw [uziFileOpen, careful_byWideName_iff fun _ => rfl, or_iff_right (Option.some_ne_none mode)]

/-- **`UziFile_Move`** is careful with two paths that have conversions that fit. -/
theorem careful_uziFileMove_iff (src dst : CString) (replace : Bool) (w w' : Units) :
    Careful [src, dst] false (uziFileMove src dst replace w w') ↔
      Convertible src ∧ Convertible dst := by
  refine careful_perform_iff.trans ?_
  rw [WideCall.names, List.forall₂_cons, List.forall₂_cons]
  constructor
  · rintro ⟨hsrc, hdst, -⟩
    exact ⟨hsrc.convertible, hdst.convertible⟩
  · rintro ⟨hsrc, hdst⟩
    exact ⟨isConversion_toUtf16 hsrc w, isConversion_toUtf16 hdst w', .nil⟩

/-- What is to be said of a call with one path that is always made. -/
theorem convertible_iff_paths :
    Convertible name ↔ False ∨ ∀ path ∈ [name], Convertible path := by
  rw [false_or, List.forall_mem_singleton]

/-- **The functions are careful exactly with paths that have a conversion that fits**, apart from
`UziFile_Open` without a mode. -/
theorem careful_iff (r : Request) (w w' : Units) :
    r.Careful w w' ↔ r.NoMode ∨ ∀ path ∈ r.paths, Convertible path := by
  cases r with
  | fileOpen path mode =>
    rw [Request.Careful, careful_uziFileOpen_iff, Request.paths, List.forall_mem_singleton,
      Request.NoMode]
  | fileMove src dst replace =>
    refine (careful_uziFileMove_iff src dst replace w w').trans ?_
    rw [Request.paths, List.forall_mem_cons, List.forall_mem_singleton]
    exact (iff_of_eq (false_or _)).symm
  | fileExists filename =>
    exact (careful_byWideName_iff fun _ => rfl).trans convertible_iff_paths
  | fileDelete filename =>
    exact (careful_byWideName_iff fun _ => rfl).trans convertible_iff_paths
  | mkDir path mode =>
    exact (careful_byWideName_iff fun _ => rfl).trans convertible_iff_paths
  | rmDir path =>
    exact (careful_byWideName_iff fun _ => rfl).trans convertible_iff_paths
  | chMod filename mode =>
    exact (careful_byWideName_iff fun _ => rfl).trans convertible_iff_paths

/-- The byte `0xFF`, which occurs in no UTF-8, as a path. -/
def badName : CString where
  mem := blit (fun _ => 0) 0 [0xFF]
  terminated := ⟨1, rfl⟩

/-- `UziFile_Delete` calls `DeleteFileW` for it, although it has no conversion. -/
theorem not_careful_badName : ¬ (Request.fileDelete badName).Careful (fun _ => 7) (fun _ => 7) := by
  intro h
  have hnot : ¬ Convertible badName :=
    not_convertible_of_toUtf16 (w := fun _ => 7) (by decide +kernel)
  have hrefused := h.refused ⟨badName, List.mem_singleton_self _, hnot⟩
  cases hrefused

end Law

end WidePath

end Libuzi
