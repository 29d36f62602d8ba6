import Libuzi.Positions
import Mathlib.Data.UInt
import Mathlib.Tactic.Common

/-!
# Parts of a path

`UziFile_Base`, `UziFile_Dir` and `UziFile_Extension` of `libuzi/file.c`. A path is the bytes of
a string, without the terminating zero, and a pointer into it is how far it points.

| | where it begins |
|---|---|
| `UziFile_Base` | after the last backslash, or, if there is none, after the last slash |
| `UziFile_Dir` | at the beginning, and it ends one byte before the base |
| `UziFile_Extension` | at the last dot, or after it |

Both kinds of separators may occur in a path, and dots may occur in its directories. So the
base is the name of the file exactly when no slash comes after the last backslash
(`Path.splitLaw_iff`), and the extension is that of the name exactly when the last dot
comes after the last separator, if the path does not end in one (`Path.extensionLaw_iff`).
-/

namespace Libuzi

open Positions

namespace Path

/-! ### The functions -/

/-- The bytes of a string. -/
abbrev Str := List UInt8

/-- `UZI_PATH_SLASH_CHR`. -/
def slash : UInt8 := 0x2F

/-- `UZI_PATH_BACKSLASH_CHR`. -/
def backslash : UInt8 := 0x5C

/-- A dot. -/
def dotChr : UInt8 := 0x2E

/-- `strrchr`, for a character other than the terminating zero. -/
def strrchr (s : Str) (c : UInt8) : Option ℕ := last? (fun x => x == c) s

/-- **`UziFile_Base`**. -/
def uziFileBase (filename : Str) : ℕ :=
  let separator :=
    match strrchr filename backslash with
    | none => strrchr filename slash
    | some separator => some separator
  match separator with
  | none => 0
  | some separator => if 1 < filename.length - separator then separator + 1 else 0

/-- **`UziFile_Dir`**. The argument says whether `malloc` succeeds. -/
def uziFileDir (filename : Str) (malloc : Bool) : Option Str :=
  let base := uziFileBase filename
  -- `end = base - 1` comes before `filename`
  if base = 0 then none
  else
    let length := base - 1
    if malloc then some (filename.take length) else none

/-- **`UziFile_Extension`**. -/
def uziFileExtension (filename : Str) (dot : Bool) : Option ℕ :=
  match strrchr filename dotChr with
  | none => none
  | some p =>
    if dot then some p
    else if 1 < filename.length - p then some (p + 1)
    else none

/-- The string that `UziFile_Base` points to. -/
def base (filename : Str) : Str := filename.drop (uziFileBase filename)

/-- The string that `UziFile_Extension` points to. -/
def extension (filename : Str) (dot : Bool) : Option Str :=
  (uziFileExtension filename dot).map fun p => filename.drop p

/-! ### What a path is made of -/

/-- A separator of either kind. -/
def isSeparator (c : UInt8) : Bool := c == backslash || c == slash

/-- The last separator of either kind. -/
def lastSeparator (filename : Str) : Option ℕ := last? isSeparator filename

/-- The path ends in a separator. -/
def EndsInSeparator (filename : Str) : Prop := lastSeparator filename = some (filename.length - 1)

instance (filename : Str) : Decidable (EndsInSeparator filename) :=
  inferInstanceAs (Decidable (_ = _))

/-- **The name of the file**: what comes after the last separator, if that is not nothing. -/
def name (filename : Str) : Str :=
  match lastSeparator filename with
  | none => filename
  | some separator =>
    if separator + 1 < filename.length then filename.drop (separator + 1) else filename

/-- **The path is split into its directory and its name.** -/
structure SplitLaw (filename : Str) : Prop where
  base : base filename = name filename
  no_separator : ¬ EndsInSeparator filename → ∀ c ∈ Path.base filename, isSeparator c = false
  dir : ∀ malloc dir, uziFileDir filename malloc = some dir →
    ∃ separator, isSeparator separator = true ∧ filename = dir ++ separator :: Path.base filename

/-- **The extension is that of the name.** -/
structure ExtensionLaw (filename : Str) : Prop where
  base : ∀ dot, extension filename dot = extension (base filename) dot
  no_separator : ¬ EndsInSeparator filename → ∀ dot e, extension filename dot = some e →
    ∀ c ∈ e, isSeparator c = false

/-- No slash comes after the last backslash. -/
def BackslashLast (filename : Str) : Prop :=
  ∀ b, strrchr filename backslash = some b → ∀ s, strrchr filename slash = some s → s < b

/-- **The last dot comes after the last separator**; in a path that ends in one, after the last
backslash, if the path does not end there. -/
def DotInName (filename : Str) : Prop :=
  ∀ d, strrchr filename dotChr = some d →
    if EndsInSeparator filename then
      ∀ b, strrchr filename backslash = some b → b + 1 < filename.length → b < d
    else ∀ s, lastSeparator filename = some s → s < d

section Base

variable {filename : Str} {b d k s : ℕ}

theorem lastSeparator_eq (filename : Str) :
    lastSeparator filename = later (strrchr filename backslash) (strrchr filename slash) :=
  last?_or (· == backslash) (· == slash) filename

/-- The separator that `UziFile_Base` finds. -/
def found (filename : Str) : Option ℕ :=
  match strrchr filename backslash with
  | none => strrchr filename slash
  | some separator => some separator

/-- The position after a separator, if the path goes on there; else the beginning. -/
def after (filename : Str) : Option ℕ → ℕ
  | none => 0
  | some k => if k + 1 < filename.length then k + 1 else 0

theorem uziFileBase_eq (filename : Str) :
    uziFileBase filename = after filename (found filename) := by
  simp only [uziFileBase, found]
  cases strrchr filename backslash with
  | some b => simp only [after, Nat.lt_sub_iff_add_lt']
  | none =>
    cases strrchr filename slash with
    | none => rfl
    | some s => simp only [after, Nat.lt_sub_iff_add_lt']

theorem name_eq (filename : Str) :
    name filename = filename.drop (after filename (lastSeparator filename)) := by
  rw [name]
  cases lastSeparator filename with
  | none => rfl
  | some k =>
    simp only [after]
    split <;> rfl

theorem after_le (filename : Str) (k : Option ℕ) : after filename k ≤ filename.length := by
  cases k with
  | none => exact Nat.zero_le _
  | some k =>
    rw [after]
    split <;> omega

/-- It is a separator. -/
theorem isSeparator_found (h : found filename = some k) :
    ∃ hk : k < filename.length, isSeparator filename[k] = true := by
  rw [found] at h
  cases hb : strrchr filename backslash with
  | none =>
    rw [hb] at h
    obtain ⟨hk, heq, -⟩ := last?_eq_some_iff.mp h
    exact ⟨hk, by rw [isSeparator, heq, Bool.or_true]⟩
  | some b =>
    rw [hb] at h
    obtain rfl := Option.some.inj h
    obtain ⟨hk, heq, -⟩ := last?_eq_some_iff.mp hb
    exact ⟨hk, by rw [isSeparator, heq, Bool.true_or]⟩

/-- **It is the last one, or a slash comes after it**, which is the last one. -/
theorem found_cases (filename : Str) :
    BackslashLast filename ∧ found filename = lastSeparator filename ∨
      ∃ b s, b < s ∧ s < filename.length ∧ found filename = some b ∧
        lastSeparator filename = some s ∧ ¬ BackslashLast filename := by
  rw [lastSeparator_eq, found]
  cases hb : strrchr filename backslash with
  | none => exact .inl ⟨fun b hb' => (by rw [hb] at hb'; cases hb'), rfl⟩
  | some b =>
    cases hs : strrchr filename slash with
    | none => exact .inl ⟨fun _ _ s hs' => (by rw [hs] at hs'; cases hs'), rfl⟩
    | some s =>
      have hne : b ≠ s := by
        rintro rfl
        obtain ⟨_, hb', -⟩ := last?_eq_some_iff.mp hb
        obtain ⟨_, hs', -⟩ := last?_eq_some_iff.mp hs
        rw [beq_iff_eq] at hb' hs'
        exact absurd (hb'.symm.trans hs') (by decide)
      by_cases hlt : b < s
      · have hmax : max b s = s := Nat.max_eq_right (Nat.le_of_lt hlt)
        refine .inr ⟨b, s, hlt, lt_length_of_last? hs, rfl, by rw [later, hmax], fun hlast => ?_⟩
        exact absurd (hlast b hb s hs) (Nat.lt_asymm hlt)
      · have hmax : max b s = b := Nat.max_eq_left (Nat.le_of_not_lt hlt)
        refine .inl ⟨fun b' hb' s' hs' => ?_, by rw [later, hmax]⟩
        obtain rfl := Option.some.inj (hb.symm.trans hb')
        obtain rfl := Option.some.inj (hs.symm.trans hs')
        omega

/-- The base as a string says where it begins. -/
theorem drop_eq_drop_iff {i j : ℕ} (hi : i ≤ filename.length) (hj : j ≤ filename.length) :
    filename.drop i = filename.drop j ↔ i = j := by
  refine ⟨fun h => ?_, fun h => by rw [h]⟩
  have hlength := congrArg List.length h
  rw [List.length_drop, List.length_drop] at hlength
  omega

/-- **The base is the name exactly when no slash comes after the last backslash.** -/
theorem base_eq_name_iff : base filename = name filename ↔ BackslashLast filename := by
  rw [base, name_eq, drop_eq_drop_iff (uziFileBase_eq filename ▸ after_le _ _) (after_le _ _),
    uziFileBase_eq]
  rcases found_cases filename with ⟨hlast, heq⟩ | ⟨b, s, hlt, hs, hfound, hlast, hnot⟩
  · rw [heq]
    exact ⟨fun _ => hlast, fun _ => rfl⟩
  · refine ⟨fun h => ?_, fun h => absurd h hnot⟩
    rw [hfound, hlast, after, after, if_pos (by omega)] at h
    split at h <;> omega

/-- What comes after the last separator has none in it. -/
theorem not_isSeparator_of_drop (hk : ∀ s, lastSeparator filename = some s → s < k) :
    ∀ c ∈ filename.drop k, isSeparator c = false :=
  last?_eq_none_iff.mp (last?_drop_of_lt hk)

/-- The name of a path that does not end in a separator has none in it. -/
theorem not_isSeparator_of_name (hends : ¬ EndsInSeparator filename) :
    ∀ c ∈ name filename, isSeparator c = false := by
  rw [name_eq]
  refine not_isSeparator_of_drop fun s hs => ?_
  have hlt : s < filename.length := lt_length_of_last? hs
  have hne : s ≠ filename.length - 1 := fun heq => hends (by rw [EndsInSeparator, hs, heq])
  rw [hs, after, if_pos (by omega)]
  exact Nat.lt_succ_self s

/-- **The directory ends where the separator before the base stands**, in every path. -/
theorem exists_separator_of_dir {malloc : Bool} {dir : Str}
    (hdir : uziFileDir filename malloc = some dir) :
    ∃ separator, isSeparator separator = true ∧ filename = dir ++ separator :: base filename := by
  rw [uziFileDir, uziFileBase_eq] at hdir
  rw [base, uziFileBase_eq]
  cases hfound : found filename with
  | none =>
    rw [hfound] at hdir
    cases hdir
  | some k =>
    obtain ⟨hk, hsep⟩ := isSeparator_found hfound
    rw [hfound, after] at hdir
    rw [after]
    split at hdir
    · rename_i hlt
      cases malloc with
      | false => cases hdir
      | true =>
        obtain rfl := Option.some.inj hdir
        refine ⟨filename[k], hsep, ?_⟩
        rw [if_pos hlt, Nat.add_sub_cancel, List.getElem_cons_drop, List.take_append_drop]
    · cases hdir

/-- **A path is split into its directory and its name exactly when no slash comes after its last
backslash.** -/
theorem splitLaw_iff (filename : Str) : SplitLaw filename ↔ BackslashLast filename := by
  constructor
  · intro h
    exact base_eq_name_iff.mp h.base
  · intro h
    have hbase := base_eq_name_iff.mpr h
    refine ⟨hbase, fun hends => ?_, fun malloc dir => exists_separator_of_dir⟩
    rw [hbase]
    exact not_isSeparator_of_name hends

/-- The base of `a\b/c` is `b/c`. -/
theorem not_splitLaw_mixed : ¬ SplitLaw [0x61, backslash, 0x62, slash, 0x63] := by
  intro h
  exact absurd h.base (by decide)

end Base

/-! ### Extensions -/

section Extension

variable {filename : Str} {dot : Bool} {d k : ℕ}

theorem extension_of_none (h : strrchr filename dotChr = none) : extension filename dot = none := by
  rw [extension, uziFileExtension, h]
  rfl

theorem extension_of_some (h : strrchr filename dotChr = some d) :
    extension filename dot =
      if dot then some (filename.drop d)
      else if 1 < filename.length - d then some (filename.drop (d + 1)) else none := by
  rw [extension, uziFileExtension, h]
  cases dot with
  | true => rfl
  | false =>
    simp only [Bool.false_eq_true, if_false]
    split <;> rfl

/-- A rest of the path that has the last dot in it has the same extension. -/
theorem extension_drop_of_le (h : strrchr filename dotChr = some d) (hk : k ≤ d) :
    extension (filename.drop k) dot = extension filename dot := by
  have hlt : d < filename.length := lt_length_of_last? h
  have hrest : strrchr (filename.drop k) dotChr = some (d - k) := last?_drop_of_le h hk
  rw [extension_of_some h, extension_of_some hrest, List.drop_drop, List.drop_drop,
    List.length_drop]
  have hd : k + (d - k) = d := by omega
  have hd' : k + (d - k + 1) = d + 1 := by omega
  have hlength : filename.length - k - (d - k) = filename.length - d := by omega
  rw [hd, hd', hlength]

/-- **The base keeps the extension exactly when the last dot is in it.** -/
theorem extension_base_iff : (∀ dot, extension filename dot = extension (base filename) dot) ↔
    ∀ d, strrchr filename dotChr = some d → uziFileBase filename ≤ d := by
  constructor
  · intro h d hd
    by_contra hlt
    have hrest : strrchr (base filename) dotChr = none := last?_drop_of_lt fun i hi => by
      obtain rfl := Option.some.inj (hd.symm.trans hi)
      exact Nat.lt_of_not_le hlt
    have htrue := h true
    rw [extension_of_some hd, extension_of_none hrest, if_pos rfl] at htrue
    cases htrue
  · intro h dot
    cases hd : strrchr filename dotChr with
    | none =>
      have hrest : strrchr (base filename) dotChr = none :=
        last?_drop_of_lt fun i hi => (by rw [strrchr] at hd; rw [hd] at hi; cases hi)
      rw [extension_of_none hd, extension_of_none hrest]
    | some d => exact (extension_drop_of_le hd (h d hd)).symm

/-- **The extension has no separator in it exactly when the last dot comes after the last
separator.** -/
theorem extension_no_separator_iff :
    (∀ dot e, extension filename dot = some e → ∀ c ∈ e, isSeparator c = false) ↔
      ∀ d, strrchr filename dotChr = some d → ∀ s, lastSeparator filename = some s → s < d := by
  constructor
  · intro h d hd s hs
    have hnone := last?_eq_none_iff.mpr (h true _ (extension_of_some hd))
    by_contra hlt
    rw [last?_drop_of_le hs (Nat.le_of_not_lt hlt)] at hnone
    cases hnone
  · intro h dot e he
    cases hd : strrchr filename dotChr with
    | none =>
      rw [extension_of_none hd] at he
      cases he
    | some d =>
      have hlt := h d hd
      rw [extension_of_some hd] at he
      split at he
      · obtain rfl := Option.some.inj he
        exact not_isSeparator_of_drop hlt
      · split at he
        · obtain rfl := Option.some.inj he
          exact not_isSeparator_of_drop fun s hs => Nat.lt_succ_of_lt (hlt s hs)
        · cases he

/-- The base begins after the last separator at the latest. -/
theorem uziFileBase_le (hlast : ∀ s, lastSeparator filename = some s → s < d) :
    uziFileBase filename ≤ d := by
  rw [uziFileBase_eq]
  cases hfound : found filename with
  | none => exact Nat.zero_le d
  | some k =>
    obtain ⟨hk, hsep⟩ := isSeparator_found hfound
    obtain ⟨s, hs, hle⟩ := exists_le_last? hk hsep
    have hlt := hlast s hs
    rw [after]
    split <;> omega

/-- Where the path ends in a separator, the base begins after the last backslash, or at the
beginning. -/
theorem uziFileBase_le_iff_of_ends (hends : EndsInSeparator filename) :
    uziFileBase filename ≤ d ↔
      ∀ b, strrchr filename backslash = some b → b + 1 < filename.length → b < d := by
  rw [uziFileBase_eq, found]
  rw [EndsInSeparator, lastSeparator_eq] at hends
  cases hb : strrchr filename backslash with
  | none =>
    -- The last slash is the last byte.
    rw [hb] at hends
    have hslash : strrchr filename slash = some (filename.length - 1) := hends
    have hlt : filename.length - 1 < filename.length := lt_length_of_last? hslash
    simp only [hslash]
    rw [after, if_neg (by omega)]
    exact ⟨fun _ b hb' => (by cases hb'), fun _ => Nat.zero_le d⟩
  | some b =>
    rw [after]
    split
    · rename_i hlt
      refine ⟨fun hle b' hb' _ => ?_, fun h => h b rfl hlt⟩
      obtain rfl := Option.some.inj hb'
      exact hle
    · rename_i hge
      refine ⟨fun _ b' hb' hlt => ?_, fun _ => Nat.zero_le d⟩
      obtain rfl := Option.some.inj hb'
      exact absurd hlt hge

/-- **The extension is that of the name exactly when the last dot is in the name.** -/
theorem extensionLaw_iff (filename : Str) : ExtensionLaw filename ↔ DotInName filename := by
  by_cases hends : EndsInSeparator filename
  · have hlaw : ExtensionLaw filename ↔
        ∀ d, strrchr filename dotChr = some d → uziFileBase filename ≤ d :=
      ⟨fun h => extension_base_iff.mp h.base,
        fun h => ⟨extension_base_iff.mpr h, fun hnot => absurd hends hnot⟩⟩
    simp only [hlaw, DotInName, if_pos hends, uziFileBase_le_iff_of_ends hends]
  · have hlaw : ExtensionLaw filename ↔
        ∀ d, strrchr filename dotChr = some d → ∀ s, lastSeparator filename = some s → s < d := by
      constructor
      · intro h
        exact extension_no_separator_iff.mp (h.no_separator hends)
      · intro h
        refine ⟨extension_base_iff.mpr fun d hd => uziFileBase_le (h d hd), fun _ => ?_⟩
        exact extension_no_separator_iff.mpr h
    simp only [hlaw, DotInName, if_neg hends]

/-- The file `c` in the directory `a.b` has the extension `.b/c`. -/
theorem not_extensionLaw_dotted : ¬ ExtensionLaw [0x61, dotChr, 0x62, slash, 0x63] := by
  intro h
  exact absurd (h.base true) (by decide)

end Extension

end Path

end Libuzi
