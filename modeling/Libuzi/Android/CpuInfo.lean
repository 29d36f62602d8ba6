import Libuzi.Android.CpuCount
import Libuzi.Words

/-!
# Fields of `/proc/cpuinfo`

The kernel describes the processors in a text of lines such as `CPU part : 0xc09`, of which
`libuzi/cpu-features.c` takes what it needs on ARM:

| in the source | here |
|---|---|
| `extract_cpuinfo_field` | `CpuInfo.extractCpuinfoField` |
| `has_list_item` | `CpuInfo.hasListItem` |
| `strtol` | `CpuInfo.strtol` |
| the loop over `cpu_id_entries` | `CpuInfo.cpuIdArm` |

A field is looked for with `memmem`, and what is found counts if it begins a line. This comes to
the first line that begins with the field, for a field without line breaks
(`CpuInfo.findField_eq`), so in a text of well-formed lines the result is the value of the first
line whose key begins with the field (`CpuInfo.extractCpuinfoField_text`). In a text that is not
so made the colon may be missing, and then it is looked for in the lines below, or be the last
character, and then the function reads past the end of the buffer.

The identification of the processor is put together from four such values
(`CpuInfo.cpuIdArm_text`).
-/

namespace Libuzi

open Libuzi.Path Numerals Words CpuList

namespace CpuInfo

/-- The bytes of a string in the source. -/
def ascii (s : String) : Str := s.toList.map fun c => UInt8.ofNat c.toNat

/-- `':'`. -/
def colon : UInt8 := 0x3A

/-- `' '`. -/
def space : UInt8 := 0x20

/-- `'\t'`. -/
def tab : UInt8 := 0x09

/-! ### The functions -/

/-- The loop of `extract_cpuinfo_field`: the text from the line that begins with the field, when
`prev` is the character before `p`. Each turn but the last comes past a character. -/
def findField (field : Str) : ℕ → Option UInt8 → Str → Option Str
  | 0, _, _ => none
  | n + 1, prev, p =>
    match search field p with
    | none => none
    | some (skipped, p) =>
      if AtStart newline (skipped.getLast?.or prev) then some p
      else findField field n (field.getLast?.or (skipped.getLast?.or prev)) (p.drop field.length)

/-- **`extract_cpuinfo_field`**: the string that is returned, if any; nothing at all if it reads
past the end of the buffer. -/
def extractCpuinfoField (buffer field : Str) : Option (Option Str) :=
  match findField field (buffer.length + 1) none buffer with
  | none => some none
  | some p =>
    match (p.drop field.length).dropWhile (· != colon) with
    | [] => some none
    -- `p[1]` is behind the buffer
    | [_] => none
    | _ :: c :: p =>
      if c = space then some (some ((p.takeWhile (· != newline)).takeWhile (· != 0)))
      else some none

/-- A space or a tabulator. -/
def isBlank (c : UInt8) : Bool := c == space || c == tab

/-- The loop of `has_list_item`. -/
def listLoop (item : Str) : ℕ → Str → Bool
  | 0, _ => false
  | _ + 1, [] => false
  | n + 1, c :: cs =>
    let p := (c :: cs).dropWhile isBlank
    if p.takeWhile (!isBlank ·) = item then true
    else listLoop item n (p.dropWhile (!isBlank ·))

/-- **`has_list_item`**. -/
def hasListItem (list : Option Str) (item : Str) : Bool :=
  match list with
  | none => false
  | some list => listLoop item (list.length + 1) list

/-- What `strtol` skips. -/
def isSpace (c : UInt8) : Bool := c == space || (9 ≤ c.toNat && c.toNat ≤ 13)

/-- **`strtol`** in base ten, for a `long` of 32 bits: the number at the beginning, if there is
one. -/
def strtol (s : Str) : Option ℤ :=
  let s := s.dropWhile isSpace
  let rest := if s.head? = some 0x2B ∨ s.head? = some 0x2D then s.tail else s
  let digits := (scan (below 10) rest).1
  let n : ℤ := value 10 0 digits
  if digits = [] then none
  else some (max (-2 ^ 31) (min (2 ^ 31 - 1) (if s.head? = some 0x2D then -n else n)))

/-- `parse_hexadecimal`. -/
def parseHexadecimal (input : Str) : Option (BitVec 32 × Str) := parseNumber 16 input

/-- `struct CpuIdEntry`. -/
structure CpuIdEntry where
  /-- The field. -/
  field : Str
  /-- The format is `'x'`, and not `'d'`. -/
  hexadecimal : Bool
  /-- Where its bits go. -/
  bitLshift : ℕ
  /-- How many there are. -/
  bitLength : ℕ

/-- `cpu_id_entries`. -/
def cpuIdEntries : List CpuIdEntry :=
  [⟨ascii "CPU implementer", true, 24, 8⟩, ⟨ascii "CPU variant", true, 20, 4⟩,
    ⟨ascii "CPU part", true, 4, 12⟩, ⟨ascii "CPU revision", false, 0, 4⟩]

/-- The number that a value stands for. -/
def CpuIdEntry.number (entry : CpuIdEntry) (value : Str) : Option (BitVec 32) :=
  if value.take 2 = ascii "0x" ∨ value.take 2 = ascii "0X" then
    (parseHexadecimal (value.drop 2)).map Prod.fst
  else if entry.hexadecimal then (parseHexadecimal value).map Prod.fst
  else (parseDecimal value).map Prod.fst

/-- Its bits, where they go. -/
def CpuIdEntry.bits (entry : CpuIdEntry) (val : BitVec 32) : BitVec 32 :=
  (val &&& (1#32 <<< entry.bitLength - 1#32)) <<< entry.bitLshift

/-- The loop over `cpu_id_entries`. -/
def cpuIdLoop (cpuinfo : Str) : BitVec 32 → List CpuIdEntry → Option (BitVec 32)
  | id, [] => some id
  | id, entry :: entries =>
    (extractCpuinfoField cpuinfo entry.field).bind fun value =>
      match value.bind entry.number with
      | none => cpuIdLoop cpuinfo id entries
      | some val => cpuIdLoop cpuinfo (id ||| entry.bits val) entries

/-- **`g_cpuIdArm`**, which begins with zero. -/
def cpuIdArm (cpuinfo : Str) : Option (BitVec 32) := cpuIdLoop cpuinfo 0#32 cpuIdEntries

/-! ### What the kernel writes -/

/-- A line of the file. -/
inductive Line
  /-- An empty one. -/
  | blank
  /-- A key and its value. -/
  | entry (key value : Str)
  deriving DecidableEq

/-- How a line is written. -/
def Line.text : Line → Str
  | .blank => [newline]
  | .entry key value => key ++ colon :: space :: (value ++ [newline])

/-- How the lines are written. -/
def textOf (lines : List Line) : Str := lines.flatMap Line.text

/-- What a key and a value are made of. -/
def Line.WellFormed : Line → Prop
  | .blank => True
  | .entry key value => newline ∉ key ∧ colon ∉ key ∧ newline ∉ value ∧ 0 ∉ value

instance : (line : Line) → Decidable line.WellFormed
  | .blank => inferInstanceAs (Decidable True)
  | .entry _ _ => inferInstanceAs (Decidable (_ ∧ _))

/-- The value of the line, if its key begins with the field. -/
def Line.valueFor (field : Str) : Line → Option Str
  | .blank => none
  | .entry key value => if field <+: key then some value else none

/-- **The value of a field**: that of the first line whose key begins with it. -/
def valueOf (lines : List Line) (field : Str) : Option Str := lines.findSome? (Line.valueFor field)

/-- A field that can be looked for. -/
structure IsField (field : Str) : Prop where
  /-- It is not empty. -/
  ne_nil : field ≠ []
  /-- It has no line break. -/
  newline : newline ∉ field
  /-- It has no colon. -/
  colon : colon ∉ field

instance (field : Str) : Decidable (IsField field) :=
  decidable_of_iff (field ≠ [] ∧ CpuList.newline ∉ field ∧ CpuInfo.colon ∉ field)
    ⟨fun h => ⟨h.1, h.2.1, h.2.2⟩, fun h => ⟨h.1, h.2, h.3⟩⟩

/-- A digit of base 16. -/
def hexDigit (d : ℕ) : UInt8 := if d < 10 then UInt8.ofNat (0x30 + d) else UInt8.ofNat (0x57 + d)

/-- A number in base 16, with zeros in front up to the width, as `%0*x` writes it. -/
def hexadecimal (width n : ℕ) : Str := ((numeral 16 n).leftpad width 0).map hexDigit

/-- **The lines that identify a processor**, and maybe others. -/
structure Describes (lines : List Line) (implementer variant part revision : ℕ) : Prop where
  /-- `CPU implementer`. -/
  implementer : valueOf lines (ascii "CPU implementer") =
    some (ascii "0x" ++ hexadecimal 2 implementer)
  /-- `CPU variant`. -/
  variant : valueOf lines (ascii "CPU variant") = some (ascii "0x" ++ hexadecimal 0 variant)
  /-- `CPU part`. -/
  part : valueOf lines (ascii "CPU part") = some (ascii "0x" ++ hexadecimal 3 part)
  /-- `CPU revision`. -/
  revision : valueOf lines (ascii "CPU revision") = some (decimal revision)

/-- **What an identification says**, field by field. -/
structure Identifies (id : BitVec 32) (implementer variant part revision : ℕ) : Prop where
  /-- The most significant eight bits. -/
  implementer : id.extractLsb' 24 8 = BitVec.ofNat 8 implementer
  /-- The next four. -/
  variant : id.extractLsb' 20 4 = BitVec.ofNat 4 variant
  /-- Four are not used. -/
  unused : id.extractLsb' 16 4 = 0
  /-- The next twelve. -/
  part : id.extractLsb' 4 12 = BitVec.ofNat 12 part
  /-- The last four. -/
  revision : id.extractLsb' 0 4 = BitVec.ofNat 4 revision

section Fields

variable {field item p buffer key value rest : Str} {prev : Option UInt8} {n : ℕ} {line : Line}
  {lines : List Line}

/-! ### Fields -/

/-- **The field is found in the first line that begins with it.** -/
theorem findField_eq (hne : field ≠ []) (hnewline : newline ∉ field) (hn : p.length < n) :
    findField field n prev p = seek newline field prev p := by
  induction n generalizing prev p with
  | zero => exact absurd hn (Nat.not_lt_zero _)
  | succ n ih =>
    rw [findField]
    cases hsearch : search field p with
    | none => exact (seek_eq_none hsearch).symm
    | some r =>
      obtain ⟨skipped, p'⟩ := r
      obtain ⟨rfl, ⟨rest, rfl⟩, hseek⟩ := seek_of_search hsearch
      dsimp only
      rw [hseek]
      split
      case isTrue hstart => rw [seek_of_begins hstart (List.prefix_append field rest)]
      case isFalse hstart =>
        have hpos : 0 < field.length := List.length_pos_of_ne_nil hne
        rw [seek_append hstart hnewline, List.drop_left]
        refine ih ?_
        simp only [List.length_append] at hn
        omega

theorem bne_of_notMem {x : UInt8} {s : Str} (hx : x ∉ s) : ∀ c ∈ s, (c != x) = true := by
  intro c hc
  rw [bne_iff_ne]
  rintro rfl
  exact hx hc

theorem prefix_append_cons_iff {x : UInt8} (hx : x ∉ field) :
    field <+: key ++ x :: rest ↔ field <+: key := by
  constructor
  · intro h
    rcases List.prefix_or_prefix_of_prefix h (List.prefix_append key (x :: rest)) with hkey | hkey
    · exact hkey
    · -- the field would go beyond the key
      obtain ⟨more, rfl⟩ := hkey
      cases more with
      | nil => rw [List.append_nil]
      | cons c more =>
        have hc := (List.prefix_append_right_inj key).mp h
        rw [List.cons_prefix_cons] at hc
        rw [hc.1] at hx
        exact absurd (List.mem_append_right key List.mem_cons_self) hx
  · exact fun h => h.trans (List.prefix_append key _)

/-- A line that is not for the field is passed over. -/
theorem seek_of_valueFor_none (hfield : IsField field) (hline : line.WellFormed)
    (hnone : line.valueFor field = none) :
    seek newline field prev (line.text ++ rest) = seek newline field (some newline) rest := by
  cases line with
  | blank =>
    change seek newline field prev ([] ++ newline :: rest) = _
    refine seek_line List.not_mem_nil fun h => ?_
    exact hfield.ne_nil (List.prefix_nil.mp ((prefix_append_cons_iff hfield.newline).mp h))
  | entry key value =>
    obtain ⟨hkey, -, hvalue, -⟩ := hline
    have hnot : ¬field <+: key := by
      intro h
      rw [Line.valueFor, if_pos h] at hnone
      cases hnone
    have htext : (Line.entry key value).text ++ rest =
        (key ++ colon :: space :: value) ++ newline :: rest := by
      simp only [Line.text, List.append_assoc, List.cons_append, List.nil_append]
    rw [htext]
    refine seek_line ?_ fun h => ?_
    · simp only [List.mem_append, List.mem_cons, not_or]
      exact ⟨hkey, by decide, by decide, hvalue⟩
    · rw [List.append_assoc, List.cons_append] at h
      exact hnot ((prefix_append_cons_iff hfield.colon).mp h)

/-- The line that is found, or none. -/
theorem seek_textOf (hfield : IsField field) (hlines : ∀ line ∈ lines, line.WellFormed)
    (hprev : AtStart newline prev) :
    match valueOf lines field with
    | none => seek newline field prev (textOf lines) = none
    | some value => ∃ key rest, field <+: key ∧ (Line.entry key value).WellFormed ∧
        seek newline field prev (textOf lines) = some ((Line.entry key value).text ++ rest) := by
  induction lines generalizing prev with
  | nil => exact if_neg fun h => hfield.ne_nil h.2
  | cons line lines ih =>
    have htext : textOf (line :: lines) = line.text ++ textOf lines := rfl
    rw [valueOf, List.findSome?_cons, htext]
    cases hvalue : line.valueFor field with
    | none =>
      rw [seek_of_valueFor_none hfield (hlines line List.mem_cons_self) hvalue]
      exact ih (fun line' hline' => hlines line' (List.mem_cons_of_mem line hline')) (.inr rfl)
    | some value =>
      cases line with
      | blank => cases hvalue
      | entry key value' =>
        rw [Line.valueFor, Option.ite_none_right_eq_some] at hvalue
        obtain ⟨hkey, hsame⟩ := hvalue
        obtain rfl := Option.some.inj hsame
        refine ⟨key, textOf lines, hkey, hlines _ List.mem_cons_self, ?_⟩
        refine seek_of_begins hprev (hkey.trans ?_)
        rw [Line.text, List.append_assoc]
        exact List.prefix_append _ _

/-- **A field is read back**: in a text of well-formed lines the result is the value of the first
line whose key begins with the field. -/
theorem extractCpuinfoField_text (hfield : IsField field)
    (hlines : ∀ line ∈ lines, line.WellFormed) :
    extractCpuinfoField (textOf lines) field = some (valueOf lines field) := by
  have hseek := seek_textOf hfield hlines (.inl rfl : AtStart newline none)
  rw [extractCpuinfoField, findField_eq hfield.ne_nil hfield.newline (Nat.lt_succ_self _)]
  cases hvalue : valueOf lines field with
  | none =>
    rw [hvalue] at hseek
    rw [hseek]
  | some value =>
    rw [hvalue] at hseek
    obtain ⟨key, rest, ⟨more, rfl⟩, ⟨-, hcolon, hnewline, hnull⟩, hseek⟩ := hseek
    have hmore := bne_of_notMem fun h => hcolon (List.mem_append_right field h)
    have htext : (Line.entry (field ++ more) value).text ++ rest =
        field ++ (more ++ colon :: space :: (value ++ newline :: rest)) := by
      simp only [Line.text, List.append_assoc, List.cons_append, List.nil_append]
    rw [hseek, htext]
    dsimp only
    rw [List.drop_left, List.dropWhile_append_of_pos hmore,
      List.dropWhile_cons_of_neg (by rw [bne_self_eq_false]; nofun)]
    dsimp only
    rw [if_pos rfl, List.takeWhile_append_of_pos (bne_of_notMem hnewline),
      List.takeWhile_cons_of_neg (by rw [bne_self_eq_false]; nofun), List.append_nil,
      List.takeWhile_eq_self_iff.mpr (bne_of_notMem hnull)]

/-! ### Items -/

theorem listLoop_iff (hitem : item ≠ []) (hn : p.length < n) :
    listLoop item n p = true ↔ item ∈ p.splitOnP isBlank := by
  induction n generalizing p with
  | zero => exact absurd hn (Nat.not_lt_zero _)
  | succ n ih =>
    cases p with
    | nil =>
      rw [listLoop, List.splitOnP_nil, List.mem_singleton]
      exact iff_of_false nofun hitem
    | cons c cs =>
      rw [listLoop, ← mem_splitOnP_dropWhile hitem, mem_splitOnP_iff hitem]
      split
      case isTrue hfound => exact iff_of_true rfl (.inl hfound)
      case isFalse hnot =>
        rw [or_iff_right hnot]
        refine ih (Nat.lt_of_lt_of_le ?_ (Nat.le_of_lt_succ hn))
        -- the blanks or the item come past the first character
        by_cases hc : isBlank c = true
        · rw [List.dropWhile_cons_of_pos hc]
          exact Nat.lt_succ_of_le ((List.dropWhile_suffix _).length_le.trans
            (List.dropWhile_suffix _).length_le)
        · rw [List.dropWhile_cons_of_neg hc, List.dropWhile_cons_of_pos (by simpa using hc)]
          exact Nat.lt_succ_of_le (List.dropWhile_suffix _).length_le

/-- **`has_list_item` finds the items between the blanks**. -/
theorem hasListItem_iff {list : Str} (hitem : item ≠ []) :
    hasListItem (some list) item = true ↔ item ∈ list.splitOnP isBlank :=
  listLoop_iff hitem (Nat.lt_succ_self _)

/-! ### The identification of the processor -/

theorem parseHexadecimal_hexadecimal (width n : ℕ) :
    parseHexadecimal (hexadecimal width n) = some (BitVec.ofNat 32 n, []) := by
  have hdigit : ∀ d < 16, below 16 (hexDigit d) = some d := by decide
  have hlt : ∀ d ∈ (numeral 16 n).leftpad width 0, d < 16 := by
    intro d hd
    rw [List.leftpad, List.mem_append] at hd
    rcases hd with hd | hd
    · rw [List.eq_of_mem_replicate hd]
      decide
    · exact lt_of_mem_numeral (by decide) hd
  have hne : (numeral 16 n).leftpad width 0 ≠ [] :=
    List.append_ne_nil_of_right_ne_nil _ numeral_ne_nil
  have hend : ∀ c ∈ ([] : Str).head?, below 16 c = none := nofun
  have hparse := parseNumber_map hne (fun d hd => hdigit d (hlt d hd)) hend
  rw [List.append_nil, value_leftpad, value_numeral] at hparse
  exact hparse

/-- The mask of an entry. -/
theorem getLsbD_mask {length j : ℕ} (hlength : length < 32) :
    (1#32 <<< length - 1#32).getLsbD j = decide (j < length) := by
  have hpow : 2 ^ length < 2 ^ 32 := Nat.pow_lt_pow_right (by decide) hlength
  have hone : (1#32 <<< length).toNat = 2 ^ length := by
    rw [BitVec.toNat_shiftLeft, Nat.shiftLeft_eq, show (1#32).toNat = 1 from rfl, Nat.one_mul,
      Nat.mod_eq_of_lt hpow]
  have hle : 1#32 ≤ 1#32 <<< length := by
    rw [BitVec.le_def, hone]
    exact Nat.two_pow_pos length
  rw [BitVec.getLsbD, BitVec.toNat_sub_of_le hle, hone, show (1#32).toNat = 1 from rfl,
    Nat.testBit_two_pow_sub_one]

/-- The bits of a number that an entry takes. -/
theorem CpuIdEntry.getLsbD_bits {entry : CpuIdEntry} {val : BitVec 32} {i : ℕ} (hi : i < 32)
    (hlength : entry.bitLength < 32) : (entry.bits val).getLsbD i = true ↔
      (entry.bitLshift ≤ i ∧ i < entry.bitLshift + entry.bitLength) ∧
        val.getLsbD (i - entry.bitLshift) = true := by
  have hin : (i < 32 ∧ ¬i < entry.bitLshift) ∧ i - entry.bitLshift < entry.bitLength ↔
      entry.bitLshift ≤ i ∧ i < entry.bitLshift + entry.bitLength := by omega
  rw [CpuIdEntry.bits, BitVec.getLsbD_shiftLeft, BitVec.getLsbD_and, getLsbD_mask hlength, ← hin]
  simp only [Bool.and_eq_true, Bool.not_eq_true', decide_eq_true_eq, decide_eq_false_iff_not]
  tauto

/-- They are taken out again where they are. -/
theorem CpuIdEntry.extractLsb'_bits {entry : CpuIdEntry} {n : ℕ} (hlength : entry.bitLength < 32)
    (hfits : entry.bitLshift + entry.bitLength ≤ 32) :
    (entry.bits (BitVec.ofNat 32 n)).extractLsb' entry.bitLshift entry.bitLength =
      BitVec.ofNat entry.bitLength n := by
  refine BitVec.eq_of_getLsbD_eq fun i hi => ?_
  rw [BitVec.getLsbD_extractLsb', decide_eq_true hi, Bool.true_and, Bool.eq_iff_iff,
    CpuIdEntry.getLsbD_bits (by omega) hlength, and_iff_right ⟨by omega, by omega⟩,
    Nat.add_sub_cancel_left, BitVec.getLsbD_ofNat, BitVec.getLsbD_ofNat, decide_eq_true hi,
    decide_eq_true (by omega : i < 32)]

/-- Elsewhere there are none. -/
theorem CpuIdEntry.extractLsb'_bits_of_apart {entry : CpuIdEntry} {val : BitVec 32}
    {start length : ℕ} (hlength : entry.bitLength < 32) (hfits : start + length ≤ 32)
    (hapart : start + length ≤ entry.bitLshift ∨ entry.bitLshift + entry.bitLength ≤ start) :
    (entry.bits val).extractLsb' start length = BitVec.ofNat length 0 := by
  refine BitVec.eq_of_getLsbD_eq fun i hi => ?_
  rw [BitVec.getLsbD_extractLsb', decide_eq_true hi, Bool.true_and, BitVec.getLsbD_zero,
    ← Bool.not_eq_true, CpuIdEntry.getLsbD_bits (by omega) hlength]
  rintro ⟨hin, -⟩
  omega

/-- A number in base 16 is read back, in whichever format. -/
theorem number_hexadecimal (entry : CpuIdEntry) (width n : ℕ) :
    entry.number (ascii "0x" ++ hexadecimal width n) = some (BitVec.ofNat 32 n) := by
  have htake : (ascii "0x" ++ hexadecimal width n).take 2 = ascii "0x" := List.take_left' rfl
  have hdrop : (ascii "0x" ++ hexadecimal width n).drop 2 = hexadecimal width n :=
    List.drop_left' rfl
  rw [CpuIdEntry.number, htake, if_pos (.inl rfl), hdrop, parseHexadecimal_hexadecimal]
  rfl

/-- A number in base ten is read back in the format `'d'`. -/
theorem number_decimal {entry : CpuIdEntry} (h : entry.hexadecimal = false) (n : ℕ) :
    entry.number (decimal n) = some (BitVec.ofNat 32 n) := by
  have hnot : ∀ c : UInt8, (∀ d < 10, UInt8.ofNat (0x30 + d) ≠ c) →
      (decimal n).take 2 ≠ [0x30, c] := by
    intro c hc htake
    refine notMem_decimal (n := n) hc (List.mem_of_mem_take (i := 2) ?_)
    rw [htake]
    exact List.mem_cons_of_mem _ List.mem_cons_self
  have hend : ∀ c ∈ ([] : Str).head?, below 10 c = none := nofun
  have hparse := parseDecimal_decimal (n := n) hend
  rw [List.append_nil] at hparse
  rw [CpuIdEntry.number, if_neg, h, if_neg nofun, hparse]
  · rfl
  · rintro (hx | hx)
    · exact hnot 0x78 (by decide) hx
    · exact hnot 0x58 (by decide) hx

/-- One turn of the loop. -/
theorem cpuIdLoop_cons {entry : CpuIdEntry} {entries : List CpuIdEntry} {id val : BitVec 32}
    (hlines : ∀ line ∈ lines, line.WellFormed) (hfield : IsField entry.field)
    (hvalue : valueOf lines entry.field = some value) (hnumber : entry.number value = some val) :
    cpuIdLoop (textOf lines) id (entry :: entries) =
      cpuIdLoop (textOf lines) (id ||| entry.bits val) entries := by
  rw [cpuIdLoop, extractCpuinfoField_text hfield hlines, hvalue, Option.bind_some,
    Option.bind_some, hnumber]

/-- **The identification is read back** from a text of well-formed lines that describe it. -/
theorem cpuIdArm_text {implementer variant part revision : ℕ}
    (hlines : ∀ line ∈ lines, line.WellFormed)
    (h : Describes lines implementer variant part revision) :
    ∃ id, cpuIdArm (textOf lines) = some id ∧
      Identifies id implementer variant part revision := by
  rw [cpuIdArm, cpuIdEntries,
    cpuIdLoop_cons hlines (by decide) h.implementer (number_hexadecimal ..),
    cpuIdLoop_cons hlines (by decide) h.variant (number_hexadecimal ..),
    cpuIdLoop_cons hlines (by decide) h.part (number_hexadecimal ..),
    cpuIdLoop_cons hlines (by decide) h.revision (number_decimal rfl _), cpuIdLoop]
  -- of the four entries the others have no bits where one has its own
  refine ⟨_, rfl, ?_, ?_, ?_, ?_, ?_⟩ <;>
    simp (disch := decide) only [BitVec.zero_or, BitVec.or_zero, BitVec.extractLsb'_or,
      CpuIdEntry.extractLsb'_bits_of_apart]
  · exact CpuIdEntry.extractLsb'_bits (by decide) (by decide)
  · exact CpuIdEntry.extractLsb'_bits (by decide) (by decide)
  · rfl
  · exact CpuIdEntry.extractLsb'_bits (by decide) (by decide)
  · exact CpuIdEntry.extractLsb'_bits (by decide) (by decide)

end Fields

end CpuInfo

end Libuzi
