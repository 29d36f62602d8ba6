import Libuzi.File.Path
import Libuzi.Numerals
import Mathlib.Data.List.TakeWhile
import Mathlib.Tactic.Ring

/-!
# Lists of processors

On Android `libuzi/cpu-features.c` reads which processors there are from two files of the kernel,
each of which holds one line such as `0-3,6`. `cpulist_parse` turns it into a mask of 32 bits.

The loop of `cpulist_parse` goes from comma to comma, and in each item looks for a number, perhaps a
dash and another number; what comes after that is passed over. It ends at the first item that does
not begin with a number, and so does the list when the line does. So the mask has a bit for each
number below 32 that is in one of the ranges up to there (`CpuList.cpulistParse_eq`).

The comparison `val <= end_value` is always true if `end_value` is the greatest `int`. Such a
range is the only thing that keeps `cpulist_parse` from returning.
-/

namespace Libuzi

open Libuzi.Path Numerals

namespace CpuList

/-! ### The functions -/

/-- `','`. -/
def comma : UInt8 := 0x2C

/-- `'-'`. -/
def dash : UInt8 := 0x2D

/-- `'\n'`. -/
def newline : UInt8 := 0x0A

/-- The digit that a character is, in the bases up to 16. -/
def charValue (c : UInt8) : Option ℕ :=
  if (c - 0x30).toNat < 10 then some (c - 0x30).toNat
  else if (c - 0x61).toNat < 6 then some ((c - 0x61).toNat + 10)
  else if (c - 0x41).toNat < 6 then some ((c - 0x41).toNat + 10)
  else none

/-- The loop of `parse_number`: the value, and what is left of the input. -/
def parseLoop (base : ℕ) : BitVec 32 → Str → BitVec 32 × Str
  | val, [] => (val, [])
  | val, c :: cs =>
    match charValue c with
    | none => (val, c :: cs)
    | some d =>
      if base ≤ d then (val, c :: cs)
      else parseLoop base (val * BitVec.ofNat 32 base + BitVec.ofNat 32 d) cs

/-- **`parse_number`**: the value, and what is left of the input; `NULL` if there is no digit. An
`int` that overflows wraps around. -/
def parseNumber (base : ℕ) (input : Str) : Option (BitVec 32 × Str) :=
  let r := parseLoop base 0 input
  if r.2.length = input.length then none else some r

/-- `parse_decimal`. -/
def parseDecimal (input : Str) : Option (BitVec 32 × Str) := parseNumber 10 input

/-- `cpulist_set`. -/
def cpulistSet (mask index : BitVec 32) : BitVec 32 :=
  if index.toNat < 32 then mask ||| 1#32 <<< index.toNat else mask

/-- The loop that sets the bits of an item, at `val`: the mask when it ends, if it does so in less
than `n` turns. -/
def setLoop (endValue : BitVec 32) : ℕ → BitVec 32 → BitVec 32 → Option (BitVec 32)
  | 0, _, _ => none
  | n + 1, val, mask =>
    if val.sle endValue then setLoop endValue n (val + 1) (cpulistSet mask val) else some mask

/-- The first and the last value of an item. -/
def parseItem (item : Str) : Option (BitVec 32 × BitVec 32) :=
  match parseDecimal item with
  | none => none
  | some (startValue, p) =>
    match p with
    | [] => some (startValue, startValue)
    | c :: p' =>
      if c = dash then (parseDecimal p').map fun r => (startValue, r.1)
      else some (startValue, startValue)

/-- The loop of `cpulist_parse`. Each turn but the last comes past a character, so the first
argument may be the length of the line. A range that does not end in `2 ^ 32` turns does not
end. -/
def parseList : ℕ → BitVec 32 → Str → Option (BitVec 32)
  | _, mask, [] => some mask
  | 0, _, _ => none
  | n + 1, mask, c :: cs =>
    if c = newline then some mask
    else
      let q := (c :: cs).dropWhile (· != comma)
      match parseItem ((c :: cs).takeWhile (· != comma)) with
      | none => some mask
      | some (startValue, endValue) =>
        (setLoop endValue (2 ^ 32) startValue mask).bind fun mask => parseList n mask (q.drop 1)

/-- **`cpulist_parse`**: the mask afterwards, if it returns. -/
def cpulistParse (mask : BitVec 32) (line : Str) : Option (BitVec 32) :=
  parseList line.length mask line

/-! ### What a line says -/

/-- `INT_MAX`. -/
def intMax : BitVec 32 := 0x7FFFFFFF#32

/-- The entries before the first that is missing. -/
def leading {α : Type*} : List (Option α) → List α
  | some a :: l => a :: leading l
  | _ => []

/-- **The ranges of a line**: those of the items between the commas, up to the first that is not a
number or two with a dash between them, such as `x` or `3-x`. What comes after the last number of an
item is not looked at. -/
noncomputable def ranges (line : Str) : List (BitVec 32 × BitVec 32) :=
  leading ((line.splitOn comma).map parseItem)

/-- The number is in the range. -/
def InRange (r : BitVec 32 × BitVec 32) (i : ℕ) : Prop := r.1.toInt ≤ i ∧ (i : ℤ) ≤ r.2.toInt

/-- All the ranges, one after the other. -/
def setRanges : BitVec 32 → List (BitVec 32 × BitVec 32) → Option (BitVec 32)
  | mask, [] => some mask
  | mask, r :: rs => (setLoop r.2 (2 ^ 32) r.1 mask).bind fun mask => setRanges mask rs

section Parse

variable {mask m val endValue : BitVec 32} {line item : Str} {i n : ℕ}

/-! ### One range -/

theorem getLsbD_cpulistSet (hi : i < 32) :
    (cpulistSet mask val).getLsbD i = true ↔ mask.getLsbD i = true ∨ val.toInt = i := by
  have hval : val.toInt = i ↔ val.toNat = i := by
    rw [BitVec.toInt_eq_toNat_cond]
    split <;> omega
  rw [hval, cpulistSet]
  split
  case isTrue hlt =>
    rw [BitVec.getLsbD_or, Bool.or_eq_true, BitVec.getLsbD_shiftLeft]
    refine or_congr_right ?_
    simp only [hi, decide_true, Bool.true_and, Bool.and_eq_true, Bool.not_eq_true',
      decide_eq_false_iff_not, BitVec.getLsbD_one, Nat.zero_lt_succ, decide_eq_true_iff]
    omega
  case isFalse hge =>
    refine ⟨.inl, fun h => h.resolve_right fun heq => ?_⟩
    omega

variable (mask val) in
/-- **A range that ends before the greatest `int`** sets the bits that are in it. -/
theorem setLoop_eq_some (hend : endValue ≠ intMax) (hn : endValue.toInt + 1 < val.toInt + n)
    (hpos : 0 < n) : ∃ m, setLoop endValue n val mask = some m ∧
      ∀ i < 32, m.getLsbD i = true ↔ mask.getLsbD i = true ∨ InRange (val, endValue) i := by
  induction n generalizing val mask with
  | zero => exact absurd hpos (Nat.lt_irrefl 0)
  | succ n ih =>
    rw [setLoop]
    split
    case isTrue hle =>
      have hle' : val.toInt ≤ endValue.toInt := by simpa [BitVec.sle] using hle
      have hlt : endValue.toInt < 2147483647 := by
        have hne : endValue.toInt ≠ intMax.toInt := fun h => hend (BitVec.eq_of_toInt_eq h)
        have hbound := BitVec.toInt_lt (x := endValue)
        rw [show intMax.toInt = 2147483647 from rfl] at hne
        norm_num at hbound
        omega
      have hnext : (val + 1).toInt = val.toInt + 1 := by
        have hlow := BitVec.le_toInt (x := val)
        norm_num at hlow
        rw [BitVec.toInt_add, show (1 : BitVec 32).toInt = 1 from rfl]
        exact Int.bmod_eq_of_le (by omega) (by omega)
      obtain ⟨m, hm, hbits⟩ := ih (cpulistSet mask val) (val + 1)
        (by rw [hnext]; push_cast at hn; omega) (by push_cast at hn; omega)
      refine ⟨m, hm, fun i hi => ?_⟩
      rw [hbits i hi, getLsbD_cpulistSet hi, or_assoc]
      refine or_congr_right ?_
      simp only [InRange, hnext]
      omega
    case isFalse hgt =>
      have hgt' : endValue.toInt < val.toInt := by simpa [BitVec.sle] using hgt
      refine ⟨mask, rfl, fun i _ => ⟨.inl, fun h => h.resolve_right fun hin => ?_⟩⟩
      obtain ⟨hfirst, hlast⟩ : val.toInt ≤ i ∧ (i : ℤ) ≤ endValue.toInt := hin
      omega

/-- **A range up to the greatest `int` does not end.** -/
theorem setLoop_intMax : setLoop intMax n val mask = none := by
  induction n generalizing val mask with
  | zero => rfl
  | succ n ih =>
    have hle : val.sle intMax = true := by
      have hbound := BitVec.toInt_lt (x := val)
      norm_num at hbound
      have hmax : intMax.toInt = 2147483647 := rfl
      simp only [BitVec.sle, decide_eq_true_iff]
      omega
    rw [setLoop, if_pos hle]
    exact ih

/-! ### A line, item by item -/

theorem parseItem_nil : parseItem [] = none := rfl

theorem parseItem_newline (s : Str) : parseItem (newline :: s) = none := by
  have hloop : parseLoop 10 0 (newline :: s) = (0, newline :: s) := rfl
  rw [parseItem, parseDecimal, parseNumber, hloop, if_pos rfl]

/-- The items of a line: the first one, and those after the comma if there is one. -/
theorem splitOn_line (line : Str) :
    line.splitOn comma = [line.takeWhile (· != comma)] ∧ line.dropWhile (· != comma) = [] ∨
      ∃ rest, line.dropWhile (· != comma) = comma :: rest ∧
        line.splitOn comma = line.takeWhile (· != comma) :: rest.splitOn comma := by
  have hmem : comma ∉ line.takeWhile (· != comma) := fun h => by
    simpa using List.mem_takeWhile_imp h
  have hline := List.takeWhile_append_dropWhile (p := (· != comma)) (l := line)
  cases hdrop : line.dropWhile (· != comma) with
  | nil =>
    rw [hdrop, List.append_nil] at hline
    rw [hline] at hmem ⊢
    exact .inl ⟨List.splitOn_eq_singleton hmem, rfl⟩
  | cons c rest =>
    have hc : c = comma := by
      have hhead := List.head_dropWhile_not (· != comma) (w := by rw [hdrop]; exact nofun)
      simpa [hdrop] using hhead
    subst hc
    refine .inr ⟨rest, rfl, ?_⟩
    conv_lhs => rw [← hline, hdrop]
    exact List.splitOn_append_cons_self_of_not_mem hmem rest

theorem parseList_nil : parseList n mask [] = some mask := by
  cases n <;> rfl

/-- **The loop takes the items one after the other.** -/
theorem parseList_eq (hn : line.length ≤ n) :
    parseList n mask line = setRanges mask (ranges line) := by
  induction n generalizing mask line with
  | zero =>
    rw [List.eq_nil_of_length_eq_zero (Nat.le_zero.mp hn), parseList, ranges,
      List.splitOn_nil, List.map_singleton, parseItem_nil, leading, setRanges]
    exact nofun
  | succ n ih =>
    cases line with
    | nil =>
      rw [parseList, ranges, List.splitOn_nil, List.map_singleton, parseItem_nil, leading,
        setRanges]
      exact nofun
    | cons c cs =>
      -- the first item, which is all there is if the loop ends here
      have hlast : parseItem ((c :: cs).takeWhile (· != comma)) = none →
          ranges (c :: cs) = [] := by
        intro hnone
        rcases splitOn_line (c :: cs) with ⟨hsplit, -⟩ | ⟨rest, -, hsplit⟩ <;>
          rw [ranges, hsplit, List.map_cons, hnone, leading] <;> exact nofun
      rw [parseList]
      split
      case isTrue hnewline =>
        subst hnewline
        rw [hlast (by rw [List.takeWhile_cons_of_pos (by decide)]; exact parseItem_newline _),
          setRanges]
      case isFalse =>
        split
        case h_1 hitem => rw [hlast hitem, setRanges]
        case h_2 startValue endValue hitem =>
          rcases splitOn_line (c :: cs) with ⟨hsplit, hdrop⟩ | ⟨rest, hdrop, hsplit⟩
          · rw [ranges, hsplit, hdrop, List.map_singleton, hitem]
            change
              (setLoop endValue (2 ^ 32) startValue mask).bind (fun mask => parseList n mask []) =
                (setLoop endValue (2 ^ 32) startValue mask).bind fun mask => some mask
            exact congrArg _ (funext fun mask => parseList_nil)
          · have hlength : rest.length ≤ n := by
              have hle := (List.dropWhile_sublist (· != comma) (l := c :: cs)).length_le
              rw [hdrop, List.length_cons] at hle
              exact Nat.le_of_succ_le_succ (hle.trans hn)
            rw [ranges, hsplit, hdrop, List.map_cons, hitem]
            change (setLoop endValue (2 ^ 32) startValue mask).bind
                (fun mask => parseList n mask rest) =
              (setLoop endValue (2 ^ 32) startValue mask).bind fun mask =>
                setRanges mask (ranges rest)
            exact congrArg _ (funext fun mask => ih hlength)

variable (mask) in
/-- All the ranges, if none of them goes up to the greatest `int`. -/
theorem setRanges_eq_some {rs : List (BitVec 32 × BitVec 32)} (hrs : ∀ r ∈ rs, r.2 ≠ intMax) :
    ∃ m, setRanges mask rs = some m ∧ ∀ i < 32, m.getLsbD i = true ↔
      mask.getLsbD i = true ∨ ∃ r ∈ rs, InRange r i := by
  induction rs generalizing mask with
  | nil => exact ⟨mask, rfl, fun i _ => by simp⟩
  | cons r rs ih =>
    have hlow := BitVec.le_toInt (x := r.1)
    have hhigh := BitVec.toInt_lt (x := r.2)
    have hne : r.2.toInt ≠ intMax.toInt := fun h =>
      hrs r List.mem_cons_self (BitVec.eq_of_toInt_eq h)
    rw [show intMax.toInt = 2147483647 from rfl] at hne
    norm_num at hlow hhigh
    obtain ⟨m, hm, hbits⟩ := setLoop_eq_some mask r.1 (hrs r List.mem_cons_self)
      (n := 2 ^ 32) (by push_cast; omega) (by decide)
    obtain ⟨m', hm', hbits'⟩ := ih m fun r' hr' => hrs r' (List.mem_cons_of_mem r hr')
    refine ⟨m', by rw [setRanges, hm]; exact hm', fun i hi => ?_⟩
    rw [hbits' i hi, hbits i hi, or_assoc, List.exists_mem_cons_iff]

/-- One that does stops everything. -/
theorem setRanges_eq_none {rs : List (BitVec 32 × BitVec 32)} (hrs : ∃ r ∈ rs, r.2 = intMax) :
    setRanges mask rs = none := by
  induction rs generalizing mask with
  | nil =>
    obtain ⟨r, hr, -⟩ := hrs
    cases hr
  | cons r rs ih =>
    rw [setRanges]
    by_cases hr : r.2 = intMax
    · rw [hr, setLoop_intMax]
      rfl
    · have hrest : ∃ r ∈ rs, r.2 = intMax := by
        obtain ⟨r', hr', hmax⟩ := hrs
        rcases List.mem_cons.mp hr' with rfl | hmem
        · exact absurd hmax hr
        · exact ⟨r', hmem, hmax⟩
      cases setLoop r.2 (2 ^ 32) r.1 mask with
      | none => rfl
      | some m => exact ih hrest

/-- **What `cpulist_parse` does**, with every text: it returns if and only if none of the ranges of
the line goes up to the greatest `int`, and then it has set the bits of the numbers below 32 that
are in one of the ranges, and no others. -/
theorem cpulistParse_eq (mask : BitVec 32) (line : Str) :
    ((cpulistParse mask line).isSome ↔ ∀ r ∈ ranges line, r.2 ≠ intMax) ∧
      ∀ m ∈ cpulistParse mask line, ∀ i < 32, m.getLsbD i = true ↔
        mask.getLsbD i = true ∨ ∃ r ∈ ranges line, InRange r i := by
  have heq : cpulistParse mask line = setRanges mask (ranges line) := parseList_eq le_rfl
  by_cases hall : ∀ r ∈ ranges line, r.2 ≠ intMax
  · obtain ⟨m, hm, hbits⟩ := setRanges_eq_some mask hall
    rw [heq, hm]
    refine ⟨iff_of_true rfl hall, fun m' hm' => ?_⟩
    obtain rfl := Option.some.inj hm'
    exact hbits
  · have hnone : setRanges mask (ranges line) = none :=
      setRanges_eq_none (by simpa only [not_forall, exists_prop, not_not] using hall)
    rw [heq, hnone]
    exact ⟨iff_of_false nofun hall, nofun⟩

end Parse

end CpuList

end Libuzi
