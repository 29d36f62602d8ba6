import Libuzi.Android.CpuList
import Mathlib.Data.Finset.Card
import Mathlib.Tactic.IntervalCases

/-!
# How many processors there are

`get_cpu_count` of `libuzi/cpu-features.c` reads the processors that are present and those that are
possible from two files of the kernel, and counts those that are in both lists.

A file is read in pieces, of whatever size the kernel likes, and a read may be interrupted; this
makes no difference, as long as no read fails (`CpuList.readLoop_eq`). The buffer is of 64 bytes.
What the kernel writes is read back (`CpuList.ranges_lineOf`), so for two lists that fit into the
buffer the result is the number of processors below 32 that are in both
(`CpuList.getCpuCount_lineOf`).
-/

namespace Libuzi

open Libuzi.Path Numerals

namespace CpuList

/-! ### The functions -/

/-- What `read` does. -/
inductive Answer
  /-- It fails with `EINTR`. -/
  | interrupted
  /-- It fails with another error. -/
  | error
  /-- It delivers at most one byte more than this. -/
  | bytes (n : ℕ)
  deriving DecidableEq

/-- The loop of `read_file`: what is returned, if the answers are enough for it to end. -/
def readLoop (content : Str) (buffsize : ℕ) : ℕ → List Answer → Option ℤ
  | count, [] => if buffsize ≤ count then some count else none
  | count, answer :: answers =>
    if buffsize ≤ count then some count
    else
      match answer with
      | .interrupted => readLoop content buffsize count answers
      | .error => some (if count = 0 then -1 else count)
      | .bytes n =>
        let ret := min (n + 1) (min (buffsize - count) (content.length - count))
        if ret = 0 then some count else readLoop content buffsize (count + ret) answers

/-- **`read_file`**; a file that cannot be opened is `none`. -/
def readFile (file : Option Str) (buffsize : ℕ) (answers : List Answer) : Option ℤ :=
  match file with
  | none => some (-1)
  | some content => readLoop content buffsize 0 answers

/-- **`cpulist_read_from`**, which leaves the mask at zero when it cannot read the file. -/
def cpulistReadFrom (file : Option Str) (answers : List Answer) : Option (BitVec 32) :=
  (readFile file 64 answers).bind fun filelen =>
    if filelen < 0 then some 0 else cpulistParse 0 ((file.getD []).take filelen.toNat)

/-- `cpulist_count`. -/
def cpulistCount (mask : BitVec 32) : ℕ := (List.range 32).countP fun i => mask.getLsbD i

/-- **`get_cpu_count`**. -/
def getCpuCount (present possible : Option Str) (answers answers' : List Answer) : Option ℕ :=
  (cpulistReadFrom present answers).bind fun cpusPresent =>
    (cpulistReadFrom possible answers').map fun cpusPossible =>
      cpulistCount (cpusPresent &&& cpusPossible)

/-! ### What the kernel writes -/

/-- A number in decimal digits. -/
def decimal (n : ℕ) : Str := (numeral 10 n).map fun d => UInt8.ofNat (0x30 + d)

/-- One item of a list. -/
inductive Item
  /-- A processor. -/
  | single (n : ℕ)
  /-- The processors from one to another. -/
  | range (first last : ℕ)
  deriving DecidableEq

/-- The first and the last processor of an item. -/
def Item.bounds : Item → ℕ × ℕ
  | .single n => (n, n)
  | .range first last => (first, last)

/-- The processor is in the item. -/
def Item.Contains (item : Item) (i : ℕ) : Prop := item.bounds.1 ≤ i ∧ i ≤ item.bounds.2

instance (item : Item) (i : ℕ) : Decidable (item.Contains i) := inferInstanceAs (Decidable (_ ∧ _))

/-- How an item is written. -/
def Item.text : Item → Str
  | .single n => decimal n
  | .range first last => decimal first ++ dash :: decimal last

/-- **How a list is written.** -/
def lineOf : List Item → Str
  | [] => [newline]
  | [item] => item.text ++ [newline]
  | item :: items => item.text ++ comma :: lineOf items

/-- No processor has a number as great as the greatest `int`. -/
def Item.Small (item : Item) : Prop := item.bounds.1 < 2 ^ 31 - 1 ∧ item.bounds.2 < 2 ^ 31 - 1

instance (item : Item) : Decidable item.Small := inferInstanceAs (Decidable (_ ∧ _))

/-- The processor is in the list. -/
def Listed (items : List Item) (i : ℕ) : Prop := ∃ item ∈ items, item.Contains i

instance (items : List Item) (i : ℕ) : Decidable (Listed items i) :=
  inferInstanceAs (Decidable (∃ item ∈ items, item.Contains i))

section Count

variable {base v n i count buffsize : ℕ} {s rest content : Str} {item : Item}
  {items present possible : List Item} {answers answers' : List Answer}

/-! ### Numbers -/

/-- The digits of the base. -/
def below (base : ℕ) (c : UInt8) : Option ℕ := (charValue c).filter fun d => d < base

/-- **The loop of `parse_number` reads a numeral**, modulo `2 ^ 32`. -/
theorem parseLoop_eq : parseLoop base (BitVec.ofNat 32 v) s =
    (BitVec.ofNat 32 (value base v (scan (below base) s).1), (scan (below base) s).2) := by
  induction s generalizing v with
  | nil => rfl
  | cons c cs ih =>
    rw [parseLoop, scan]
    cases hc : charValue c with
    | none =>
      have hnone : below base c = none := by rw [below, hc]; rfl
      rw [hnone]
      rfl
    | some d =>
      by_cases hd : d < base
      · have hsome : below base c = some d := by
          rw [below, hc, Option.filter_some, if_pos (by simpa using hd)]
        rw [hsome]
        dsimp only
        rw [if_neg (Nat.not_le.mpr hd), value, ← ih]
        refine congrArg (fun v => parseLoop base v cs) ?_
        rw [BitVec.ofNat_add, BitVec.ofNat_mul]
      · have hnone : below base c = none := by
          rw [below, hc, Option.filter_some, if_neg (by simpa using hd)]
        rw [hnone]
        dsimp only
        rw [if_pos (Nat.not_lt.mp hd)]
        rfl

theorem below_digit {d : ℕ} (hd : d < 10) : below 10 (UInt8.ofNat (0x30 + d)) = some d := by
  interval_cases d <;> rfl

/-- **`parse_number` reads digits** up to the first character that is none. -/
theorem parseNumber_map {write : ℕ → UInt8} {ds : List ℕ} (hne : ds ≠ [])
    (hds : ∀ d ∈ ds, below base (write d) = some d)
    (hrest : ∀ c ∈ rest.head?, below base c = none) :
    parseNumber base (ds.map write ++ rest) = some (BitVec.ofNat 32 (value base 0 ds), rest) := by
  have hloop : parseLoop base 0 (ds.map write ++ rest) =
      (BitVec.ofNat 32 (value base 0 ds), rest) := by
    rw [show (0 : BitVec 32) = BitVec.ofNat 32 0 from rfl, parseLoop_eq, scan_map_append hds hrest]
  have hlength : rest.length ≠ (ds.map write ++ rest).length := by
    have hpos := List.length_pos_of_ne_nil hne
    rw [List.length_append, List.length_map]
    omega
  rw [parseNumber, hloop, if_neg hlength]

/-- **A number is read back.** -/
theorem parseDecimal_decimal (hrest : ∀ c ∈ rest.head?, below 10 c = none) :
    parseDecimal (decimal n ++ rest) = some (BitVec.ofNat 32 n, rest) := by
  rw [parseDecimal, decimal, parseNumber_map numeral_ne_nil
    (fun d hd => below_digit (lt_of_mem_numeral (by decide) hd)) hrest, value_numeral]

/-! ### Lists -/

theorem notMem_decimal {c : UInt8} (hc : ∀ d < 10, UInt8.ofNat (0x30 + d) ≠ c) : c ∉ decimal n := by
  intro hmem
  obtain ⟨d, hd, rfl⟩ := List.mem_map.mp hmem
  exact hc d (lt_of_mem_numeral (by decide) hd) rfl

theorem comma_notMem_text (item : Item) : comma ∉ item.text := by
  have hdecimal : ∀ n, comma ∉ decimal n := fun n => notMem_decimal (by decide)
  cases item with
  | single n => exact hdecimal n
  | range first last =>
    rw [Item.text, List.mem_append, List.mem_cons]
    rintro (h | h | h)
    · exact hdecimal first h
    · cases h
    · exact hdecimal last h

/-- What an item is read as. -/
def Item.pair (item : Item) : BitVec 32 × BitVec 32 :=
  (BitVec.ofNat 32 item.bounds.1, BitVec.ofNat 32 item.bounds.2)

/-- **An item is read back**, at the end of the line as well. -/
theorem parseItem_text (item : Item) (hrest : ∀ c ∈ rest.head?, c = newline) :
    parseItem (item.text ++ rest) = some item.pair := by
  have hdigit : ∀ c ∈ rest.head?, below 10 c = none := by
    intro c hc
    rw [hrest c hc]
    rfl
  cases item with
  | single n =>
    rw [Item.text, parseItem, parseDecimal_decimal hdigit]
    cases rest with
    | nil => rfl
    | cons c cs =>
      have hc : c ≠ dash := by
        rw [hrest c rfl]
        decide
      dsimp only
      rw [if_neg hc]
      rfl
  | range first last =>
    have hdash : ∀ c ∈ (dash :: (decimal last ++ rest)).head?, below 10 c = none := by
      intro c hc
      obtain rfl := Option.some.inj hc
      rfl
    rw [Item.text, List.append_assoc, List.cons_append, parseItem, parseDecimal_decimal hdash]
    dsimp only
    rw [if_pos rfl, parseDecimal_decimal hdigit]
    rfl

/-- **A list is read back.** -/
theorem ranges_lineOf (items : List Item) : ranges (lineOf items) = items.map Item.pair := by
  induction items with
  | nil =>
    rw [ranges, lineOf, List.splitOn_eq_singleton (by decide), List.map_singleton,
      parseItem_newline, leading]
    · rfl
    · intro _ _ h
      cases h
  | cons item items ih =>
    cases items with
    | nil =>
      have hmem : comma ∉ item.text ++ [newline] := by
        rw [List.mem_append, List.mem_singleton]
        rintro (h | h)
        · exact comma_notMem_text item h
        · cases h
      rw [ranges, lineOf, List.splitOn_eq_singleton hmem, List.map_singleton,
        parseItem_text item (by simp)]
      rfl
    | cons item' items =>
      have hitem : parseItem (item.text ++ []) = some item.pair := parseItem_text item (by simp)
      rw [List.append_nil] at hitem
      rw [ranges, lineOf, List.splitOn_append_cons_self_of_not_mem (comma_notMem_text item),
        List.map_cons, hitem, leading, List.map_cons, ← ih, ranges]
      intro h
      cases h

theorem inRange_pair (hsmall : item.Small) : InRange item.pair i ↔ item.Contains i := by
  have htoInt : ∀ n < 2 ^ 31 - 1, (BitVec.ofNat 32 n).toInt = n := by
    intro n hn
    rw [BitVec.toInt_eq_toNat_of_lt] <;> rw [BitVec.toNat_ofNat, Nat.mod_eq_of_lt] <;> omega
  rw [InRange, Item.pair, htoInt _ hsmall.1, htoInt _ hsmall.2, Item.Contains, Nat.cast_le,
    Nat.cast_le]

/-- **The mask of a list**: what the kernel has written is what is read. -/
theorem cpulistParse_lineOf (hsmall : ∀ item ∈ items, item.Small) :
    ∃ m, cpulistParse 0 (lineOf items) = some m ∧
      ∀ i < 32, m.getLsbD i = true ↔ Listed items i := by
  have hend : ∀ r ∈ ranges (lineOf items), r.2 ≠ intMax := by
    rw [ranges_lineOf]
    rintro r hr hmax
    obtain ⟨item, hitem, rfl⟩ := List.mem_map.mp hr
    have hlt := (hsmall item hitem).2
    have hnat := congrArg BitVec.toNat hmax
    rw [Item.pair, BitVec.toNat_ofNat, Nat.mod_eq_of_lt (by omega)] at hnat
    exact absurd hnat (Nat.ne_of_lt hlt)
  obtain ⟨m, hm, hbits⟩ := setRanges_eq_some 0 hend
  refine ⟨m, (parseList_eq le_rfl).trans hm, fun i hi => ?_⟩
  rw [hbits i hi, ranges_lineOf]
  constructor
  · rintro (h | ⟨r, hr, hin⟩)
    · simp at h
    · obtain ⟨item, hitem, rfl⟩ := List.mem_map.mp hr
      exact ⟨item, hitem, (inRange_pair (hsmall item hitem)).mp hin⟩
  · rintro ⟨item, hitem, hin⟩
    exact .inr ⟨item.pair, List.mem_map_of_mem hitem, (inRange_pair (hsmall item hitem)).mpr hin⟩

/-! ### Reading -/

/-- No read fails, and there are so many that deliver something or come to the end of the file that
they fill the buffer. -/
structure Delivers (buffsize : ℕ) (answers : List Answer) : Prop where
  /-- No read fails. -/
  ok : .error ∉ answers
  /-- There are enough of them. -/
  enough : buffsize < answers.countP (· != .interrupted)

/-- **How the file is cut into pieces makes no difference**: the beginning of the file is read. -/
theorem readLoop_eq (hok : .error ∉ answers) (hcount : count ≤ min buffsize content.length)
    (henough : buffsize - count < answers.countP (· != .interrupted)) :
    readLoop content buffsize count answers = some ↑(min buffsize content.length) := by
  induction answers generalizing count with
  | nil => exact absurd henough (Nat.not_lt_zero _)
  | cons answer answers ih =>
    have hok' : .error ∉ answers := fun h => hok (List.mem_cons_of_mem answer h)
    rw [readLoop.eq_def]
    dsimp only
    split
    case isTrue hfull =>
      refine congrArg some (congrArg _ ?_)
      omega
    case isFalse hroom =>
      cases answer with
      | interrupted =>
        rw [List.countP_cons_of_neg (by decide)] at henough
        exact ih hok' hcount henough
      | error => exact absurd List.mem_cons_self hok
      | bytes n =>
        rw [List.countP_cons_of_pos rfl] at henough
        dsimp only
        split
        case isTrue hend =>
          refine congrArg some (congrArg _ ?_)
          omega
        case isFalse hread => exact ih hok' (by omega) (by omega)

theorem cpulistReadFrom_lineOf (hfits : (lineOf items).length ≤ 64)
    (hanswers : Delivers 64 answers) :
    cpulistReadFrom (some (lineOf items)) answers = cpulistParse 0 (lineOf items) := by
  have hread : readFile (some (lineOf items)) 64 answers = some ↑(lineOf items).length := by
    rw [readFile, readLoop_eq hanswers.ok (Nat.zero_le _) hanswers.enough, Nat.min_eq_right hfits]
  rw [cpulistReadFrom, hread, Option.bind_some, if_neg (by omega), Option.getD_some,
    Int.toNat_natCast, List.take_length]

/-- **The number of processors** is that of those below 32 that are in both lists, for any two lists
that fit into the buffer and however they are read. -/
theorem getCpuCount_lineOf (hpresent : ∀ item ∈ present, item.Small)
    (hpossible : ∀ item ∈ possible, item.Small) (hfits : (lineOf present).length ≤ 64)
    (hfits' : (lineOf possible).length ≤ 64) (hanswers : Delivers 64 answers)
    (hanswers' : Delivers 64 answers') :
    getCpuCount (some (lineOf present)) (some (lineOf possible)) answers answers' =
      some ((Finset.range 32).filter fun i => Listed present i ∧ Listed possible i).card := by
  obtain ⟨m, hm, hbits⟩ := cpulistParse_lineOf hpresent
  obtain ⟨m', hm', hbits'⟩ := cpulistParse_lineOf hpossible
  rw [getCpuCount, cpulistReadFrom_lineOf hfits hanswers, hm, Option.bind_some,
    cpulistReadFrom_lineOf hfits' hanswers', hm', Option.map_some, cpulistCount]
  have hcard : ((Finset.range 32).filter fun i => Listed present i ∧ Listed possible i).card =
      (List.range 32).countP fun i => decide (Listed present i ∧ Listed possible i) := by
    rw [Finset.card_def, Finset.filter_val, ← Multiset.countP_eq_card_filter]
    exact Multiset.coe_countP _ _
  rw [hcard]
  refine congrArg some (List.countP_congr fun i hi => ?_)
  have hlt := List.mem_range.mp hi
  rw [BitVec.getLsbD_and, Bool.and_eq_true, hbits i hlt, hbits' i hlt, decide_eq_true_iff]

end Count

/-- Of the processors `0-3,6` and `0-7`, read byte by byte and all at once, five are in both. -/
theorem getCpuCount_lineOf_five :
    getCpuCount (some (lineOf [.range 0 3, .single 6])) (some (lineOf [.range 0 7]))
      (.interrupted :: List.replicate 65 (.bytes 0)) (List.replicate 65 (.bytes 64)) = some 5 := by
  have hdelivers : ∀ n, Delivers 64 (.interrupted :: List.replicate 65 (.bytes n)) :=
    fun n => ⟨by simp, by simp⟩
  rw [getCpuCount_lineOf (by decide) (by decide) (by decide +kernel) (by decide +kernel)
    (hdelivers 0) ⟨by simp, by simp⟩]
  decide

end CpuList

end Libuzi
