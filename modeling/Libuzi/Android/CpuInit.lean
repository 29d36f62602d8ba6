import Libuzi.Android.CpuFeatures

/-!
# What `android_cpuInit` finds out

`android_cpuInit` reads `/proc/cpuinfo` twice, the first time to learn how long it is, counts the
processors, and looks for the features and the identification of the processor.

Whatever the kernel says, a set of features has with a feature those that
`libuzi/cpu-features.h` has it come with (`CpuFeatures.features_closed`).

If the kernel describes a processor in well-formed lines (`CpuFeatures.Reports`), then this
processor is what is found (`CpuFeatures.androidCpuInit_reports`). It makes no difference how the
files are cut into pieces, nor which of the three sources the hardware capabilities come from: for
a processor of the eighth architecture those that it must have are taken for granted, for an older
one the words of the field `Features` stand for the same capabilities as the bits of the others.
-/

namespace Libuzi

open Libuzi.Path Numerals Words CpuList CpuInfo Flags

namespace CpuFeatures

/-! ### The function -/

/-- The loop of `get_file_size`, with its buffer of 256 bytes: the size, if the answers are enough
for it to end. -/
def sizeLoop (content : Str) : ℕ → List Answer → Option ℕ
  | _, [] => none
  | result, answer :: answers =>
    match answer with
    | .interrupted => sizeLoop content result answers
    | .error => some result
    | .bytes n =>
      let ret := min (n + 1) (min 256 (content.length - result))
      if ret = 0 then some result else sizeLoop content (result + ret) answers

/-- What becomes of the calls to the kernel. -/
structure Reads where
  /-- The reads of `get_file_size`. -/
  size : List Answer
  /-- `malloc` returns a buffer. -/
  malloc : Bool
  /-- The reads of `/proc/cpuinfo` into the buffer. -/
  cpuinfo : List Answer
  /-- Those of the processors that are present. -/
  present : List Answer
  /-- Those of the processors that are possible. -/
  possible : List Answer

/-- What `android_cpuInit` finds out. -/
structure Globals where
  /-- `g_cpuFeatures`. -/
  cpuFeatures : BitVec 64
  /-- `g_cpuCount`. -/
  cpuCount : ℕ
  /-- `g_cpuIdArm`. -/
  cpuIdArm : BitVec 32
  deriving DecidableEq

/-- With nothing found out. -/
def Globals.unknown : Globals := ⟨0, 1, 0⟩

/-- **`android_cpuInit`** on ARM, if it returns and does not read past the end of its buffer. -/
def androidCpuInit (k : Kernel) (r : Reads) : Option Globals :=
  match k.cpuinfo with
  | none => some .unknown
  | some text =>
    (sizeLoop text 0 r.size).bind fun size =>
      if r.malloc then
        (readLoop text size 0 r.cpuinfo).bind fun cpuinfoLen =>
          if cpuinfoLen < 0 then some .unknown
          else
            (getCpuCount k.present k.possible r.present r.possible).bind fun count =>
              (armInit k (text.take cpuinfoLen.toNat)).map fun a =>
                ⟨a.1, if count = 0 then 1 else count, a.2⟩
      else some .unknown

/-! ### Features that come together -/

/-- What a feature comes with. -/
def requires : Feature → List Feature
  | .vfpv3 => [.vfpv2, .armv7]
  | .neon => [.vfpv3, .vfpD32]
  | .vfpD32 => [.vfpv3, .neon]
  | .vfpFp16 => [.vfpv3, .vfpFma]
  | .vfpFma => [.vfpv3, .vfpFp16]
  | .neonFma => [.neon, .vfpFma]
  | _ => []

theorem Supports.requires {p : Findings} {f g : Feature} (h : Supports p f)
    (hg : g ∈ requires f) : Supports p g := by
  cases f <;> simp only [CpuFeatures.requires, List.mem_cons, List.not_mem_nil, or_false] at hg
  case vfpv3 =>
    rcases hg with rfl | rfl
    · exact h.imp_left And.left
    · exact h.imp_left And.right
  case neon =>
    rcases hg with rfl | rfl
    · exact .inr (.inr (.inr (.inr h)))
    · exact h
  case vfpD32 =>
    rcases hg with rfl | rfl
    · exact .inr (.inr (.inr (.inr h)))
    · exact h
  case vfpFp16 =>
    rcases hg with rfl | rfl
    · exact .inr (.inr (.inr (.inl h)))
    · exact h
  case vfpFma =>
    rcases hg with rfl | rfl
    · exact .inr (.inr (.inr (.inl h)))
    · exact h
  case neonFma =>
    rcases hg with rfl | rfl
    · exact h.1
    · exact h.2

/-! ### What the kernel says of a processor -/

/-- A processor, as the kernel describes it. -/
structure Processor where
  /-- The number of the architecture. -/
  architecture : ℕ
  /-- What is written behind it. -/
  suffix : Str
  /-- The field `Processor`. -/
  processor : Option Str
  /-- The hardware capabilities. -/
  hwcap : BitVec 32
  /-- The others. -/
  hwcap2 : BitVec 32
  /-- The parts of the identification. -/
  implementer : ℕ
  variant : ℕ
  part : ℕ
  revision : ℕ
  /-- The field `Hardware`. -/
  hardware : Option Str

/-- What is to be found out about it, beside the identification. -/
def Processor.findings (p : Processor) (id : BitVec 32) : Findings where
  v7 := 7 ≤ p.architecture ∧ ∀ text ∈ p.processor, ascii "(v6l)" ∉ text.splitOnP isBlank
  v6 := 6 ≤ p.architecture
  cap := Has Hwcap.bit p.hwcap
  cap2 := Has Hwcap2.bit p.hwcap2
  fixed := id = 0x510006f2#32 ∨ id = 0x510006f3#32
  emulated := p.hardware = some (ascii "Goldfish") ∧ id = 0x4100c080#32

/-- The word for a capability in the field `Features`. -/
def Hwcap.name : Hwcap → Str
  | .vfp => ascii "vfp"
  | .iwmmxt => ascii "iwmmxt"
  | .neon => ascii "neon"
  | .vfpv3 => ascii "vfpv3"
  | .vfpv3d16 => ascii "vfpv3d16"
  | .vfpv4 => ascii "vfpv4"
  | .idiva => ascii "idiva"
  | .idivt => ascii "idivt"

/-- The words of a list, each with a blank behind it. -/
def wordsOf (items : List Str) : Str := items.flatMap fun item => item ++ [space]

/-- The words name the capabilities. -/
structure Lists (items : List Str) (hwcap : BitVec 32) : Prop where
  /-- They are words. -/
  isBlank : ∀ item ∈ items, ∀ c ∈ item, CpuInfo.isBlank c = false
  /-- Each capability has its name. -/
  names : ∀ c : Hwcap, c.name ∈ items ↔ Has Hwcap.bit hwcap c
  /-- This name stands for two of them. -/
  idiv : ascii "idiv" ∈ items → Has Hwcap.bit hwcap .idiva ∧ Has Hwcap.bit hwcap .idivt

/-- **The kernel describes the processor** in these lines. It may keep the hardware capabilities to
itself, but not change them. -/
structure Reports (k : Kernel) (p : Processor) (lines : List Line) : Prop where
  /-- The lines are as they should be. -/
  wellFormed : ∀ line ∈ lines, line.WellFormed
  /-- They are those of `/proc/cpuinfo`. -/
  cpuinfo : k.cpuinfo = some (textOf lines)
  /-- The architecture begins with its number. -/
  architecture : valueOf lines (ascii "CPU architecture") =
    some (decimal p.architecture ++ p.suffix)
  /-- Its number ends there. -/
  suffix : ∀ c ∈ p.suffix.head?, below 10 c = none
  /-- The field `Processor`. -/
  processor : valueOf lines (ascii "Processor") = p.processor
  /-- The field `Hardware`. -/
  hardware : valueOf lines (ascii "Hardware") = p.hardware
  /-- The identification is in its four fields. -/
  identification : Describes lines p.implementer p.variant p.part p.revision
  /-- An older processor has its capabilities listed. -/
  features : p.architecture < 8 →
    ∃ items, Lists items p.hwcap ∧ valueOf lines (ascii "Features") = some (wordsOf items)
  /-- A newer one has those that it must have. -/
  mandated : 8 ≤ p.architecture → ∀ c, Has Hwcap.bit p.hwcap c ↔ c ∈ hwcapSetForArmv8
  /-- `getauxval` says the same, or nothing. -/
  getauxval : k.getauxval 16 = 0 ∨ k.getauxval 16 = p.hwcap
  /-- So does `/proc/self/auxv`. -/
  auxv : hwcapFromAuxv k.auxv = 0 ∨ hwcapFromAuxv k.auxv = p.hwcap
  /-- The others come from `getauxval` alone. -/
  hwcap2 : k.getauxval 26 = p.hwcap2

section Init

variable {k : Kernel} {r : Reads} {s : Globals} {content text : Str} {answers : List Answer}
  {result n : ℕ} {f g : Feature} {p : Processor} {lines : List Line} {items : List Str}

/-- What is found out if anything is. -/
theorem init_cases (h : androidCpuInit k r = some s) : s = .unknown ∨
    ∃ cpuinfo a, armInit k cpuinfo = some a ∧ s.cpuFeatures = a.1 ∧ s.cpuIdArm = a.2 := by
  unfold androidCpuInit at h
  split at h
  case h_1 => exact .inl (Option.some.inj h).symm
  case h_2 text htext =>
    obtain ⟨size, -, h⟩ := Option.bind_eq_some_iff.mp h
    split at h
    case isTrue =>
      obtain ⟨len, -, h⟩ := Option.bind_eq_some_iff.mp h
      split at h
      case isTrue => exact .inl (Option.some.inj h).symm
      case isFalse =>
        obtain ⟨count, -, h⟩ := Option.bind_eq_some_iff.mp h
        obtain ⟨a, ha, rfl⟩ := Option.map_eq_some_iff.mp h
        exact .inr ⟨_, a, ha, rfl, rfl⟩
    case isFalse => exact .inl (Option.some.inj h).symm

/-- **Features come with those that they require**, whatever the kernel says and the reads
deliver. -/
theorem features_closed (h : androidCpuInit k r = some s) (hf : Has Feature.bit s.cpuFeatures f)
    (hg : g ∈ requires f) : Has Feature.bit s.cpuFeatures g := by
  rcases init_cases h with rfl | ⟨cpuinfo, a, ha, hs, -⟩
  · exact absurd hf not_has_zero
  · obtain ⟨features, hwcaps, hardware, -, -, -, -, hhas⟩ := has_armInit ha
    rw [hs, hhas] at hf ⊢
    exact hf.requires hg

/-! ### Words and numbers -/

/-- **A list of words is read back.** -/
theorem mem_wordsOf_iff {item : Str} (hne : item ≠ [])
    (hitems : ∀ item ∈ items, ∀ c ∈ item, isBlank c = false) :
    item ∈ (wordsOf items).splitOnP isBlank ↔ item ∈ items := by
  induction items with
  | nil => exact (List.mem_singleton.trans (iff_of_false hne List.not_mem_nil))
  | cons first items ih =>
    have htext : wordsOf (first :: items) = first ++ space :: wordsOf items := by
      rw [wordsOf, List.flatMap_cons, List.append_assoc]
      rfl
    rw [htext, List.splitOnP_append_cons_of_forall_mem (hitems first List.mem_cons_self) space rfl,
      List.mem_cons, List.mem_cons,
      ih fun item' hitem => hitems item' (List.mem_cons_of_mem first hitem)]

/-- The words stand for the capabilities. -/
theorem has_itemLoop {list : Option Str} {hwcaps : BitVec 32} {c : Hwcap}
    {es : List (Str × List Hwcap)} : Has Hwcap.bit (itemLoop list hwcaps es) c ↔
      Has Hwcap.bit hwcaps c ∨ ∃ e ∈ es, hasListItem list e.1 = true ∧ c ∈ e.2 := by
  induction es generalizing hwcaps with
  | nil => exact ⟨.inl, fun h => h.resolve_right fun ⟨_, he, _⟩ => List.not_mem_nil he⟩
  | cons e es ih =>
    rw [itemLoop, ih, Flags.has_setIf Hwcap.bit_injective Hwcap.bit_lt, List.exists_mem_cons_iff,
      or_assoc]

theorem Hwcap.name_ne_nil (c : Hwcap) : c.name ≠ [] := by
  cases c <;> decide

/-- Each capability has its item, and there is one more. -/
theorem mem_featureItems_iff {e : Str × List Hwcap} : e ∈ featureItems ↔
    e = (ascii "idiv", [.idiva, .idivt]) ∨ ∃ c : Hwcap, e = (c.name, [c]) := by
  constructor
  · have hnames : ∀ e ∈ featureItems, e = (ascii "idiv", [.idiva, .idivt]) ∨
        e ∈ [Hwcap.vfp, .iwmmxt, .neon, .vfpv3, .vfpv3d16, .vfpv4, .idiva, .idivt].map
          fun c => (c.name, [c]) := by decide
    refine fun he => (hnames e he).imp_right fun hname => ?_
    obtain ⟨c, -, rfl⟩ := List.mem_map.mp hname
    exact ⟨c, rfl⟩
  · rintro (rfl | ⟨c, rfl⟩)
    · decide
    · cases c <;> decide

/-- A number in decimal begins with a digit, which is neither blank nor a sign. -/
theorem exists_decimal_eq_cons (n : ℕ) : ∃ c cs, decimal n = c :: cs ∧ isSpace c = false ∧
    c ≠ 0x2B ∧ c ≠ 0x2D := by
  have hsign : ∀ d < 10, isSpace (UInt8.ofNat (0x30 + d)) = false ∧
      UInt8.ofNat (0x30 + d) ≠ 0x2B ∧ UInt8.ofNat (0x30 + d) ≠ 0x2D := by decide
  obtain ⟨d, ds, hds⟩ := List.exists_cons_of_ne_nil (numeral_ne_nil (b := 10) (n := n))
  have hdigit : d < 10 := lt_of_mem_numeral (by decide) (hds ▸ List.mem_cons_self)
  refine ⟨_, ds.map fun d => UInt8.ofNat (0x30 + d), ?_, hsign d hdigit⟩
  rw [decimal, hds, List.map_cons]

/-- **`strtol` reads a number back**, up to what a `long` can hold. -/
theorem strtol_decimal {rest : Str} (hrest : ∀ c ∈ rest.head?, below 10 c = none) :
    strtol (decimal n ++ rest) = some (min (2 ^ 31 - 1) (n : ℤ)) := by
  have hscan : scan (below 10) (decimal n ++ rest) = (numeral 10 n, rest) :=
    scan_map_append (fun d hd => below_digit (lt_of_mem_numeral (by decide) hd)) hrest
  obtain ⟨c, cs, hcs, hspace, hplus, hminus⟩ := exists_decimal_eq_cons n
  have hdrop : (decimal n ++ rest).dropWhile isSpace = decimal n ++ rest := by
    rw [hcs, List.cons_append,
      List.dropWhile_cons_of_neg (by rw [hspace]; exact Bool.false_ne_true)]
  have hhead : (decimal n ++ rest).head? = some c := by
    rw [hcs, List.cons_append, List.head?_cons]
  have hsign : ¬(some c = some 0x2B ∨ some c = some 0x2D) := by
    rintro (h | h)
    · exact hplus (Option.some.inj h)
    · exact hminus (Option.some.inj h)
  rw [strtol, hdrop, hhead, if_neg hsign, if_neg fun h => hminus (Option.some.inj h), hscan,
    if_neg numeral_ne_nil, value_numeral, max_eq_right (by omega)]

/-! ### Reading the description -/

/-- **The size of a file**, however it is cut into pieces. -/
theorem sizeLoop_eq (hok : .error ∉ answers) (hresult : result ≤ content.length)
    (henough : content.length - result < answers.countP (· != .interrupted)) :
    sizeLoop content result answers = some content.length := by
  induction answers generalizing result with
  | nil => exact absurd henough (Nat.not_lt_zero _)
  | cons answer answers ih =>
    have hok' : .error ∉ answers := fun h => hok (List.mem_cons_of_mem answer h)
    cases answer with
    | interrupted =>
      rw [sizeLoop]
      rw [List.countP_cons_of_neg (by decide)] at henough
      exact ih hok' hresult henough
    | error => exact absurd List.mem_cons_self hok
    | bytes n =>
      rw [List.countP_cons_of_pos rfl] at henough
      rw [sizeLoop]
      split
      case isTrue hend =>
        refine congrArg some ?_
        omega
      case isFalse hread => exact ih hok' (by omega) (by omega)

/-- The features of the architecture. -/
theorem Reports.archFeatures (h : Reports k p lines) (id : BitVec 32) :
    ∃ features, CpuFeatures.archFeatures (textOf lines) = some features ∧
      (Has Feature.bit features .armv7 ↔ (p.findings id).v7) ∧
      (Has Feature.bit features .ldrexStrex ↔ (p.findings id).v6) := by
  have hlegacy : ∀ list : Option Str, hasListItem list (ascii "(v6l)") = false ↔
      ∀ text ∈ list, ascii "(v6l)" ∉ text.splitOnP isBlank := by
    intro list
    cases list with
    | none => exact iff_of_true rfl nofun
    | some text =>
      rw [← Bool.not_eq_true, hasListItem_iff (by decide)]
      exact ⟨fun h _ hmem => Option.some.inj hmem ▸ h, fun h => h text rfl⟩
  rw [CpuFeatures.archFeatures, extractCpuinfoField_text (by decide) h.wellFormed, h.architecture,
    Option.bind_some]
  dsimp only
  rw [strtol_decimal h.suffix, extractCpuinfoField_text (by decide) h.wellFormed, h.processor,
    Option.getD_some, Option.isSome_some]
  -- no number that is compared with is cut off
  have h7 : (7 : ℤ) ≤ min (2 ^ 31 - 1) ↑p.architecture ↔ 7 ≤ p.architecture := by omega
  have h6 : (6 : ℤ) ≤ min (2 ^ 31 - 1) ↑p.architecture ↔ 6 ≤ p.architecture := by omega
  simp only [h7, h6, true_and, Option.map_some]
  split
  case isTrue h7 =>
    refine ⟨_, rfl, ?_, ?_⟩ <;> rw [has_setIf, has_setIf, or_iff_right not_has_zero]
    · simp only [List.mem_singleton, and_true, hlegacy, reduceCtorEq, and_false, or_false]
      exact (and_iff_right h7).symm
    · simp only [List.mem_singleton, and_true, reduceCtorEq, and_false, false_or]
      rfl
  case isFalse h7 =>
    refine ⟨_, rfl, ?_, ?_⟩ <;> rw [has_setIf, or_iff_right not_has_zero, List.mem_singleton]
    · exact iff_of_false (fun h => Feature.noConfusion h.2) fun h => h7 h.1
    · exact and_iff_left rfl

/-- The hardware capabilities, whichever source they come from. -/
theorem Reports.elfHwcap (h : Reports k p lines) :
    ∃ hwcaps, CpuFeatures.elfHwcap k (textOf lines) = some hwcaps ∧
      ∀ c, Has Hwcap.bit hwcaps c ↔ Has Hwcap.bit p.hwcap c := by
  rw [CpuFeatures.elfHwcap]
  split
  case isTrue hsome => exact ⟨_, rfl, by rw [h.getauxval.resolve_left hsome]; exact fun _ => .rfl⟩
  split
  case isTrue hsome => exact ⟨_, rfl, by rw [h.auxv.resolve_left hsome]; exact fun _ => .rfl⟩
  rw [hwcapFromCpuinfo, extractCpuinfoField_text (by decide) h.wellFormed, h.architecture,
    Option.bind_some, Option.bind_some, strtol_decimal h.suffix, Option.getD_some]
  have h8 : (8 : ℤ) ≤ min (2 ^ 31 - 1) ↑p.architecture ↔ 8 ≤ p.architecture := by omega
  simp only [h8]
  split
  case isTrue h8 =>
    refine ⟨_, rfl, fun c => ?_⟩
    rw [has_word Hwcap.bit_injective Hwcap.bit_lt, h.mandated h8]
  case isFalse h8 =>
    obtain ⟨items, hitems, hfeatures⟩ := h.features (Nat.lt_of_not_le h8)
    have hlisted : ∀ item ≠ [], hasListItem (some (wordsOf items)) item = true ↔ item ∈ items :=
      fun item hne => (hasListItem_iff hne).trans (mem_wordsOf_iff hne hitems.isBlank)
    rw [extractCpuinfoField_text (by decide) h.wellFormed, hfeatures, Option.map_some]
    refine ⟨_, rfl, fun c => ?_⟩
    rw [has_itemLoop, or_iff_right not_has_zero]
    constructor
    · rintro ⟨e, he, hitem, hc⟩
      rcases mem_featureItems_iff.mp he with rfl | ⟨c', rfl⟩
      · have hboth := hitems.idiv ((hlisted _ (by decide)).mp hitem)
        rcases List.mem_pair.mp hc with rfl | rfl
        · exact hboth.1
        · exact hboth.2
      · rw [List.mem_singleton.mp hc]
        exact (hitems.names c').mp ((hlisted _ c'.name_ne_nil).mp hitem)
    · intro hc
      have hitem := (hlisted _ c.name_ne_nil).mpr ((hitems.names c).mpr hc)
      exact ⟨(c.name, [c]), mem_featureItems_iff.mpr (.inr ⟨c, rfl⟩), hitem,
        List.mem_singleton_self c⟩

/-- **What the kernel reports is what is found out**, however the files are cut into pieces and
whichever source the capabilities come from. -/
theorem androidCpuInit_reports (h : Reports k p lines)
    (hsize : Delivers (textOf lines).length r.size)
    (hcpuinfo : Delivers (textOf lines).length r.cpuinfo) (hmalloc : r.malloc = true)
    (hcount : getCpuCount k.present k.possible r.present r.possible = some n) :
    ∃ s, androidCpuInit k r = some s ∧
      Identifies s.cpuIdArm p.implementer p.variant p.part p.revision ∧
      (∀ f, Has Feature.bit s.cpuFeatures f ↔ Supports (p.findings s.cpuIdArm) f) ∧
      s.cpuCount = max 1 n := by
  have hread : readLoop (textOf lines) (textOf lines).length 0 r.cpuinfo =
      some ↑(textOf lines).length := by
    rw [readLoop_eq hcpuinfo.ok (Nat.zero_le _) hcpuinfo.enough, Nat.min_self]
  have hhardware : extractCpuinfoField (textOf lines) (ascii "Hardware") = some p.hardware := by
    rw [extractCpuinfoField_text (by decide) h.wellFormed, h.hardware]
  obtain ⟨id, hid, hidentifies⟩ := cpuIdArm_text h.wellFormed h.identification
  obtain ⟨features, hfeatures, hv7, hv6⟩ := h.archFeatures id
  obtain ⟨hwcaps, hhwcaps, hcap⟩ := h.elfHwcap
  obtain ⟨a, ha⟩ : ∃ a, armInit k (textOf lines) = some a := by
    rw [armInit, hfeatures, hhwcaps, hid, hhardware]
    exact ⟨_, rfl⟩
  -- what is found out is what there is to be found out
  obtain ⟨features', hwcaps', hardware', hfeatures', hhwcaps', hid', hhardware', hhas⟩ :=
    has_armInit ha
  obtain rfl := Option.some.inj (hfeatures.symm.trans hfeatures')
  obtain rfl := Option.some.inj (hhwcaps.symm.trans hhwcaps')
  obtain rfl := Option.some.inj (hid.symm.trans hid')
  obtain rfl := Option.some.inj (hhardware.symm.trans hhardware')
  have hfindings : findings features hwcaps (k.getauxval 26) a.2 p.hardware = p.findings a.2 := by
    rw [findings, hv7, hv6, funext fun c => propext (hcap c), h.hwcap2]
    rfl
  rw [hfindings] at hhas
  refine ⟨⟨a.1, if n = 0 then 1 else n, a.2⟩, ?_, hidentifies, hhas, ?_⟩
  · rw [androidCpuInit, h.cpuinfo]
    dsimp only
    rw [sizeLoop_eq hsize.ok (Nat.zero_le _) hsize.enough, Option.bind_some, if_pos hmalloc, hread,
      Option.bind_some, if_neg (by omega), hcount, Option.bind_some, Int.toNat_natCast,
      List.take_length, ha, Option.map_some]
  · dsimp only
    split <;> omega

end Init

/-- A processor that says nothing of itself, with a kernel that says it has NEON. -/
def silent : Kernel := ⟨some [], none, none, [], fun type => if type = 16 then 0x1000#32 else 0⟩

/-- NEON comes with VFPv3. -/
theorem features_closed_neon : ∃ s, androidCpuInit silent ⟨[.bytes 0], true, [], [], []⟩ = some s ∧
    Has Feature.bit s.cpuFeatures .neon ∧ Has Feature.bit s.cpuFeatures .vfpv3 := by
  have h : androidCpuInit silent ⟨[.bytes 0], true, [], [], []⟩ = some ⟨55#64, 1, 0#32⟩ := by
    decide +kernel
  exact ⟨_, h, rfl, features_closed (f := .neon) h rfl (by decide)⟩

/-- A processor that divides, but forgets to report it. -/
def krait : Processor :=
  ⟨7, [], some (ascii "ARMv7 Processor rev 2 (v7l)"),
    word 32 Hwcap.bit [.vfp, .neon, .vfpv3, .vfpv4], 0, 0x51, 0, 0x6f, 2, none⟩

/-- Its lines. -/
def kraitLines : List Line :=
  [.entry (ascii "Processor\t") (ascii "ARMv7 Processor rev 2 (v7l)"), .blank,
    .entry (ascii "Features\t") (wordsOf [ascii "vfp", ascii "neon", ascii "vfpv3", ascii "vfpv4"]),
    .entry (ascii "CPU implementer\t") (ascii "0x" ++ hexadecimal 2 0x51),
    .entry (ascii "CPU architecture") (decimal 7),
    .entry (ascii "CPU variant\t") (ascii "0x" ++ hexadecimal 0 0),
    .entry (ascii "CPU part\t") (ascii "0x" ++ hexadecimal 3 0x6f),
    .entry (ascii "CPU revision\t") (decimal 2)]

theorem reports_krait :
    Reports ⟨some (textOf kraitLines), some (ascii "0-3\n"), some (ascii "0-3\n"), [], fun _ => 0⟩
      krait kraitLines where
  wellFormed := by decide +kernel
  cpuinfo := rfl
  architecture := by
    rw [show krait.suffix = [] from rfl, List.append_nil]
    rfl
  suffix := nofun
  processor := rfl
  hardware := rfl
  identification := ⟨rfl, rfl, rfl, rfl⟩
  features := by
    refine fun _ => ⟨[ascii "vfp", ascii "neon", ascii "vfpv3", ascii "vfpv4"], ?_, rfl⟩
    refine ⟨by decide +kernel, fun c => ?_, fun h => absurd h (by decide)⟩
    cases c <;> decide
  mandated := fun h => absurd h (by decide)
  getauxval := .inl rfl
  auxv := .inl rfl
  hwcap2 := rfl

/-- The processor is found out from its lines: four of them, with fused NEON, and they divide. -/
theorem androidCpuInit_reports_krait :
    ∃ s, androidCpuInit
        ⟨some (textOf kraitLines), some (ascii "0-3\n"), some (ascii "0-3\n"), [], fun _ => 0⟩
        ⟨List.replicate 400 (.bytes 99), true, List.replicate 400 (.bytes 6),
          List.replicate 5 (.bytes 0), [.interrupted, .bytes 63, .bytes 0]⟩ = some s ∧
      s.cpuIdArm.extractLsb' 4 12 = 0x6f#12 ∧ Has Feature.bit s.cpuFeatures .neonFma ∧
      ¬Has Feature.bit s.cpuFeatures .iwmmxt ∧ s.cpuCount = 4 := by
  have hlength : (textOf kraitLines).length < 400 := by decide +kernel
  have hdelivers : ∀ n, Delivers (textOf kraitLines).length (List.replicate 400 (.bytes n)) :=
    fun n => ⟨fun h => Answer.noConfusion (List.eq_of_mem_replicate h), by
      rw [List.countP_replicate]
      exact hlength⟩
  obtain ⟨s, hs, hid, hfeatures, hcount⟩ := androidCpuInit_reports
    (r := ⟨List.replicate 400 (.bytes 99), true, List.replicate 400 (.bytes 6),
      List.replicate 5 (.bytes 0), [.interrupted, .bytes 63, .bytes 0]⟩) (n := 4)
    reports_krait (hdelivers 99) (hdelivers 6) rfl (by decide +kernel)
  exact ⟨s, hs, hid.part, (hfeatures _).mpr ⟨rfl, rfl⟩,
    fun h => Bool.false_ne_true ((hfeatures _).mp h), hcount⟩

end CpuFeatures

end Libuzi
