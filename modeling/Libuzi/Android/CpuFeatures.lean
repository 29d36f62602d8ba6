import Libuzi.Android.CpuInfo
import Libuzi.Flags

/-!
# The features of an ARM processor

`android_cpuInit` of `libuzi/cpu-features.c` finds out which optional features the processor has.
On ARM it has four sources, none of which can be relied on:

| in the source | here |
|---|---|
| the fields `CPU architecture` and `Processor` | `CpuFeatures.archFeatures` |
| `getauxval(AT_HWCAP)`, `/proc/self/auxv`, or the field `Features` | `CpuFeatures.elfHwcap` |
| `getauxval(AT_HWCAP2)` | `CpuFeatures.hwcap2Features` |
| the identification of the processor | `CpuFeatures.cpuFixes`, `CpuFeatures.goldfish` |

The hardware capabilities are taken from the first source that has any, and completed by what
they imply. `CpuFeatures.Supports` says which features come out of all this, whatever the files
hold (`CpuFeatures.has_armInit`).
-/

namespace Libuzi

open Libuzi.Path Numerals CpuList CpuInfo Flags

namespace CpuFeatures

/-! ### Flags -/

/-- `ANDROID_CPU_ARM_FEATURE_*`. -/
inductive Feature
  | armv7 | vfpv3 | neon | ldrexStrex | vfpv2 | vfpD32 | vfpFp16 | vfpFma | neonFma | idivArm
  | idivThumb2 | iwmmxt | aes | pmull | sha1 | sha2 | crc32
  deriving DecidableEq

/-- The bit of a feature. -/
def Feature.bit : Feature → ℕ
  | .armv7 => 0
  | .vfpv3 => 1
  | .neon => 2
  | .ldrexStrex => 3
  | .vfpv2 => 4
  | .vfpD32 => 5
  | .vfpFp16 => 6
  | .vfpFma => 7
  | .neonFma => 8
  | .idivArm => 9
  | .idivThumb2 => 10
  | .iwmmxt => 11
  | .aes => 12
  | .pmull => 13
  | .sha1 => 14
  | .sha2 => 15
  | .crc32 => 16

/-- `HWCAP_*`. -/
inductive Hwcap
  | vfp | iwmmxt | neon | vfpv3 | vfpv3d16 | vfpv4 | idiva | idivt
  deriving DecidableEq

/-- The bit of a capability. -/
def Hwcap.bit : Hwcap → ℕ
  | .vfp => 6
  | .iwmmxt => 9
  | .neon => 12
  | .vfpv3 => 13
  | .vfpv3d16 => 14
  | .vfpv4 => 16
  | .idiva => 17
  | .idivt => 18

/-- `HWCAP_SET_FOR_ARMV8`. -/
def hwcapSetForArmv8 : List Hwcap := [.vfp, .neon, .vfpv3, .vfpv4, .idiva, .idivt]

/-- `HWCAP2_*`. -/
inductive Hwcap2
  | aes | pmull | sha1 | sha2 | crc32
  deriving DecidableEq

/-- The bit of a capability. -/
def Hwcap2.bit : Hwcap2 → ℕ
  | .aes => 0
  | .pmull => 1
  | .sha1 => 2
  | .sha2 => 3
  | .crc32 => 4

/-! ### The sources -/

/-- What the kernel has to say. -/
structure Kernel where
  /-- `/proc/cpuinfo`; a file that cannot be opened is `none`. -/
  cpuinfo : Option Str
  /-- `/sys/devices/system/cpu/present`. -/
  present : Option Str
  /-- `/sys/devices/system/cpu/possible`. -/
  possible : Option Str
  /-- The tags and values of `/proc/self/auxv`, as far as it can be read. -/
  auxv : List (BitVec 32 × BitVec 32)
  /-- `get_elf_hwcap_from_getauxval`. -/
  getauxval : ℕ → BitVec 32

/-- The features that the number of the architecture implies. -/
def archFeatures (cpuinfo : Str) : Option (BitVec 64) :=
  (extractCpuinfoField cpuinfo (ascii "CPU architecture")).bind fun cpuArch =>
    match cpuArch with
    | none => some 0#64
    | some cpuArch =>
      let archNumber := (strtol cpuArch).getD 0
      -- `end > cpuArch` if there is a number
      let hasARMv7 := (strtol cpuArch).isSome ∧ 7 ≤ archNumber
      let ldrex := setIf Feature.bit (6 ≤ archNumber) [.ldrexStrex]
      if hasARMv7 then
        (extractCpuinfoField cpuinfo (ascii "Processor")).map fun cpuProc =>
          ldrex (setIf Feature.bit (hasListItem cpuProc (ascii "(v6l)") = false) [.armv7] 0#64)
      else some (ldrex 0#64)

/-- **`get_elf_hwcap_from_proc_self_auxv`**: the first value of `AT_HWCAP` before the end. -/
def hwcapFromAuxv : List (BitVec 32 × BitVec 32) → BitVec 32
  | [] => 0
  | (tag, value) :: entries =>
    if tag = 0 ∧ value = 0 then 0 else if tag = 16 then value else hwcapFromAuxv entries

/-- The items of the field `Features`, and what they stand for. -/
def featureItems : List (Str × List Hwcap) :=
  [(ascii "vfp", [.vfp]), (ascii "vfpv3", [.vfpv3]), (ascii "vfpv3d16", [.vfpv3d16]),
    (ascii "vfpv4", [.vfpv4]), (ascii "neon", [.neon]), (ascii "idiva", [.idiva]),
    (ascii "idivt", [.idivt]), (ascii "idiv", [.idiva, .idivt]), (ascii "iwmmxt", [.iwmmxt])]

/-- The tests for the items, one after the other. -/
def itemLoop (list : Option Str) : BitVec 32 → List (Str × List Hwcap) → BitVec 32
  | hwcaps, [] => hwcaps
  | hwcaps, (item, caps) :: items =>
    itemLoop list (setIf Hwcap.bit (hasListItem list item = true) caps hwcaps) items

/-- **`get_elf_hwcap_from_proc_cpuinfo`**. -/
def hwcapFromCpuinfo (cpuinfo : Str) : Option (BitVec 32) :=
  (extractCpuinfoField cpuinfo (ascii "CPU architecture")).bind fun cpuArch =>
    if 8 ≤ (cpuArch.bind strtol).getD 0 then some (word 32 Hwcap.bit hwcapSetForArmv8)
    else
      (extractCpuinfoField cpuinfo (ascii "Features")).map fun cpuFeatures =>
        itemLoop cpuFeatures 0#32 featureItems

/-- **The hardware capabilities**, from the first source that has any. -/
def elfHwcap (k : Kernel) (cpuinfo : Str) : Option (BitVec 32) :=
  if k.getauxval 16 ≠ 0 then some (k.getauxval 16)
  else if hwcapFromAuxv k.auxv ≠ 0 then some (hwcapFromAuxv k.auxv)
  else hwcapFromCpuinfo cpuinfo

/-! ### What they imply -/

/-- **The features that the hardware capabilities imply**, beside those found already. -/
def hwcapFeatures (hwcaps : BitVec 32) (features : BitVec 64) : BitVec 64 :=
  let has := Has Hwcap.bit hwcaps
  let features := setIf Feature.bit (has .vfpv4) [.vfpv3, .vfpFp16, .vfpFma] features
  let features := setIf Feature.bit (has .vfpv3 ∨ has .vfpv3d16) [.vfpv3] features
  -- `vfp` means one or the other
  let features :=
    if has .vfp then
      if Has Feature.bit features .armv7 then set Feature.bit [.vfpv3] features
      else set Feature.bit [.vfpv2] features
    else features
  let features :=
    if has .neon then
      setIf Feature.bit (has .vfpv4) [.neonFma]
        (set Feature.bit [.vfpv3, .neon, .vfpD32] features)
    else features
  let features := setIf Feature.bit (Has Feature.bit features .vfpv3) [.vfpv2, .armv7] features
  let features := setIf Feature.bit (has .idiva) [.idivArm] features
  let features := setIf Feature.bit (has .idivt) [.idivThumb2] features
  setIf Feature.bit (has .iwmmxt) [.iwmmxt] features

/-- Those of `HWCAP2_*`. -/
def hwcap2Features (hwcaps2 : BitVec 32) (features : BitVec 64) : BitVec 64 :=
  let has := Has Hwcap2.bit hwcaps2
  let features := setIf Feature.bit (has .aes) [.aes] features
  let features := setIf Feature.bit (has .pmull) [.pmull] features
  let features := setIf Feature.bit (has .sha1) [.sha1] features
  let features := setIf Feature.bit (has .sha2) [.sha2] features
  setIf Feature.bit (has .crc32) [.crc32] features

/-- `cpu_fixes`. -/
def cpuFixes : List (BitVec 32 × List Feature) :=
  [(0x510006f2#32, [.idivArm, .idivThumb2]), (0x510006f3#32, [.idivArm, .idivThumb2])]

/-- The loop over `cpu_fixes`. -/
def fixLoop (id : BitVec 32) : BitVec 64 → List (BitVec 32 × List Feature) → BitVec 64
  | features, [] => features
  | features, (cpuid, orFlags) :: fixes =>
    fixLoop id (setIf Feature.bit (id = cpuid) orFlags features) fixes

/-- `ANDROID_CPU_FAMILY_ARM`. -/
def androidCpuFamilyArm : BitVec 64 := 1#64

/-- The special case for the emulator. It is the family that is tested, and not the features. -/
def goldfish (hardware : Option Str) (id : BitVec 32) : BitVec 64 → BitVec 64 :=
  setIf Feature.bit (hardware = some (ascii "Goldfish") ∧ id = 0x4100c080#32 ∧
    Has Feature.bit androidCpuFamilyArm .armv7) [.idivArm]

/-- **What `android_cpuInit` does on ARM** with the text of `/proc/cpuinfo`: the features, and the
identification. Nothing, if it reads past the end of the text. -/
def armInit (k : Kernel) (cpuinfo : Str) : Option (BitVec 64 × BitVec 32) :=
  (archFeatures cpuinfo).bind fun features =>
  (elfHwcap k cpuinfo).bind fun hwcaps =>
  (cpuIdArm cpuinfo).bind fun id =>
  (extractCpuinfoField cpuinfo (ascii "Hardware")).map fun hardware =>
    let features := if hwcaps ≠ 0 then hwcapFeatures hwcaps features else features
    let hwcaps2 := k.getauxval 26
    let features := if hwcaps2 ≠ 0 then hwcap2Features hwcaps2 features else features
    (goldfish hardware id (fixLoop id features cpuFixes), id)

/-! ### Which features come out -/

/-- What is found out about a processor. -/
structure Findings where
  /-- The number of the architecture is at least 7, and nothing is said against it. -/
  v7 : Prop
  /-- It is at least 6. -/
  v6 : Prop
  /-- The hardware capabilities. -/
  cap : Hwcap → Prop
  /-- The others. -/
  cap2 : Hwcap2 → Prop
  /-- It is one of those that forget to report that they divide. -/
  fixed : Prop
  /-- It is the one of the emulator. -/
  emulated : Prop

/-- **The features of a processor** of which this is found out. -/
def Supports (p : Findings) : Feature → Prop
  | .armv7 => p.v7 ∨ p.cap .vfpv3 ∨ p.cap .vfpv3d16 ∨ p.cap .vfpv4 ∨ p.cap .neon
  | .ldrexStrex => p.v6
  | .vfpv2 => p.cap .vfp ∨ p.cap .vfpv3 ∨ p.cap .vfpv3d16 ∨ p.cap .vfpv4 ∨ p.cap .neon
  | .vfpv3 => p.cap .vfp ∧ p.v7 ∨ p.cap .vfpv3 ∨ p.cap .vfpv3d16 ∨ p.cap .vfpv4 ∨ p.cap .neon
  | .neon | .vfpD32 => p.cap .neon
  | .vfpFp16 | .vfpFma => p.cap .vfpv4
  | .neonFma => p.cap .neon ∧ p.cap .vfpv4
  | .idivArm => p.cap .idiva ∨ p.fixed ∨ p.emulated
  | .idivThumb2 => p.cap .idivt ∨ p.fixed
  | .iwmmxt => p.cap .iwmmxt
  | .aes => p.cap2 .aes
  | .pmull => p.cap2 .pmull
  | .sha1 => p.cap2 .sha1
  | .sha2 => p.cap2 .sha2
  | .crc32 => p.cap2 .crc32

/-- This is found out from the features of the architecture and the words of the kernel. -/
def findings (features : BitVec 64) (hwcaps hwcaps2 id : BitVec 32) (hardware : Option Str) :
    Findings where
  v7 := Has Feature.bit features .armv7
  v6 := Has Feature.bit features .ldrexStrex
  cap := Has Hwcap.bit hwcaps
  cap2 := Has Hwcap2.bit hwcaps2
  fixed := id = 0x510006f2#32 ∨ id = 0x510006f3#32
  emulated := hardware = some (ascii "Goldfish") ∧ id = 0x4100c080#32

/-- The features that come from the architecture alone. -/
def archOnly : List Feature := [.armv7, .ldrexStrex]

section Features

variable {x features : BitVec 64} {hwcaps : BitVec 32} {f : Feature} {fs : List Feature}
  {cpuinfo : Str} {k : Kernel} {id : BitVec 32}

theorem Feature.bit_injective : Function.Injective Feature.bit := by
  intro f g h
  cases f <;> cases g <;> first | rfl | cases h

theorem Hwcap.bit_injective : Function.Injective Hwcap.bit := by
  intro f g h
  cases f <;> cases g <;> first | rfl | cases h

theorem Feature.bit_lt (f : Feature) : f.bit < 64 := by
  cases f <;> decide

theorem Hwcap.bit_lt (h : Hwcap) : h.bit < 32 := by
  cases h <;> decide

theorem has_set : Has Feature.bit (set Feature.bit fs x) f ↔ Has Feature.bit x f ∨ f ∈ fs :=
  Flags.has_set Feature.bit_injective Feature.bit_lt

theorem has_setIf {p : Prop} [Decidable p] :
    Has Feature.bit (setIf Feature.bit p fs x) f ↔ Has Feature.bit x f ∨ p ∧ f ∈ fs :=
  Flags.has_setIf Feature.bit_injective Feature.bit_lt

theorem has_hwcap2Features {hwcaps2 : BitVec 32} :
    Has Feature.bit (if hwcaps2 ≠ 0 then hwcap2Features hwcaps2 x else x) f ↔
      Has Feature.bit x f ∨ Supports ⟨False, False, fun _ => False, Has Hwcap2.bit hwcaps2,
        False, False⟩ f := by
  split
  case isTrue =>
    unfold hwcap2Features
    dsimp only
    cases f <;> simp [has_setIf, Supports]
  case isFalse hzero =>
    obtain rfl : hwcaps2 = 0 := not_not.mp hzero
    have hnone : ∀ c, ¬Has Hwcap2.bit 0#32 c := fun c => not_has_zero
    cases f <;> simp [Supports, hnone]

theorem has_fixLoop : Has Feature.bit (fixLoop id x cpuFixes) f ↔
    Has Feature.bit x f ∨ (id = 0x510006f2#32 ∨ id = 0x510006f3#32) ∧
      f ∈ [Feature.idivArm, .idivThumb2] := by
  rw [cpuFixes, fixLoop, fixLoop, fixLoop, has_setIf, has_setIf, or_assoc, ← or_and_right]

theorem has_goldfish {hardware : Option Str} : Has Feature.bit (goldfish hardware id x) f ↔
    Has Feature.bit x f ∨ (hardware = some (ascii "Goldfish") ∧ id = 0x4100c080#32) ∧
      f = .idivArm := by
  have hfamily : Has Feature.bit androidCpuFamilyArm .armv7 := rfl
  rw [goldfish, has_setIf, List.mem_singleton]
  simp only [hfamily, and_true]

theorem has_ite {p : Prop} [Decidable p] {y : BitVec 64} :
    Has Feature.bit (if p then x else y) f ↔
      p ∧ Has Feature.bit x f ∨ ¬p ∧ Has Feature.bit y f := by
  split
  case isTrue hp => simp only [hp, true_and, not_true_eq_false, false_and, or_false]
  case isFalse hp => simp only [hp, false_and, not_false_eq_true, true_and, false_or]

/-- **What the hardware capabilities add.** -/
theorem has_hwcapFeatures (hfeatures : ∀ f, Has Feature.bit features f → f ∈ archOnly) :
    Has Feature.bit (if hwcaps ≠ 0 then hwcapFeatures hwcaps features else features) f ↔
      Supports ⟨Has Feature.bit features .armv7, Has Feature.bit features .ldrexStrex,
        Has Hwcap.bit hwcaps, fun _ => False, False, False⟩ f := by
  have hno : ∀ f, f ∉ archOnly → ¬Has Feature.bit features f := fun f hf hhas =>
    hf (hfeatures f hhas)
  split
  case isTrue =>
    unfold hwcapFeatures
    dsimp only
    -- for each feature, both sides are made of the same tests
    cases f <;> simp [has_setIf, has_ite, has_set, Supports, hno, archOnly] <;> grind
  case isFalse hzero =>
    obtain rfl : hwcaps = 0 := not_not.mp hzero
    have hnone : ∀ c, ¬Has Hwcap.bit 0#32 c := fun c => not_has_zero
    cases f <;> simp [Supports, hno, hnone, archOnly]

/-- The architecture implies no other features. -/
theorem mem_archOnly (h : archFeatures cpuinfo = some features) (hf : Has Feature.bit features f) :
    f ∈ archOnly := by
  obtain ⟨cpuArch, -, h⟩ := Option.bind_eq_some_iff.mp h
  cases cpuArch with
  | none =>
    obtain rfl := Option.some.inj h
    exact absurd hf not_has_zero
  | some cpuArch =>
    dsimp only at h
    split at h
    case isTrue =>
      obtain ⟨cpuProc, -, rfl⟩ := Option.map_eq_some_iff.mp h
      rw [has_setIf, has_setIf, or_iff_right not_has_zero, List.mem_singleton,
        List.mem_singleton] at hf
      rcases hf with ⟨-, rfl⟩ | ⟨-, rfl⟩ <;> decide
    case isFalse =>
      obtain rfl := Option.some.inj h
      rw [has_setIf, or_iff_right not_has_zero, List.mem_singleton] at hf
      obtain ⟨-, rfl⟩ := hf
      decide

/-- **What comes out of everything.** -/
theorem has_armInit {r : BitVec 64 × BitVec 32} (h : armInit k cpuinfo = some r) :
    ∃ features hwcaps hardware, archFeatures cpuinfo = some features ∧
      elfHwcap k cpuinfo = some hwcaps ∧ cpuIdArm cpuinfo = some r.2 ∧
      extractCpuinfoField cpuinfo (ascii "Hardware") = some hardware ∧
      ∀ f, Has Feature.bit r.1 f ↔
        Supports (findings features hwcaps (k.getauxval 26) r.2 hardware) f := by
  obtain ⟨features, hfeatures, h⟩ := Option.bind_eq_some_iff.mp h
  obtain ⟨hwcaps, hhwcaps, h⟩ := Option.bind_eq_some_iff.mp h
  obtain ⟨id, hid, h⟩ := Option.bind_eq_some_iff.mp h
  obtain ⟨hardware, hhardware, rfl⟩ := Option.map_eq_some_iff.mp h
  refine ⟨features, hwcaps, hardware, hfeatures, hhwcaps, hid, hhardware, fun f => ?_⟩
  dsimp only
  rw [has_goldfish, has_fixLoop, has_hwcap2Features,
    has_hwcapFeatures fun f => mem_archOnly hfeatures]
  cases f <;> simp [Supports, findings, or_assoc]

end Features

end CpuFeatures

end Libuzi
