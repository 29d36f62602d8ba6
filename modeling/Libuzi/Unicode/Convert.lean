import Libuzi.Loop
import Mathlib.Data.Nat.Find
import Mathlib.Data.UInt
import Mathlib.Logic.Function.Basic

/-!
# Converting between UTF-8 and UTF-16

The converters of `unicode.c`. Each of `convertUTF16toUTF8` and `convertUTF8toUTF16` is
one loop over a source buffer: a round reads one character, checks it, and writes it to
the target buffer, or breaks out of the loop with a `ConversionResult` after putting the
pointers back to where the round began. `uziUtf16toUtf8` and `uziUtf8toUtf16` are the
functions the library exports.

* **Memory.** A buffer is a function from indices to units, and a pointer into it is
  its distance from the buffer's start, so that reading outside the buffer is not
  prevented: that no converter does is something to prove. The source and the target are
  different buffers. A null `targetEnd` is `none`, and asks for the length only.
* **Arithmetic.** `ch` is a `uint32_t`; where its arithmetic can wrap, the remainder
  modulo `2 ^ 32` is written out.
* **Switches.** The drop-through switches, which handle a fixed number of bytes from a
  case label down to the last one, are recursions on the label: `storeBytes`, `readBytes`.

Not modelled: null source and target buffers, and `isLegalUTF8Sequence`, which nothing
calls.
-/

namespace Libuzi

namespace Unicode

/-- How a conversion ends. -/
inductive ConversionResult where
  | conversionOK
  | sourceExhausted
  | targetExhausted
  | sourceIllegal
  deriving DecidableEq, Repr

/-- Whether the converters refuse an isolated surrogate or let it through. -/
inductive ConversionFlags where
  | strictConversion
  | lenientConversion
  deriving DecidableEq, Repr

/-! ### Constants and tables -/

def uniReplacementChar : ℕ := 0xFFFD
def uniMaxBmp : ℕ := 0xFFFF
def uniMaxUtf16 : ℕ := 0x10FFFF

def halfShift : ℕ := 10
def halfBase : ℕ := 0x10000
def halfMask : ℕ := 0x3FF

def uniSurHighStart : ℕ := 0xD800
def uniSurHighEnd : ℕ := 0xDBFF
def uniSurLowStart : ℕ := 0xDC00
def uniSurLowEnd : ℕ := 0xDFFF

def byteMask : ℕ := 0xBF
def byteMark : ℕ := 0x80

/-- `trailingBytesForUTF8`: how many bytes follow a first byte. The table has an entry
for each of the 256 bytes; its entries are constant on these ranges. -/
def trailingBytesForUTF8 (b : UInt8) : ℕ :=
  if b.toNat < 0xC0 then 0
  else if b.toNat < 0xE0 then 1
  else if b.toNat < 0xF0 then 2
  else if b.toNat < 0xF8 then 3
  else if b.toNat < 0xFC then 4
  else 5

/-- `offsetsFromUTF8`: what the marks of a sequence add up to, by the number of its
trailing bytes. -/
def offsetsFromUTF8 : ℕ → ℕ
  | 1 => 0x3080
  | 2 => 0xE2080
  | 3 => 0x3C82080
  | 4 => 0xFA082080
  | 5 => 0x82082080
  | _ => 0

/-- `firstByteMark`: the mark of a first byte, by the length of its sequence. -/
def firstByteMark : ℕ → ℕ
  | 2 => 0xC0
  | 3 => 0xE0
  | 4 => 0xF0
  | 5 => 0xF8
  | 6 => 0xFC
  | _ => 0

/-- Where a converter stands: its two pointers and the target buffer. -/
structure Cursor (β : Type) where
  source : ℕ
  target : ℕ
  dst : ℕ → β

/-- How a round of a converter ends. -/
abbrev Round (β : Type) : Type := Loop.Flow (Cursor β) ConversionResult

/-- The target has no room for `n` more units, which does not matter when only the length is
asked for. The code tests this before the pointer moves, as `target >= targetEnd` for one
unit and `target + 1 >= targetEnd` for two, and after it has, as `target > targetEnd`. -/
def lacksRoom (targetEnd : Option ℤ) (target n : ℕ) : Bool :=
  match targetEnd with
  | none => false
  | some e => decide (e < (target + n : ℕ))

/-- **The loop of a converter**: `while (source < sourceEnd)`. -/
def convertLoop {β : Type} (sourceEnd : ℤ) (round : Cursor β → Round β) (c : Cursor β) :
    Cursor β × ConversionResult :=
  Loop.whileLoop (fun c => decide ((c.source : ℤ) < sourceEnd)) round .conversionOK
    (fun c => (sourceEnd - c.source).toNat) c

/-! ### From UTF-16 to UTF-8 -/

/-- The switch that stores the bytes of a character, last byte first: from the case label
`k` on, with the target pointer one past the byte to store. -/
def storeBytes (bytesToWrite : ℕ) : ℕ → ℕ → ℕ → (ℕ → UInt8) → ℕ × (ℕ → UInt8)
  | 0, _, target, dst => (target, dst)
  | 1, ch, target, dst =>
    (target - 1,
      Function.update dst (target - 1) (UInt8.ofNat (ch ||| firstByteMark bytesToWrite)))
  | k + 2, ch, target, dst =>
    storeBytes bytesToWrite (k + 1) (ch >>> 6) (target - 1)
      (Function.update dst (target - 1) (UInt8.ofNat ((ch ||| byteMark) &&& byteMask)))

/-- How many bytes the character `ch` takes. -/
def bytesToWrite (ch : ℕ) : ℕ :=
  if ch < 0x80 then 1
  else if ch < 0x800 then 2
  else if ch < 0x10000 then 3
  else if ch < 0x110000 then 4
  else 3

/-- The second half of a round: `ch` has been read, and is written unless the target is
full. -/
def writeUTF8 (targetEnd : Option ℤ) (oldSource ch : ℕ) (c : Cursor UInt8) : Round UInt8 :=
  let n := bytesToWrite ch
  let ch := if ch < 0x110000 then ch else uniReplacementChar
  let target := c.target + n
  if lacksRoom targetEnd c.target n then
    .stop { c with source := oldSource, target := target - n } .targetExhausted
  else
    match targetEnd with
    | some _ =>
      let stored := storeBytes n n ch target c.dst
      .next { c with target := stored.1 + n, dst := stored.2 }
    | none =>
      -- The switch of this branch only moves the pointer, one byte a case.
      .next { c with target := target - n + n }

/-- A round of `ConvertUTF16toUTF8`. -/
def roundUTF16 (src : ℕ → UInt16) (sourceEnd : ℤ) (targetEnd : Option ℤ)
    (flags : ConversionFlags) (c : Cursor UInt8) : Round UInt8 :=
  let oldSource := c.source
  let ch := (src c.source).toNat
  let source := c.source + 1
  if uniSurHighStart ≤ ch ∧ ch ≤ uniSurHighEnd then
    if (source : ℤ) < sourceEnd then
      let ch2 := (src source).toNat
      if uniSurLowStart ≤ ch2 ∧ ch2 ≤ uniSurLowEnd then
        let ch := ((ch - uniSurHighStart) <<< halfShift) + (ch2 - uniSurLowStart) + halfBase
        writeUTF8 targetEnd oldSource ch { c with source := source + 1 }
      else if flags = .strictConversion then
        .stop { c with source := source - 1 } .sourceIllegal
      else writeUTF8 targetEnd oldSource ch { c with source := source }
    else .stop { c with source := source - 1 } .sourceExhausted
  else if flags = .strictConversion ∧ uniSurLowStart ≤ ch ∧ ch ≤ uniSurLowEnd then
    .stop { c with source := source - 1 } .sourceIllegal
  else writeUTF8 targetEnd oldSource ch { c with source := source }

/-- **`ConvertUTF16toUTF8`**, from the cursor `c` on. -/
def convertUTF16toUTF8 (src : ℕ → UInt16) (sourceEnd : ℤ) (targetEnd : Option ℤ)
    (flags : ConversionFlags) (c : Cursor UInt8) : Cursor UInt8 × ConversionResult :=
  convertLoop sourceEnd (roundUTF16 src sourceEnd targetEnd flags) c

/-! ### From UTF-8 to UTF-16 -/

/-- Case 1 of the switch of `isLegalUTF8` and the test after the switch: the first byte. -/
def legalFirst (a : ℕ) : Bool := !(decide (0x80 ≤ a) && decide (a < 0xC2)) && !decide (0xF4 < a)

/-- Case 2: the second byte, whose range depends on the first. -/
def legalSecond (first a : ℕ) : Bool :=
  !decide (0xBF < a) &&
    match first with
    | 0xE0 => !decide (a < 0xA0)
    | 0xED => !decide (0x9F < a)
    | 0xF0 => !decide (a < 0x90)
    | 0xF4 => !decide (0x8F < a)
    | _ => !decide (a < 0x80)

/-- Cases 3 and 4: a further byte. -/
def legalTrail (a : ℕ) : Bool := !(decide (a < 0x80) || decide (0xBF < a))

/-- `isLegalUTF8`: whether the `length` bytes at `source` are a legal sequence, given that
the length is the one the first byte asks for. -/
def isLegalUTF8 (src : ℕ → UInt8) (source length : ℕ) : Bool :=
  let byte := fun i => (src (source + i)).toNat
  match length with
  | 4 => legalTrail (byte 3) && legalTrail (byte 2) && legalSecond (byte 0) (byte 1) &&
      legalFirst (byte 0)
  | 3 => legalTrail (byte 2) && legalSecond (byte 0) (byte 1) && legalFirst (byte 0)
  | 2 => legalSecond (byte 0) (byte 1) && legalFirst (byte 0)
  | 1 => legalFirst (byte 0)
  | _ => false

/-- The switch that adds up the bytes of a character, from the case label `k` on: the sum
and the source pointer after it. -/
def readBytes (src : ℕ → UInt8) : ℕ → ℕ → ℕ → ℕ × ℕ
  | 0, ch, source => ((ch + (src source).toNat) % 2 ^ 32, source + 1)
  | k + 1, ch, source =>
    readBytes src k ((((ch + (src source).toNat) % 2 ^ 32) <<< 6) % 2 ^ 32) (source + 1)

/-- `*target++ = x`, or only `target++` when the length is asked for. -/
def putUnit (targetEnd : Option ℤ) (x : ℕ) (c : Cursor UInt16) : Cursor UInt16 :=
  match targetEnd with
  | some _ =>
    { c with target := c.target + 1, dst := Function.update c.dst c.target (UInt16.ofNat x) }
  | none => { c with target := c.target + 1 }

/-- The second half of a round: `ch` has been read from `extraBytesToRead + 1` bytes, and is
written unless the target is full. -/
def writeUTF16 (targetEnd : Option ℤ) (flags : ConversionFlags) (extraBytesToRead ch : ℕ)
    (c : Cursor UInt16) : Round UInt16 :=
  let back : Cursor UInt16 := { c with source := c.source - (extraBytesToRead + 1) }
  if lacksRoom targetEnd c.target 1 then .stop back .targetExhausted
  else if ch ≤ uniMaxBmp then
    if uniSurHighStart ≤ ch ∧ ch ≤ uniSurLowEnd then
      if flags = .strictConversion then .stop back .sourceIllegal
      else .next (putUnit targetEnd uniReplacementChar c)
    else .next (putUnit targetEnd ch c)
  else if uniMaxUtf16 < ch then
    if flags = .strictConversion then .stop back .sourceIllegal
    else .next (putUnit targetEnd uniReplacementChar c)
  else if lacksRoom targetEnd c.target 2 then .stop back .targetExhausted
  else
    let ch := ch - halfBase
    .next (putUnit targetEnd ((ch &&& halfMask) + uniSurLowStart)
      (putUnit targetEnd ((ch >>> halfShift) + uniSurHighStart) c))

/-- A round of `ConvertUTF8toUTF16`. -/
def roundUTF8 (src : ℕ → UInt8) (sourceEnd : ℤ) (targetEnd : Option ℤ)
    (flags : ConversionFlags) (c : Cursor UInt16) : Round UInt16 :=
  let extraBytesToRead := trailingBytesForUTF8 (src c.source)
  if sourceEnd ≤ (c.source + extraBytesToRead : ℕ) then .stop c .sourceExhausted
  else if !isLegalUTF8 src c.source (extraBytesToRead + 1) then .stop c .sourceIllegal
  else
    let read := readBytes src extraBytesToRead 0 c.source
    let ch := (read.1 + 2 ^ 32 - offsetsFromUTF8 extraBytesToRead) % 2 ^ 32
    writeUTF16 targetEnd flags extraBytesToRead ch { c with source := read.2 }

/-- **`ConvertUTF8toUTF16`**, from the cursor `c` on. -/
def convertUTF8toUTF16 (src : ℕ → UInt8) (sourceEnd : ℤ) (targetEnd : Option ℤ)
    (flags : ConversionFlags) (c : Cursor UInt16) : Cursor UInt16 × ConversionResult :=
  convertLoop sourceEnd (roundUTF8 src sourceEnd targetEnd flags) c

/-! ### The exported functions -/

/-- A call with the length `-1` is for a zero-terminated buffer. -/
def Terminated {α : Type} [Zero α] (src : ℕ → α) (cchSrc : ℤ) : Prop :=
  cchSrc = -1 → ∃ i, src i = 0

/-- `strlen` and `uzi_wcslen`: the number of units before the first zero. -/
def wcslen {α : Type} [Zero α] [DecidableEq α] (src : ℕ → α) (h : ∃ i, src i = 0) : ℕ :=
  Nat.find h

/-- The value of `n` as an `int`. -/
def toInt (n : ℤ) : ℤ := Int.bmod n (2 ^ 32)

/-- The common body of `UziUtf8toUtf16` and `UziUtf16toUtf8`: what is returned, and the
target buffer afterwards. -/
def uziConvert {α β : Type} [Zero α] [DecidableEq α]
    (convert : (ℕ → α) → ℤ → Option ℤ → ConversionFlags → Cursor β → Cursor β × ConversionResult)
    (src : ℕ → α) (cchSrc : ℤ) (hsrc : Terminated src cchSrc) (dst : ℕ → β) (cchDst : ℤ) :
    ℤ × (ℕ → β) :=
  let cchSrc := if h : cchSrc = -1 then toInt (wcslen src (hsrc h) + 1) else cchSrc
  let dstEnd := if cchDst = 0 then none else some cchDst
  let out := convert src cchSrc dstEnd .strictConversion ⟨0, 0, dst⟩
  (if out.2 = .conversionOK then toInt out.1.target else 0, out.1.dst)

/-- **`UziUtf8toUtf16`.** -/
def uziUtf8toUtf16 (src : ℕ → UInt8) (cchSrc : ℤ) (hsrc : Terminated src cchSrc)
    (dst : ℕ → UInt16) (cchDst : ℤ) : ℤ × (ℕ → UInt16) :=
  uziConvert convertUTF8toUTF16 src cchSrc hsrc dst cchDst

/-- **`UziUtf16toUtf8`.** -/
def uziUtf16toUtf8 (src : ℕ → UInt16) (cchSrc : ℤ) (hsrc : Terminated src cchSrc)
    (dst : ℕ → UInt8) (cchDst : ℤ) : ℤ × (ℕ → UInt8) :=
  uziConvert convertUTF16toUTF8 src cchSrc hsrc dst cchDst

end Unicode

end Libuzi
