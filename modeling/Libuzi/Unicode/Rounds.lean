import Libuzi.Buffer
import Libuzi.Unicode.Convert
import Libuzi.Unicode.Encoding

/-!
# What a round of a converter does

The rounds of the two converters on a well-formed character. In both directions the
statement is the same: where the source buffer holds the encoding of a scalar value and
the target has room for its other encoding, the round goes on, with the source pointer
moved past the one and the other stored at the target pointer
(`roundUTF16_encode`, `roundUTF8_encode`). This is where the bit arithmetic of the code
meets the arithmetic of the encodings:

* the switch of `storeBytes` stores a sequence of bytes that can be written down without
  it (`storeBytes_eq`), and for a scalar value that sequence is its UTF-8 form
  (`byteSeq_eq`);
* on the UTF-8 form of a scalar value the length table is right, `isLegalUTF8` says yes,
  and the sum of `readBytes` exceeds the scalar value by the entry of `offsetsFromUTF8`
  (`decode_utf8EncodeChar`).

A call for the length moves the target pointer in the same way and stores nothing, which
is what `stored` says for both kinds of call.
-/

namespace Libuzi

namespace Unicode

open Buffer

/-! ### Bits -/

/-- Marking a trailing byte: its six low bits, with `10` before them. -/
theorem or_byteMark_and_byteMask (x : ℕ) : (x ||| byteMark) &&& byteMask = x % 64 + 0x80 := by
  -- Both sides depend on the eight low bits only.
  have hlow : ∀ y < 256, (y ||| 0x80) &&& 0xBF = y % 64 + 0x80 := by decide +kernel
  have hle : (x ||| byteMark) &&& byteMask < 2 ^ 8 :=
    Nat.lt_of_le_of_lt Nat.and_le_right (by decide)
  calc (x ||| byteMark) &&& byteMask
      = ((x ||| byteMark) &&& byteMask) % 2 ^ 8 := (Nat.mod_eq_of_lt hle).symm
    _ = (x % 2 ^ 8 ||| 0x80) &&& 0xBF := by
        rw [Nat.and_mod_two_pow, Nat.or_mod_two_pow]
        rfl
    _ = x % 2 ^ 8 % 64 + 0x80 := hlow _ (Nat.mod_lt _ (by decide))
    _ = x % 64 + 0x80 := by omega

theorem or_firstByteMark_two {x : ℕ} (h : x < 32) : x ||| firstByteMark 2 = x + 0xC0 := by
  have : ∀ y < 32, y ||| 0xC0 = y + 0xC0 := by decide +kernel
  exact this x h

theorem or_firstByteMark_three {x : ℕ} (h : x < 16) : x ||| firstByteMark 3 = x + 0xE0 := by
  have : ∀ y < 16, y ||| 0xE0 = y + 0xE0 := by decide +kernel
  exact this x h

theorem or_firstByteMark_four {x : ℕ} (h : x < 8) : x ||| firstByteMark 4 = x + 0xF0 := by
  have : ∀ y < 8, y ||| 0xF0 = y + 0xF0 := by decide +kernel
  exact this x h

/-! ### Stores of a call -/

/-- What a call has stored: the sequence `xs` at `p`, or nothing if only the length was
asked for. -/
def stored {β : Type} (targetEnd : Option ℤ) (dst : ℕ → β) (p : ℕ) (xs : List β) : ℕ → β :=
  match targetEnd with
  | some _ => blit dst p xs
  | none => dst

theorem stored_append {β : Type} (targetEnd : Option ℤ) (dst : ℕ → β) (p : ℕ) (xs ys : List β) :
    stored targetEnd dst p (xs ++ ys) =
      stored targetEnd (stored targetEnd dst p xs) (p + xs.length) ys := by
  cases targetEnd with
  | none => rfl
  | some e => exact blit_append

/-! ### Writing UTF-8 -/

/-- The bytes that the switch stores from the case label `k` on. -/
def byteSeq (n : ℕ) : ℕ → ℕ → List UInt8
  | 0, _ => []
  | 1, ch => [UInt8.ofNat (ch ||| firstByteMark n)]
  | k + 2, ch =>
    byteSeq n (k + 1) (ch >>> 6) ++ [UInt8.ofNat ((ch ||| byteMark) &&& byteMask)]

theorem length_byteSeq (n k ch : ℕ) : (byteSeq n k ch).length = k := by
  fun_induction byteSeq n k ch with
  | case1 => rfl
  | case2 => rfl
  | case3 k ch ih => rw [List.length_append, ih, List.length_singleton]

/-- **The switch stores its bytes from the last to the first.** -/
theorem storeBytes_eq (n k ch p : ℕ) (dst : ℕ → UInt8) :
    storeBytes n k ch (p + k) dst = (p, blit dst p (byteSeq n k ch)) := by
  fun_induction byteSeq n k ch generalizing dst with
  | case1 => rfl
  | case2 => rfl
  | case3 k ch ih =>
    rw [storeBytes, show p + (k + 2) - 1 = p + (k + 1) by omega, ih, blit_append,
      length_byteSeq, blit_update (by rw [length_byteSeq])]
    rfl

/-- **For a scalar value, the bytes of the switch are its UTF-8 form.** -/
theorem byteSeq_eq (c : Char) :
    byteSeq (bytesToWrite c.toNat) (bytesToWrite c.toNat) c.toNat = String.utf8EncodeChar c := by
  have hvalid := char_toNat_valid c
  rcases Nat.lt_or_ge c.toNat 0x80 with h₁ | h₁
  · obtain ⟨a, ha, haN⟩ := utf8EncodeChar_one h₁
    have hn : bytesToWrite c.toNat = 1 := if_pos h₁
    have hmark : firstByteMark 1 = 0 := rfl
    rw [hn, ha, byteSeq, ← haN, hmark, Nat.or_zero, UInt8.ofNat_toNat]
  rcases Nat.lt_or_ge c.toNat 0x800 with h₂ | h₂
  · obtain ⟨a, b, hab, ha, hb⟩ := utf8EncodeChar_two h₁ h₂
    have hn : bytesToWrite c.toNat = 2 := (if_neg (by omega)).trans (if_pos h₂)
    rw [hn, hab, byteSeq, byteSeq, or_byteMark_and_byteMask, ← hb, UInt8.ofNat_toNat,
      Nat.shiftRight_eq_div_pow, or_firstByteMark_two (by omega), ← ha, UInt8.ofNat_toNat]
    rfl
  rcases Nat.lt_or_ge c.toNat 0x10000 with h₃ | h₃
  · obtain ⟨a, b, d, hab, ha, hb, hd⟩ := utf8EncodeChar_three h₂ h₃
    have hn : bytesToWrite c.toNat = 3 :=
      (if_neg (by omega)).trans ((if_neg (by omega)).trans (if_pos h₃))
    rw [hn, hab]
    simp only [byteSeq, or_byteMark_and_byteMask, Nat.shiftRight_eq_div_pow]
    rw [or_firstByteMark_three (by omega), ← hd, UInt8.ofNat_toNat, ← hb, UInt8.ofNat_toNat,
      Nat.div_div_eq_div_mul, ← ha, UInt8.ofNat_toNat]
    rfl
  · obtain ⟨a, b, d, e, hab, ha, hb, hd, he⟩ := utf8EncodeChar_four h₃
    have hn : bytesToWrite c.toNat = 4 :=
      (if_neg (by omega)).trans ((if_neg (by omega)).trans
        ((if_neg (by omega)).trans (if_pos (by omega))))
    rw [hn, hab]
    simp only [byteSeq, or_byteMark_and_byteMask, Nat.shiftRight_eq_div_pow,
      Nat.div_div_eq_div_mul]
    rw [or_firstByteMark_four (by omega), ← he, UInt8.ofNat_toNat, ← hd, UInt8.ofNat_toNat,
      ← hb, UInt8.ofNat_toNat, ← ha, UInt8.ofNat_toNat]
    rfl

/-- A scalar value takes as many bytes as its UTF-8 form has. -/
theorem bytesToWrite_eq (c : Char) : bytesToWrite c.toNat = (String.utf8EncodeChar c).length := by
  rw [← byteSeq_eq, length_byteSeq]

/-- **Writing a scalar value stores its UTF-8 form.** -/
theorem writeUTF8_encode {targetEnd : Option ℤ} {c : Cursor UInt8} {ch : Char} (oldSource : ℕ)
    (hroom : lacksRoom targetEnd c.target (String.utf8EncodeChar ch).length = false) :
    writeUTF8 targetEnd oldSource ch.toNat c =
      .next ⟨c.source, c.target + (String.utf8EncodeChar ch).length,
        stored targetEnd c.dst c.target (String.utf8EncodeChar ch)⟩ := by
  have hvalid := char_toNat_valid ch
  rw [← bytesToWrite_eq] at hroom ⊢
  unfold writeUTF8
  simp only [hroom, if_pos (show ch.toNat < 0x110000 by omega)]
  cases targetEnd with
  | none => simp [stored]
  | some e => simp only [storeBytes_eq, byteSeq_eq, stored, Bool.false_eq_true, if_false]

/-! ### Reading UTF-16 -/

/-- **A round on the UTF-16 form of a scalar value** stores its UTF-8 form. -/
theorem roundUTF16_encode {src : ℕ → UInt16} {sourceEnd : ℤ} {targetEnd : Option ℤ}
    {flags : ConversionFlags} {c : Cursor UInt8} {ch : Char}
    (hsrc : Holds src c.source (utf16EncodeChar ch))
    (hend : (c.source + (utf16EncodeChar ch).length : ℕ) ≤ sourceEnd)
    (hroom : lacksRoom targetEnd c.target (String.utf8EncodeChar ch).length = false) :
    roundUTF16 src sourceEnd targetEnd flags c =
      .next ⟨c.source + (utf16EncodeChar ch).length,
        c.target + (String.utf8EncodeChar ch).length,
        stored targetEnd c.dst c.target (String.utf8EncodeChar ch)⟩ := by
  rcases Nat.lt_or_ge ch.toNat 0x10000 with hch | hch
  · obtain ⟨x, hx, hxN, hhigh, hlow⟩ := utf16EncodeChar_of_lt hch
    rw [hx, holds_cons] at hsrc
    have hhigh' : ¬ (uniSurHighStart ≤ x.toNat ∧ x.toNat ≤ uniSurHighEnd) := hhigh
    have hlow' : ¬ (flags = .strictConversion ∧ uniSurLowStart ≤ x.toNat ∧
        x.toNat ≤ uniSurLowEnd) := fun h => hlow h.2
    rw [hxN] at hhigh' hlow'
    rw [roundUTF16]
    simp only [hsrc.1, if_neg hhigh', if_neg hlow', hx, hxN]
    exact writeUTF8_encode c.source hroom
  · obtain ⟨x, y, hxy, hhigh, hlow, hxN, hyN⟩ := utf16EncodeChar_of_ge hch
    rw [hxy, holds_cons, holds_cons] at hsrc
    rw [hxy] at hend
    have hnext : ((c.source + 1 : ℕ) : ℤ) < sourceEnd := by
      rw [List.length_cons, List.length_singleton] at hend
      omega
    have hhigh' : uniSurHighStart ≤ x.toNat ∧ x.toNat ≤ uniSurHighEnd := hhigh
    have hlow' : uniSurLowStart ≤ y.toNat ∧ y.toNat ≤ uniSurLowEnd := hlow
    -- Putting the two halves together again gives the scalar value.
    have hch' : ((x.toNat - uniSurHighStart) <<< halfShift) + (y.toNat - uniSurLowStart) +
        halfBase = ch.toNat := by
      rw [Nat.shiftLeft_eq, hxN, hyN, uniSurHighStart, uniSurLowStart, halfShift, halfBase]
      omega
    rw [roundUTF16]
    simp only [hsrc.1, hsrc.2.1, if_pos hhigh', if_pos hnext, if_pos hlow', hch', hxy]
    exact writeUTF8_encode c.source hroom

/-! ### Reading UTF-8 -/

theorem legalFirst_iff (a : ℕ) : legalFirst a = true ↔ (a < 0x80 ∨ 0xC2 ≤ a) ∧ a ≤ 0xF4 := by
  simp only [legalFirst, Bool.and_eq_true, Bool.not_eq_true', Bool.and_eq_false_iff,
    decide_eq_false_iff_not, Nat.not_le, Nat.not_lt]

theorem legalTrail_iff (a : ℕ) : legalTrail a = true ↔ 0x80 ≤ a ∧ a ≤ 0xBF := by
  simp only [legalTrail, Bool.not_eq_true', Bool.or_eq_false_iff, decide_eq_false_iff_not,
    Nat.not_lt]

/-- After `0xED` and `0xF4` the code has no lower bound for the second byte. -/
theorem legalSecond_iff (first a : ℕ) : legalSecond first a = true ↔ a ≤ 0xBF ∧
    (first = 0xE0 → 0xA0 ≤ a) ∧ (first = 0xED → a ≤ 0x9F) ∧ (first = 0xF0 → 0x90 ≤ a) ∧
    (first = 0xF4 → a ≤ 0x8F) ∧
    (first ≠ 0xE0 → first ≠ 0xED → first ≠ 0xF0 → first ≠ 0xF4 → 0x80 ≤ a) := by
  unfold legalSecond
  rw [Bool.and_eq_true, Bool.not_eq_true', decide_eq_false_iff_not]
  split
  case h_5 h₁ h₂ h₃ h₄ =>
    rw [Bool.not_eq_true', decide_eq_false_iff_not]
    have h₁' : first ≠ 0xE0 := h₁
    have h₂' : first ≠ 0xED := h₂
    have h₃' : first ≠ 0xF0 := h₃
    have h₄' : first ≠ 0xF4 := h₄
    omega
  all_goals
    rw [Bool.not_eq_true', decide_eq_false_iff_not]
    omega

/-- What the bytes at `p` are to the reading half of a round: `k` trailing bytes, legal, and
adding up to `n` once the marks are taken off. -/
structure Decodes (src : ℕ → UInt8) (p k n : ℕ) : Prop where
  trailing : trailingBytesForUTF8 (src p) = k
  legal : isLegalUTF8 src p (k + 1) = true
  read : readBytes src k 0 p = (n + offsetsFromUTF8 k, p + (k + 1))

/-- **The UTF-8 form of a scalar value decodes to it.** -/
theorem decode_utf8EncodeChar {src : ℕ → UInt8} {p : ℕ} {ch : Char}
    (hsrc : Holds src p (String.utf8EncodeChar ch)) :
    ∃ k, (String.utf8EncodeChar ch).length = k + 1 ∧ Decodes src p k ch.toNat := by
  have hvalid := char_toNat_valid ch
  rcases Nat.lt_or_ge ch.toNat 0x80 with h₁ | h₁
  · obtain ⟨a, ha, haN⟩ := utf8EncodeChar_one h₁
    rw [ha, holds_cons] at hsrc
    refine ⟨0, by rw [ha]; rfl, ?_, ?_, ?_⟩
    · rw [hsrc.1, trailingBytesForUTF8, if_pos (by omega)]
    · simp only [isLegalUTF8, Nat.add_zero, hsrc.1, legalFirst_iff]
      omega
    · simp only [readBytes, hsrc.1, haN, offsetsFromUTF8, Prod.mk.injEq, and_true]
      omega
  rcases Nat.lt_or_ge ch.toNat 0x800 with h₂ | h₂
  · obtain ⟨a, b, hab, ha, hb⟩ := utf8EncodeChar_two h₁ h₂
    rw [hab, holds_cons, holds_cons] at hsrc
    obtain ⟨hpa, hpb, -⟩ := hsrc
    refine ⟨1, by rw [hab]; rfl, ?_, ?_, ?_⟩
    · rw [hpa, trailingBytesForUTF8, if_neg (by omega), if_pos (by omega)]
    · simp only [isLegalUTF8, Nat.add_zero, hpa, hpb, Bool.and_eq_true, legalFirst_iff,
        legalSecond_iff]
      omega
    · simp only [readBytes, hpa, hpb, ha, hb, offsetsFromUTF8, Nat.shiftLeft_eq,
        Prod.mk.injEq, and_true]
      omega
  rcases Nat.lt_or_ge ch.toNat 0x10000 with h₃ | h₃
  · obtain ⟨a, b, d, hab, ha, hb, hd⟩ := utf8EncodeChar_three h₂ h₃
    rw [hab, holds_cons, holds_cons, holds_cons] at hsrc
    obtain ⟨hpa, hpb, hpd, -⟩ := hsrc
    refine ⟨2, by rw [hab]; rfl, ?_, ?_, ?_⟩
    · rw [hpa, trailingBytesForUTF8, if_neg (by omega), if_neg (by omega), if_pos (by omega)]
    · simp only [isLegalUTF8, Nat.add_zero, hpa, hpb, hpd, Bool.and_eq_true, legalFirst_iff,
        legalSecond_iff, legalTrail_iff]
      omega
    · simp only [readBytes, hpa, hpb, hpd, ha, hb, hd, offsetsFromUTF8, Nat.shiftLeft_eq,
        Prod.mk.injEq, and_true]
      omega
  · obtain ⟨a, b, d, e, hab, ha, hb, hd, he⟩ := utf8EncodeChar_four h₃
    rw [hab, holds_cons, holds_cons, holds_cons, holds_cons] at hsrc
    obtain ⟨hpa, hpb, hpd, hpe, -⟩ := hsrc
    refine ⟨3, by rw [hab]; rfl, ?_, ?_, ?_⟩
    · rw [hpa, trailingBytesForUTF8, if_neg (by omega), if_neg (by omega), if_neg (by omega),
        if_pos (by omega)]
    · simp only [isLegalUTF8, Nat.add_zero, hpa, hpb, hpd, hpe, Bool.and_eq_true,
        legalFirst_iff, legalSecond_iff, legalTrail_iff]
      omega
    · simp only [readBytes, hpa, hpb, hpd, hpe, ha, hb, hd, he, offsetsFromUTF8,
        Nat.shiftLeft_eq,
        Prod.mk.injEq, and_true]
      omega

/-! ### Writing UTF-16 -/

/-- Where there is room for some units, there is room for fewer. -/
theorem lacksRoom_mono {targetEnd : Option ℤ} {target m n : ℕ} (hmn : m ≤ n)
    (h : lacksRoom targetEnd target n = false) : lacksRoom targetEnd target m = false := by
  cases targetEnd with
  | none => rfl
  | some e =>
    rw [lacksRoom, decide_eq_false_iff_not] at h ⊢
    omega

/-- Putting one unit. -/
theorem putUnit_eq (targetEnd : Option ℤ) (x : ℕ) (c : Cursor UInt16) :
    putUnit targetEnd x c =
      ⟨c.source, c.target + 1, stored targetEnd c.dst c.target [UInt16.ofNat x]⟩ := by
  cases targetEnd <;> rfl

/-- Putting two units, one after the other. -/
theorem putUnit_putUnit (targetEnd : Option ℤ) (x y : ℕ) (c : Cursor UInt16) :
    putUnit targetEnd y (putUnit targetEnd x c) =
      ⟨c.source, c.target + 2,
        stored targetEnd c.dst c.target [UInt16.ofNat x, UInt16.ofNat y]⟩ := by
  cases targetEnd <;> rfl

/-- **Writing a scalar value stores its UTF-16 form.** -/
theorem writeUTF16_encode {targetEnd : Option ℤ} {flags : ConversionFlags} {c : Cursor UInt16}
    {ch : Char} (extraBytesToRead : ℕ)
    (hroom : lacksRoom targetEnd c.target (utf16EncodeChar ch).length = false) :
    writeUTF16 targetEnd flags extraBytesToRead ch.toNat c =
      .next ⟨c.source, c.target + (utf16EncodeChar ch).length,
        stored targetEnd c.dst c.target (utf16EncodeChar ch)⟩ := by
  have hvalid := char_toNat_valid ch
  rcases Nat.lt_or_ge ch.toNat 0x10000 with hch | hch
  · have henc : utf16EncodeChar ch = [UInt16.ofNat ch.toNat] := if_pos hch
    rw [henc] at hroom ⊢
    have hbmp : ch.toNat ≤ uniMaxBmp := Nat.le_of_lt_succ hch
    have hsur : ¬ (uniSurHighStart ≤ ch.toNat ∧ ch.toNat ≤ uniSurLowEnd) := by
      rw [uniSurHighStart, uniSurLowEnd]
      omega
    have hroom₁ : ¬ lacksRoom targetEnd c.target 1 = true := Bool.not_eq_true _ ▸ hroom
    rw [writeUTF16, if_neg hroom₁, if_pos hbmp, if_neg hsur, putUnit_eq]
    rfl
  · have henc : utf16EncodeChar ch = [UInt16.ofNat (0xD800 + (ch.toNat - 0x10000) / 0x400),
        UInt16.ofNat (0xDC00 + (ch.toNat - 0x10000) % 0x400)] := if_neg (by omega)
    rw [henc] at hroom ⊢
    have hroom₂ : ¬ lacksRoom targetEnd c.target 2 = true := Bool.not_eq_true _ ▸ hroom
    have hroom₁ : ¬ lacksRoom targetEnd c.target 1 = true :=
      Bool.not_eq_true _ ▸ lacksRoom_mono (Nat.le_succ 1) hroom
    have hbmp : ¬ ch.toNat ≤ uniMaxBmp := by
      rw [uniMaxBmp]
      omega
    have hmax : ¬ uniMaxUtf16 < ch.toNat := by
      rw [uniMaxUtf16]
      omega
    -- The two halves, by arithmetic instead of shift and mask.
    have hhigh : ((ch.toNat - halfBase) >>> halfShift) + uniSurHighStart =
        0xD800 + (ch.toNat - 0x10000) / 0x400 := by
      rw [Nat.shiftRight_eq_div_pow, Nat.add_comm]
      rfl
    have hlow : ((ch.toNat - halfBase) &&& halfMask) + uniSurLowStart =
        0xDC00 + (ch.toNat - 0x10000) % 0x400 := by
      rw [show halfMask = 2 ^ 10 - 1 from rfl, Nat.and_two_pow_sub_one_eq_mod, Nat.add_comm]
      rfl
    rw [writeUTF16, if_neg hroom₁, if_neg hbmp, if_neg hmax, if_neg hroom₂]
    simp only [putUnit_putUnit, hhigh, hlow]
    rfl

/-- **A round on the UTF-8 form of a scalar value** stores its UTF-16 form. -/
theorem roundUTF8_encode {src : ℕ → UInt8} {sourceEnd : ℤ} {targetEnd : Option ℤ}
    {flags : ConversionFlags} {c : Cursor UInt16} {ch : Char}
    (hsrc : Holds src c.source (String.utf8EncodeChar ch))
    (hend : (c.source + (String.utf8EncodeChar ch).length : ℕ) ≤ sourceEnd)
    (hroom : lacksRoom targetEnd c.target (utf16EncodeChar ch).length = false) :
    roundUTF8 src sourceEnd targetEnd flags c =
      .next ⟨c.source + (String.utf8EncodeChar ch).length,
        c.target + (utf16EncodeChar ch).length,
        stored targetEnd c.dst c.target (utf16EncodeChar ch)⟩ := by
  obtain ⟨k, hk, hdec⟩ := decode_utf8EncodeChar hsrc
  have hvalid := char_toNat_valid ch
  have hin : ¬ sourceEnd ≤ ((c.source + k : ℕ) : ℤ) := by
    rw [hk] at hend
    omega
  -- Taking the offset off again does not wrap.
  have hch : (ch.toNat + offsetsFromUTF8 k + 2 ^ 32 - offsetsFromUTF8 k) % 2 ^ 32 = ch.toNat := by
    omega
  rw [roundUTF8]
  simp only [hdec.trailing, hdec.legal, hdec.read, if_neg hin, hch, hk, Bool.not_true,
    Bool.false_eq_true, if_false]
  exact writeUTF16_encode k hroom

/-! ### Every round moves on -/

theorem writeUTF8_next {targetEnd : Option ℤ} {oldSource ch : ℕ} {c c' : Cursor UInt8}
    (h : writeUTF8 targetEnd oldSource ch c = .next c') : c'.source = c.source := by
  simp only [writeUTF8] at h
  split at h
  · cases h
  · cases targetEnd with
    | none =>
      cases h
      rfl
    | some e =>
      cases h
      rfl

/-- A round of `convertUTF16toUTF8` that goes on has moved the source pointer. -/
theorem roundUTF16_next {src : ℕ → UInt16} {sourceEnd : ℤ} {targetEnd : Option ℤ}
    {flags : ConversionFlags} {c c' : Cursor UInt8}
    (h : roundUTF16 src sourceEnd targetEnd flags c = .next c') : c.source < c'.source := by
  simp only [roundUTF16] at h
  split_ifs at h
  all_goals
    rw [writeUTF8_next h]
    simp only
    omega

theorem putUnit_source (targetEnd : Option ℤ) (x : ℕ) (c : Cursor UInt16) :
    (putUnit targetEnd x c).source = c.source := by
  rw [putUnit_eq]

theorem writeUTF16_next {targetEnd : Option ℤ} {flags : ConversionFlags} {k ch : ℕ}
    {c c' : Cursor UInt16} (h : writeUTF16 targetEnd flags k ch c = .next c') :
    c'.source = c.source := by
  simp only [writeUTF16] at h
  split_ifs at h
  all_goals
    cases h
    simp only [putUnit_source]

theorem readBytes_source (src : ℕ → UInt8) (k ch p : ℕ) :
    (readBytes src k ch p).2 = p + (k + 1) := by
  induction k generalizing ch p with
  | zero => rfl
  | succ k ih =>
    rw [readBytes, ih]
    omega

/-- A round of `convertUTF8toUTF16` that goes on has moved the source pointer. -/
theorem roundUTF8_next {src : ℕ → UInt8} {sourceEnd : ℤ} {targetEnd : Option ℤ}
    {flags : ConversionFlags} {c c' : Cursor UInt16}
    (h : roundUTF8 src sourceEnd targetEnd flags c = .next c') : c.source < c'.source := by
  simp only [roundUTF8] at h
  split_ifs at h
  rw [writeUTF16_next h]
  simp only [readBytes_source]
  omega

end Unicode

end Libuzi
