import Libuzi.Unicode.RoundTrip

/-!
# A round reads, then writes

The two converters interleave reading the source, checking it, testing for room and
storing, and they do the last two in separately coded branches for a call that writes and
a call for the length. This file takes a round apart: what it reads is a function of the
source alone (`decodeUTF16`, `decodeUTF8`), an error or the number of units read together
with the units to write, and the rest is the same for both converters and for both kinds
of call (`emit`). The rounds of the code are the composition of the two, for every source,
well formed or not (`roundUTF16_eq`, `roundUTF8_eq`).

A round that stops leaves the cursor as it was: each of the hand-computed back-ups of the
pointers is right.

In the other direction one thing has to be shown: after `isLegalUTF8` has said yes, the
character is in range and no surrogate (`legal_scalar`), so that the two tests for this
that come after the test for room never succeed.
-/

namespace Libuzi

namespace Unicode

/-- What a round reads: an error, or how many units it takes and the units they become. -/
abbrev Piece (β : Type) : Type := Except ConversionResult (ℕ × List β)

/-- **What a round does with what it has read.** -/
def emit {β : Type} (targetEnd : Option ℤ) (c : Cursor β) : Piece β → Round β
  | .error r => .stop c r
  | .ok (n, xs) =>
    if lacksRoom targetEnd c.target xs.length then .stop c .targetExhausted
    else .next ⟨c.source + n, c.target + xs.length, stored targetEnd c.dst c.target xs⟩

/-! ### From UTF-16 -/

/-- The bytes of a character, those of the replacement character if it is out of range. -/
def utf8Bytes (ch : ℕ) : List UInt8 :=
  byteSeq (bytesToWrite ch) (bytesToWrite ch) (if ch < 0x110000 then ch else uniReplacementChar)

/-- **What a round of `convertUTF16toUTF8` reads at `p`.** -/
def decodeUTF16 (src : ℕ → UInt16) (sourceEnd : ℤ) (flags : ConversionFlags) (p : ℕ) :
    Piece UInt8 :=
  let ch := (src p).toNat
  if uniSurHighStart ≤ ch ∧ ch ≤ uniSurHighEnd then
    if ((p + 1 : ℕ) : ℤ) < sourceEnd then
      let ch2 := (src (p + 1)).toNat
      if uniSurLowStart ≤ ch2 ∧ ch2 ≤ uniSurLowEnd then
        .ok (2, utf8Bytes
          (((ch - uniSurHighStart) <<< halfShift) + (ch2 - uniSurLowStart) + halfBase))
      else if flags = .strictConversion then .error .sourceIllegal
      else .ok (1, utf8Bytes ch)
    else .error .sourceExhausted
  else if flags = .strictConversion ∧ uniSurLowStart ≤ ch ∧ ch ≤ uniSurLowEnd then
    .error .sourceIllegal
  else .ok (1, utf8Bytes ch)

theorem length_utf8Bytes (ch : ℕ) : (utf8Bytes ch).length = bytesToWrite ch :=
  length_byteSeq _ _ _

/-- Writing a character, whatever it is. -/
theorem writeUTF8_eq (targetEnd : Option ℤ) (n ch : ℕ) (c : Cursor UInt8) :
    writeUTF8 targetEnd c.source ch { c with source := c.source + n } =
      emit targetEnd c (.ok (n, utf8Bytes ch)) := by
  simp only [writeUTF8, emit, length_utf8Bytes]
  split
  · rw [Nat.add_sub_cancel]
  · cases targetEnd with
    | none =>
      rw [Nat.add_sub_cancel]
      rfl
    | some e =>
      rw [storeBytes_eq]
      rfl

/-- **A round of `convertUTF16toUTF8` reads, then writes.** -/
theorem roundUTF16_eq (src : ℕ → UInt16) (sourceEnd : ℤ) (targetEnd : Option ℤ)
    (flags : ConversionFlags) (c : Cursor UInt8) :
    roundUTF16 src sourceEnd targetEnd flags c =
      emit targetEnd c (decodeUTF16 src sourceEnd flags c.source) := by
  simp only [roundUTF16, decodeUTF16]
  split_ifs
  · exact writeUTF8_eq targetEnd 2 _ c
  · rfl
  · exact writeUTF8_eq targetEnd 1 _ c
  · rfl
  · rfl
  · exact writeUTF8_eq targetEnd 1 _ c

/-! ### From UTF-8 -/

/-- The character that the `k + 1` bytes at `p` add up to. -/
def readChar (src : ℕ → UInt8) (k p : ℕ) : ℕ :=
  ((readBytes src k 0 p).1 + 2 ^ 32 - offsetsFromUTF8 k) % 2 ^ 32

/-- The units of a character: one, or a surrogate pair. -/
def utf16Units (ch : ℕ) : List UInt16 :=
  if ch ≤ uniMaxBmp then [UInt16.ofNat ch]
  else [UInt16.ofNat (((ch - halfBase) >>> halfShift) + uniSurHighStart),
    UInt16.ofNat (((ch - halfBase) &&& halfMask) + uniSurLowStart)]

/-- **What a round of `convertUTF8toUTF16` reads at `p`.** -/
def decodeUTF8 (src : ℕ → UInt8) (sourceEnd : ℤ) (p : ℕ) : Piece UInt16 :=
  let k := trailingBytesForUTF8 (src p)
  if sourceEnd ≤ (p + k : ℕ) then .error .sourceExhausted
  else if !isLegalUTF8 src p (k + 1) then .error .sourceIllegal
  else .ok (k + 1, utf16Units (readChar src k p))

/-- The ranges of first bytes, by how many bytes follow. -/
theorem trailing_cases (b : UInt8) :
    trailingBytesForUTF8 b = 0 ∧ b.toNat < 0xC0 ∨
      trailingBytesForUTF8 b = 1 ∧ 0xC0 ≤ b.toNat ∧ b.toNat < 0xE0 ∨
      trailingBytesForUTF8 b = 2 ∧ 0xE0 ≤ b.toNat ∧ b.toNat < 0xF0 ∨
      trailingBytesForUTF8 b = 3 ∧ 0xF0 ≤ b.toNat ∧ b.toNat < 0xF8 ∨
      4 ≤ trailingBytesForUTF8 b := by
  rw [trailingBytesForUTF8]
  split_ifs <;> omega

/-- **A legal sequence adds up to a scalar value.** -/
theorem legal_scalar {src : ℕ → UInt8} {p : ℕ}
    (h : isLegalUTF8 src p (trailingBytesForUTF8 (src p) + 1) = true) :
    readChar src (trailingBytesForUTF8 (src p)) p < 0xD800 ∨
      0xDFFF < readChar src (trailingBytesForUTF8 (src p)) p ∧
        readChar src (trailingBytesForUTF8 (src p)) p < 0x110000 := by
  have h₀ : (src p).toNat < 256 := (src p).toNat_lt
  have h₁ : (src (p + 1)).toNat < 256 := (src (p + 1)).toNat_lt
  have hp₂ : p + 1 + 1 = p + 2 := rfl
  have hp₃ : p + 2 + 1 = p + 3 := rfl
  rcases trailing_cases (src p) with ⟨hk, hb⟩ | ⟨hk, hb⟩ | ⟨hk, hb⟩ | ⟨hk, hb⟩ | hk
  · rw [hk] at h ⊢
    simp only [isLegalUTF8, Nat.add_zero, legalFirst_iff] at h
    simp only [readChar, readBytes, offsetsFromUTF8]
    omega
  · rw [hk] at h ⊢
    simp only [isLegalUTF8, Nat.add_zero, Bool.and_eq_true, legalFirst_iff,
      legalSecond_iff] at h
    simp only [readChar, readBytes, offsetsFromUTF8, Nat.shiftLeft_eq]
    omega
  · rw [hk] at h ⊢
    simp only [isLegalUTF8, Nat.add_zero, Bool.and_eq_true, legalFirst_iff, legalSecond_iff,
      legalTrail_iff] at h
    simp only [readChar, readBytes, offsetsFromUTF8, Nat.shiftLeft_eq, hp₂]
    omega
  · rw [hk] at h ⊢
    simp only [isLegalUTF8, Nat.add_zero, Bool.and_eq_true, legalFirst_iff, legalSecond_iff,
      legalTrail_iff] at h
    simp only [readChar, readBytes, offsetsFromUTF8, Nat.shiftLeft_eq, hp₂, hp₃]
    omega
  · -- Four or five trailing bytes are never legal.
    obtain ⟨j, hj⟩ := Nat.exists_eq_add_of_le' hk
    rw [hj] at h
    cases h

/-- Writing a scalar value: neither of the two tests on the character succeeds. -/
theorem writeUTF16_eq (targetEnd : Option ℤ) (flags : ConversionFlags) {k ch : ℕ}
    (c : Cursor UInt16) (hch : ch < 0xD800 ∨ 0xDFFF < ch ∧ ch < 0x110000) :
    writeUTF16 targetEnd flags k ch { c with source := c.source + (k + 1) } =
      emit targetEnd c (.ok (k + 1, utf16Units ch)) := by
  rcases Nat.lt_or_ge uniMaxBmp ch with hbmp | hbmp
  · have hmax : ¬ uniMaxUtf16 < ch := by
      rw [uniMaxBmp] at hbmp
      rw [uniMaxUtf16]
      omega
    simp only [writeUTF16, emit, utf16Units, if_neg (Nat.not_le.mpr hbmp), if_neg hmax,
      putUnit_putUnit, Nat.add_sub_cancel, List.length_cons, List.length_nil]
    -- A full target fails both tests for room.
    cases hroom : lacksRoom targetEnd c.target 2 with
    | true => simp only [Nat.reduceAdd, if_true, ite_self]
    | false =>
      have hroom₁ := lacksRoom_mono (Nat.le_succ 1) hroom
      simp only [Nat.reduceAdd, hroom₁, Bool.false_eq_true, if_false]
  · have hsur : ¬ (uniSurHighStart ≤ ch ∧ ch ≤ uniSurLowEnd) := by
      rw [uniSurHighStart, uniSurLowEnd]
      omega
    simp only [writeUTF16, emit, utf16Units, if_pos hbmp, if_neg hsur, putUnit_eq,
      Nat.add_sub_cancel, List.length_cons, List.length_nil, Nat.zero_add]

/-- **A round of `convertUTF8toUTF16` reads, then writes.** -/
theorem roundUTF8_eq (src : ℕ → UInt8) (sourceEnd : ℤ) (targetEnd : Option ℤ)
    (flags : ConversionFlags) (c : Cursor UInt16) :
    roundUTF8 src sourceEnd targetEnd flags c =
      emit targetEnd c (decodeUTF8 src sourceEnd c.source) := by
  simp only [roundUTF8, decodeUTF8]
  split_ifs with hend hlegal
  · rfl
  · rfl
  · rw [readBytes_source]
    exact writeUTF16_eq targetEnd flags c (legal_scalar (by simpa using hlegal))

end Unicode

end Libuzi
