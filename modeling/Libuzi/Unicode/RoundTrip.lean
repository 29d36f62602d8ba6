import Libuzi.Unicode.Rounds
import Mathlib.Algebra.Order.Ring.Int

/-!
# Converting there and back

A text that is converted and converted back is unchanged. A converter is a loop of
rounds, and a round on one character has been dealt with in `Libuzi.Unicode.Rounds`; what
is left is the induction over the text, and it is the same in both directions. So it is
made once, for a loop of rounds between any two encodings (`convertLoop_text`), and the
two converters are instances: on the encoding of a text, with room for the other encoding,
`uziUtf16toUtf8` and `uziUtf8toUtf16` store exactly the other encoding and return its
length (`uziUtf16toUtf8_text`, `uziUtf8toUtf16_text`).

The round trip (`unicode_round_trip`) then follows for every well-formed sequence, since
being well formed is being the encoding of a text.
-/

namespace Libuzi

namespace Unicode

open Buffer

/-! ### The run of a converter on a text -/

/-- Room for two sequences is room for the second after the first. -/
theorem lacksRoom_add {targetEnd : Option ℤ} {target m n : ℕ}
    (h : lacksRoom targetEnd target (m + n) = false) :
    lacksRoom targetEnd (target + m) n = false := by
  cases targetEnd with
  | none => rfl
  | some e =>
    rw [lacksRoom, decide_eq_false_iff_not] at h ⊢
    omega

section Run

variable {α β : Type} {src : ℕ → α} {sourceEnd : ℤ} {targetEnd : Option ℤ}
  {round : Cursor β → Round β} {enc : Char → List α} {enc' : Char → List β}

/-- When every round moves the source pointer, the distance to the end is a variant. -/
theorem decreases_of_next (hnext : ∀ c c', round c = .next c' → c.source < c'.source) :
    Loop.Decreases (fun c : Cursor β => decide ((c.source : ℤ) < sourceEnd)) round
      (fun c => (sourceEnd - c.source).toNat) := by
  constructor
  · intro c hc
    have hc' := of_decide_eq_true hc
    omega
  · intro c c' hc hround
    have hc' := of_decide_eq_true hc
    have := hnext c c' hround
    omega

/-- The loop ends well at the end of the source. -/
theorem convertLoop_done {c : Cursor β} (h : sourceEnd ≤ c.source) :
    convertLoop sourceEnd round c = (c, .conversionOK) :=
  Loop.whileLoop_done (decide_eq_false (Int.not_lt.mpr h))

/-- A round of the loop that goes on. -/
theorem convertLoop_next (hnext : ∀ c c', round c = .next c' → c.source < c'.source)
    {c c' : Cursor β} (h : (c.source : ℤ) < sourceEnd) (hround : round c = .next c') :
    convertLoop sourceEnd round c = convertLoop sourceEnd round c' :=
  Loop.whileLoop_next (decreases_of_next hnext) (decide_eq_true h) hround

/-- A round of the loop that stops. -/
theorem convertLoop_stop (hnext : ∀ c c', round c = .next c' → c.source < c'.source)
    {c c' : Cursor β} {r : ConversionResult} (h : (c.source : ℤ) < sourceEnd)
    (hround : round c = .stop c' r) : convertLoop sourceEnd round c = (c', r) :=
  Loop.whileLoop_stop (decreases_of_next hnext) (decide_eq_true h) hround

/-- **The run of a converter on a text.** If a round turns the encoding `enc` of a
character into its encoding `enc'`, then the loop turns the encoding of a text into its
other encoding, and ends well at the end of the source. -/
theorem convertLoop_text (hnext : ∀ c c', round c = .next c' → c.source < c'.source)
    (henc : ∀ ch, 0 < (enc ch).length)
    (hround : ∀ c ch, Holds src c.source (enc ch) →
      (c.source + (enc ch).length : ℕ) ≤ sourceEnd →
      lacksRoom targetEnd c.target (enc' ch).length = false →
      round c = .next ⟨c.source + (enc ch).length, c.target + (enc' ch).length,
        stored targetEnd c.dst c.target (enc' ch)⟩)
    (cs : List Char) (c : Cursor β) (hsrc : Holds src c.source (cs.flatMap enc))
    (hend : (c.source + (cs.flatMap enc).length : ℕ) = sourceEnd)
    (hroom : lacksRoom targetEnd c.target (cs.flatMap enc').length = false) :
    convertLoop sourceEnd round c =
      (⟨c.source + (cs.flatMap enc).length, c.target + (cs.flatMap enc').length,
        stored targetEnd c.dst c.target (cs.flatMap enc')⟩, .conversionOK) := by
  induction cs generalizing c with
  | nil =>
    rw [convertLoop_done (Int.le_of_eq hend.symm)]
    cases targetEnd <;> rfl
  | cons ch cs ih =>
    simp only [List.flatMap_cons, List.length_append] at hsrc hend hroom ⊢
    obtain ⟨hch, hcs⟩ := holds_append.mp hsrc
    have hpos := henc ch
    have hstep := hround c ch hch (by omega) (lacksRoom_mono (Nat.le_add_right _ _) hroom)
    rw [convertLoop_next hnext (by omega) hstep,
      ih _ hcs (by simp only; omega) (lacksRoom_add hroom), stored_append, Nat.add_assoc,
      Nat.add_assoc]

end Run

/-! ### The two converters on a text -/

/-- The two forms of a scalar value differ little in length. -/
theorem length_encodeChar (c : Char) : 1 ≤ (utf16EncodeChar c).length ∧
    (utf16EncodeChar c).length ≤ (String.utf8EncodeChar c).length ∧
    (String.utf8EncodeChar c).length ≤ 3 * (utf16EncodeChar c).length := by
  rw [← bytesToWrite_eq, bytesToWrite, utf16EncodeChar]
  have := char_toNat_valid c
  split_ifs
  all_goals
    simp only [List.length_cons, List.length_nil]
    omega

/-- **The two forms of a text differ little in length.** -/
theorem length_encode (cs : List Char) : (utf16Encode cs).length ≤ (utf8Encode cs).length ∧
    (utf8Encode cs).length ≤ 3 * (utf16Encode cs).length := by
  induction cs with
  | nil => exact ⟨Nat.le_refl _, Nat.zero_le _⟩
  | cons c cs ih =>
    have hc := length_encodeChar c
    rw [utf16Encode_cons, utf8Encode_cons, List.length_append, List.length_append]
    omega

/-- **The run of `convertUTF16toUTF8` on a text.** -/
theorem convertUTF16toUTF8_text {src : ℕ → UInt16} {sourceEnd : ℤ} {targetEnd : Option ℤ}
    {cs : List Char} (flags : ConversionFlags) (c : Cursor UInt8)
    (hsrc : Holds src c.source (utf16Encode cs))
    (hend : (c.source + (utf16Encode cs).length : ℕ) = sourceEnd)
    (hroom : lacksRoom targetEnd c.target (utf8Encode cs).length = false) :
    convertUTF16toUTF8 src sourceEnd targetEnd flags c =
      (⟨c.source + (utf16Encode cs).length, c.target + (utf8Encode cs).length,
        stored targetEnd c.dst c.target (utf8Encode cs)⟩, .conversionOK) := by
  refine convertLoop_text (fun d d' hd => roundUTF16_next hd) (fun ch => ?_)
    (fun d ch h₁ h₂ h₃ => roundUTF16_encode h₁ h₂ h₃) cs c hsrc hend hroom
  exact (length_encodeChar ch).1

/-- **The run of `convertUTF8toUTF16` on a text.** -/
theorem convertUTF8toUTF16_text {src : ℕ → UInt8} {sourceEnd : ℤ} {targetEnd : Option ℤ}
    {cs : List Char} (flags : ConversionFlags) (c : Cursor UInt16)
    (hsrc : Holds src c.source (utf8Encode cs))
    (hend : (c.source + (utf8Encode cs).length : ℕ) = sourceEnd)
    (hroom : lacksRoom targetEnd c.target (utf16Encode cs).length = false) :
    convertUTF8toUTF16 src sourceEnd targetEnd flags c =
      (⟨c.source + (utf8Encode cs).length, c.target + (utf16Encode cs).length,
        stored targetEnd c.dst c.target (utf16Encode cs)⟩, .conversionOK) := by
  refine convertLoop_text (fun d d' hd => roundUTF8_next hd) (fun ch => ?_)
    (fun d ch h₁ h₂ h₃ => roundUTF8_encode h₁ h₂ h₃) cs c hsrc hend hroom
  exact (length_encodeChar ch).1.trans (length_encodeChar ch).2.1

/-! ### The exported functions on a text -/

/-- A call that gives the length explicitly asks for no terminator. -/
theorem terminated_natCast {α : Type} [Zero α] (src : ℕ → α) (n : ℕ) : Terminated src n := by
  intro h
  omega

/-- An exported call whose conversion ends well returns how far the target pointer got. -/
theorem uziConvert_of_ok {α β : Type} [Zero α] [DecidableEq α]
    {convert : (ℕ → α) → ℤ → Option ℤ → ConversionFlags → Cursor β → Cursor β × ConversionResult}
    {src : ℕ → α} {n m : ℕ} {dst : ℕ → β} {cchDst : ℤ} {c : Cursor β}
    (hpos : 0 < cchDst) (hint : (m : ℤ) < 2 ^ 31) (hc : c.target = m)
    (h : convert src n (some cchDst) .strictConversion ⟨0, 0, dst⟩ = (c, .conversionOK)) :
    uziConvert convert src n (terminated_natCast src n) dst cchDst =
      ((m : ℤ), c.dst) := by
  have hn : ¬ (n : ℤ) = -1 := by omega
  have hm : toInt m = m := Int.bmod_eq_of_le (by omega) (by omega)
  unfold uziConvert
  simp only [dif_neg hn, if_neg hpos.ne', h, if_true, hc, hm]

/-- A target of `cap` units has room for any sequence that is not longer. -/
theorem lacksRoom_zero {cap : ℤ} {n : ℕ} (h : n ≤ cap) : lacksRoom (some cap) 0 n = false := by
  rw [lacksRoom, decide_eq_false_iff_not]
  omega

/-- **`uziUtf16toUtf8` on a text** stores its UTF-8 form and returns the length of that. -/
theorem uziUtf16toUtf8_text {src : ℕ → UInt16} {cs : List Char}
    (hsrc : Holds src 0 (utf16Encode cs)) (dst : ℕ → UInt8) {cap : ℤ} (hpos : 0 < cap)
    (hcap : (utf8Encode cs).length ≤ cap) (hint : cap < 2 ^ 31) :
    uziUtf16toUtf8 src (utf16Encode cs).length (terminated_natCast _ _) dst cap =
      (((utf8Encode cs).length : ℤ), blit dst 0 (utf8Encode cs)) := by
  have hrun := convertUTF16toUTF8_text .strictConversion ⟨0, 0, dst⟩ hsrc rfl (lacksRoom_zero hcap)
  simp only [Nat.zero_add] at hrun
  exact uziConvert_of_ok hpos (hcap.trans_lt hint) rfl hrun

/-- **`uziUtf8toUtf16` on a text** stores its UTF-16 form and returns the length of that. -/
theorem uziUtf8toUtf16_text {src : ℕ → UInt8} {cs : List Char}
    (hsrc : Holds src 0 (utf8Encode cs)) (dst : ℕ → UInt16) {cap : ℤ} (hpos : 0 < cap)
    (hcap : (utf16Encode cs).length ≤ cap) (hint : cap < 2 ^ 31) :
    uziUtf8toUtf16 src (utf8Encode cs).length (terminated_natCast _ _) dst cap =
      (((utf16Encode cs).length : ℤ), blit dst 0 (utf16Encode cs)) := by
  have hrun := convertUTF8toUTF16_text .strictConversion ⟨0, 0, dst⟩ hsrc rfl (lacksRoom_zero hcap)
  simp only [Nat.zero_add] at hrun
  exact uziConvert_of_ok hpos (hcap.trans_lt hint) rfl hrun

/-! ### The round trip -/

/-- **A well-formed sequence that is converted and converted back is unchanged.** For a
well-paired unit sequence `u`, with any target buffers that are long enough, converting to
UTF-8 returns some `m ≥ 1`, and converting the `m` bytes it stored back returns the length
of `u` and stores exactly `u`. The same holds of a well-formed byte sequence `b`, the other
way round. -/
theorem unicode_round_trip (u : List UInt16) (b : List UInt8) :
    (WellPaired u → 1 ≤ u.length → ∀ src : ℕ → UInt16, Holds src 0 u →
      ∃ m : ℕ, 1 ≤ m ∧ m ≤ 3 * u.length ∧
        ∀ (dst : ℕ → UInt8) (cap : ℤ), m ≤ cap → cap < 2 ^ 31 →
          ∃ dst' : ℕ → UInt8,
            uziUtf16toUtf8 src u.length (terminated_natCast _ _) dst cap = ((m : ℤ), dst') ∧
            ∀ (dst2 : ℕ → UInt16) (cap2 : ℤ), u.length ≤ cap2 → cap2 < 2 ^ 31 →
              uziUtf8toUtf16 dst' m (terminated_natCast _ _) dst2 cap2 =
                ((u.length : ℤ), blit dst2 0 u)) ∧
    (WellFormedUTF8 b → 1 ≤ b.length → ∀ src : ℕ → UInt8, Holds src 0 b →
      ∃ n : ℕ, 1 ≤ n ∧ n ≤ b.length ∧
        ∀ (dst : ℕ → UInt16) (cap : ℤ), n ≤ cap → cap < 2 ^ 31 →
          ∃ dst' : ℕ → UInt16,
            uziUtf8toUtf16 src b.length (terminated_natCast _ _) dst cap = ((n : ℤ), dst') ∧
            ∀ (dst2 : ℕ → UInt8) (cap2 : ℤ), b.length ≤ cap2 → cap2 < 2 ^ 31 →
              uziUtf16toUtf8 dst' n (terminated_natCast _ _) dst2 cap2 =
                ((b.length : ℤ), blit dst2 0 b)) := by
  constructor
  · intro hu hlen src hsrc
    obtain ⟨cs, rfl⟩ := (wellPaired_iff u).mp hu
    have hle := length_encode cs
    refine ⟨(utf8Encode cs).length, by omega, hle.2, fun dst cap hcap hint => ?_⟩
    refine ⟨_, uziUtf16toUtf8_text hsrc dst (by omega) hcap hint, fun dst2 cap2 hcap2 hint2 => ?_⟩
    exact uziUtf8toUtf16_text holds_blit dst2 (by omega) hcap2 hint2
  · rintro ⟨cs, rfl⟩ hlen src hsrc
    have hle := length_encode cs
    refine ⟨(utf16Encode cs).length, by omega, hle.1, fun dst cap hcap hint => ?_⟩
    refine ⟨_, uziUtf8toUtf16_text hsrc dst (by omega) hcap hint, fun dst2 cap2 hcap2 hint2 => ?_⟩
    exact uziUtf16toUtf8_text holds_blit dst2 (by omega) hcap2 hint2

/-- The letter A and a face, from UTF-16 through five bytes and back, and the face alone from
UTF-8 through a surrogate pair and back. -/
theorem unicode_round_trip_face :
    (∃ dst' : ℕ → UInt8,
      uziUtf16toUtf8 (blit (fun _ => 0) 0 [0x41, 0xD83D, 0xDE00]) 3 (terminated_natCast _ 3)
        (fun _ => 0) 9 = (5, dst') ∧
      uziUtf8toUtf16 dst' 5 (terminated_natCast _ 5) (fun _ => 0) 3 =
        (3, blit (fun _ => 0) 0 [0x41, 0xD83D, 0xDE00])) ∧
    (∃ dst' : ℕ → UInt16,
      uziUtf8toUtf16 (blit (fun _ => 0) 0 [0xF0, 0x9F, 0x98, 0x80]) 4 (terminated_natCast _ 4)
        (fun _ => 0) 4 = (2, dst') ∧
      uziUtf16toUtf8 dst' 2 (terminated_natCast _ 2) (fun _ => 0) 4 =
        (4, blit (fun _ => 0) 0 [0xF0, 0x9F, 0x98, 0x80])) := by
  have htrip := unicode_round_trip [0x41, 0xD83D, 0xDE00] [0xF0, 0x9F, 0x98, 0x80]
  have hu : WellPaired [0x41, 0xD83D, 0xDE00] :=
    (wellPaired_iff _).mpr ⟨['A', Char.ofNat 0x1F600], by decide +kernel⟩
  have hb : WellFormedUTF8 [0xF0, 0x9F, 0x98, 0x80] :=
    ⟨[Char.ofNat 0x1F600], by decide +kernel⟩
  constructor
  · obtain ⟨m, -, hm, h⟩ := htrip.1 hu (by decide)
      (blit (fun _ => 0) 0 [0x41, 0xD83D, 0xDE00]) holds_blit
    obtain ⟨dst', hdst', hback⟩ := h (fun _ => 0) 9 (by exact_mod_cast hm) (by decide)
    have hm5 : (uziUtf16toUtf8 (blit (fun _ => 0) 0 [0x41, 0xD83D, 0xDE00]) 3
        (terminated_natCast _ 3) (fun _ => 0) 9).1 = 5 := by decide +kernel
    have hm' : (m : ℤ) = 5 := (congrArg Prod.fst hdst').symm.trans hm5
    obtain rfl : m = 5 := by exact_mod_cast hm'
    exact ⟨dst', hdst', hback (fun _ => 0) 3 (by decide) (by decide)⟩
  · obtain ⟨n, -, hn, h⟩ := htrip.2 hb (by decide)
      (blit (fun _ => 0) 0 [0xF0, 0x9F, 0x98, 0x80]) holds_blit
    obtain ⟨dst', hdst', hback⟩ := h (fun _ => 0) 4 (by exact_mod_cast hn) (by decide)
    have hn2 : (uziUtf8toUtf16 (blit (fun _ => 0) 0 [0xF0, 0x9F, 0x98, 0x80]) 4
        (terminated_natCast _ 4) (fun _ => 0) 4).1 = 2 := by decide +kernel
    have hn' : (n : ℤ) = 2 := (congrArg Prod.fst hdst').symm.trans hn2
    obtain rfl : n = 2 := by exact_mod_cast hn'
    exact ⟨dst', hdst', hback (fun _ => 0) 4 (by decide) (by decide)⟩

end Unicode

end Libuzi
