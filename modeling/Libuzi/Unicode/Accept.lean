import Libuzi.Unicode.Restart

/-!
# What the converters accept

A strict conversion succeeds on some sources and returns 0 on the others. Where it succeeds
is decided round by round, so a source that is accepted falls into pieces that single
rounds accept (`Reads.pieces`), and it remains to say which pieces these are.

* **From UTF-16** they are the UTF-16 forms of scalar values (`decodeUTF16_ok`), and
  `uziUtf16toUtf8` accepts exactly the well-paired sequences (`uziUtf16toUtf8_exact`).
* **From UTF-8** they are the UTF-8 forms of scalar values, and a few more: `isLegalUTF8`
  has its own cases for the second byte after `0xED` and `0xF4`, which leave out the lower
  bound that every other case has. `Slip` is what comes through there, and
  `decodeUTF8_ok` says that nothing else does.

A byte sequence falls into pieces in one way only, for the first byte of a piece gives its
length (`Passes.append_inj`). So a sequence with a slip is never well formed, and
`uziUtf8toUtf16` goes wrong on exactly these sequences (`decodesExactly_iff`).

That no byte outside the source is read is said with a memory of which only a part can be
read: `convertPartial` is the converter with every read made explicit, and fails where it
reads outside; on the first `n` bytes of a buffer it never does (`convertPartial_eq`).
-/

namespace Libuzi

namespace Unicode

open Buffer

/-! ### The contents of a source buffer -/

section Contents

variable {α β : Type}

/-- The `n` units of a source buffer. -/
def contents (src : ℕ → α) (n : ℕ) : List α := (List.range n).map src

theorem contents_eq_iff {src : ℕ → α} {n : ℕ} {xs : List α} :
    contents src n = xs ↔ Holds src 0 xs ∧ xs.length = n := by
  constructor
  · rintro rfl
    refine ⟨fun i hi => ?_, by simp [contents]⟩
    simp [contents]
  · rintro ⟨h, rfl⟩
    refine List.ext_getElem (by simp [contents]) fun i h₁ h₂ => ?_
    simpa [contents] using h i h₂

/-- **A reading without an error cuts the source into pieces** of the kind that a single
round accepts. -/
theorem Reads.pieces {m : ℕ} {src : ℕ → α} {sourceEnd : ℤ} {decode : ℕ → Piece β}
    (hdec : Piecewise m sourceEnd decode) {Form : List α → Prop}
    (hform : ∀ p k xs, decode p = .ok (k, xs) → ∃ b, Form b ∧ Holds src p b ∧ b.length = k)
    {p q : ℕ} {xs : List β} (h : Reads sourceEnd decode p xs q .conversionOK)
    (hp : (p : ℤ) ≤ sourceEnd) :
    ∃ bs : List (List α), (∀ b ∈ bs, Form b) ∧ Holds src p bs.flatten ∧
      ((p + bs.flatten.length : ℕ) : ℤ) = sourceEnd := by
  generalize hr : ConversionResult.conversionOK = r at h
  induction h with
  | done hge => exact ⟨[], by simp, holds_nil, by simpa using le_antisymm hp hge⟩
  | fail _ hd => exact absurd hr.symm (hdec.error _ _ hd).2
  | @step p k q xs ys r hlt hd _ ih =>
    obtain ⟨b, hb, hheld, rfl⟩ := hform _ _ _ hd
    obtain ⟨bs, hbs, hrest, hend⟩ := ih (hdec.inside _ _ _ hlt hd) hr
    refine ⟨b :: bs, List.forall_mem_cons.mpr ⟨hb, hbs⟩, ?_, ?_⟩
    · rw [List.flatten_cons, holds_append]
      exact ⟨hheld, hrest⟩
    · rw [List.flatten_cons, List.length_append, ← Nat.add_assoc]
      exact hend

/-- A call that ends well has read its source without an error. -/
theorem reads_of_convertLoop {m : ℕ} {sourceEnd e : ℤ} {decode : ℕ → Piece β}
    (hdec : Piecewise m sourceEnd decode) (c : Cursor β)
    (h : (convertLoop sourceEnd (decodeRound (some e) decode) c).2 = .conversionOK) :
    ∃ xs q, Reads sourceEnd decode c.source xs q .conversionOK := by
  obtain ⟨xs, q, r, hreads⟩ := exists_reads hdec.consumes sourceEnd c.source
  obtain hall | ⟨ys, zs, p, -, hrun, -⟩ := convertLoop_partly hdec (e := e) hreads
  · rw [hall] at h
    exact ⟨xs, q, h ▸ hreads⟩
  · rw [hrun] at h
    cases h

/-! ### The length of the source -/

/-- **The call is for the first `n` units of the buffer**: `n` is given, or it is asked for
with the length `-1` and `n` counts the terminator too. -/
def Spans [Zero α] [DecidableEq α] (src : ℕ → α) (cchSrc : ℤ) (n : ℕ) : Prop :=
  cchSrc = n ∨ cchSrc = -1 ∧ ∃ h, n = wcslen src h + 1

/-- A call that asks for the length is the call that gives it. -/
theorem uziConvert_spans [Zero α] [DecidableEq α]
    {convert : (ℕ → α) → ℤ → Option ℤ → ConversionFlags → Cursor β → Cursor β × ConversionResult}
    {src : ℕ → α} {cchSrc : ℤ} {n : ℕ} (hsrc : Terminated src cchSrc) (hspan : Spans src cchSrc n)
    (hint : (n : ℤ) < 2 ^ 31) (dst : ℕ → β) (cchDst : ℤ) :
    uziConvert convert src cchSrc hsrc dst cchDst =
      uziConvert convert src n (terminated_natCast src n) dst cchDst := by
  obtain rfl | ⟨rfl, hz, rfl⟩ := hspan
  · rfl
  · have hn : ¬ ((wcslen src hz + 1 : ℕ) : ℤ) = -1 := by omega
    have hlen : toInt (wcslen src hz + 1) = ((wcslen src hz + 1 : ℕ) : ℤ) :=
      (Int.bmod_eq_of_le (by omega) (by omega)).trans (by omega)
    unfold uziConvert
    simp only [dif_neg hn, dif_pos, hlen]

/-- An exported call that returns something other than 0 has ended well. -/
theorem ok_of_uziConvert_ne_zero [Zero α] [DecidableEq α]
    {convert : (ℕ → α) → ℤ → Option ℤ → ConversionFlags → Cursor β → Cursor β × ConversionResult}
    {src : ℕ → α} {n : ℕ} {dst : ℕ → β} {cap : ℤ} (hpos : 0 < cap)
    (h : (uziConvert convert src n (terminated_natCast src n) dst cap).1 ≠ 0) :
    (convert src n (some cap) .strictConversion ⟨0, 0, dst⟩).2 = .conversionOK := by
  have hn : ¬ (n : ℤ) = -1 := by omega
  unfold uziConvert at h
  simp only [dif_neg hn, if_neg hpos.ne'] at h
  by_contra hne
  exact h (if_neg hne)

end Contents

/-! ### From UTF-16 -/

/-- A round of the strict `convertUTF16toUTF8` that reads something has read the UTF-16 form
of a scalar value. -/
theorem decodeUTF16_ok {src : ℕ → UInt16} {sourceEnd : ℤ} {p k : ℕ} {xs : List UInt8}
    (h : decodeUTF16 src sourceEnd .strictConversion p = .ok (k, xs)) :
    ∃ b, (∃ c, b = utf16EncodeChar c) ∧ Holds src p b ∧ b.length = k := by
  simp only [decodeUTF16] at h
  split_ifs at h with hhigh _ hlow hlow'
  · cases h
    obtain ⟨c, hc⟩ := exists_utf16EncodeChar_eq_pair (x := src p) (y := src (p + 1)) hhigh hlow
    exact ⟨_, ⟨c, hc.symm⟩, by simp, rfl⟩
  · cases h
    obtain ⟨c, hc⟩ := exists_utf16EncodeChar_eq (x := src p) hhigh fun h => hlow' ⟨trivial, h⟩
    exact ⟨_, ⟨c, hc.symm⟩, by simp, rfl⟩

/-- Pieces that are forms of scalar values make up a text. -/
theorem exists_flatten_eq {α : Type} {enc : Char → List α} {bs : List (List α)}
    (h : ∀ b ∈ bs, ∃ c, b = enc c) : ∃ cs : List Char, bs.flatten = cs.flatMap enc := by
  induction bs with
  | nil => exact ⟨[], rfl⟩
  | cons b bs ih =>
    obtain ⟨⟨c, rfl⟩, hbs⟩ := List.forall_mem_cons.mp h
    obtain ⟨cs, hcs⟩ := ih hbs
    exact ⟨c :: cs, by rw [List.flatten_cons, hcs, List.flatMap_cons]⟩

/-- **`UziUtf16toUtf8` accepts exactly well-formed UTF-16.** For a call with `n` units, given
or asked for, and room for three bytes for each of them, the result is not 0 if and only if
every surrogate is properly paired; and then the UTF-8 form of the text that the units encode
is stored, and its length returned. -/
theorem uziUtf16toUtf8_exact {src : ℕ → UInt16} {cchSrc : ℤ} {n : ℕ}
    (hsrc : Terminated src cchSrc) (hspan : Spans src cchSrc n) (hn : 1 ≤ n) (dst : ℕ → UInt8)
    {cap : ℤ} (hcap : 3 * (n : ℤ) ≤ cap) (hint : cap < 2 ^ 31) :
    ((uziUtf16toUtf8 src cchSrc hsrc dst cap).1 ≠ 0 ↔ WellPaired (contents src n)) ∧
      ∀ cs, contents src n = utf16Encode cs →
        uziUtf16toUtf8 src cchSrc hsrc dst cap =
          (((utf8Encode cs).length : ℤ), blit dst 0 (utf8Encode cs)) := by
  rw [uziUtf16toUtf8, uziConvert_spans hsrc hspan (by omega)]
  have htext : ∀ cs, contents src n = utf16Encode cs →
      uziConvert convertUTF16toUTF8 src n (terminated_natCast src n) dst cap =
        (((utf8Encode cs).length : ℤ), blit dst 0 (utf8Encode cs)) := by
    intro cs hcs
    obtain ⟨hheld, rfl⟩ := contents_eq_iff.mp hcs
    have hlen := (length_encode cs).2
    exact uziUtf16toUtf8_text hheld dst (by omega) (by omega) hint
  refine ⟨⟨fun h => ?_, fun h => ?_⟩, htext⟩
  · -- The loop has stopped at the end: what it has read is a sequence of encoded characters.
    have hok := ok_of_uziConvert_ne_zero (by omega) h
    rw [convertUTF16toUTF8_eq] at hok
    have hdec := piecewise_decodeUTF16 src n .strictConversion
    obtain ⟨xs, q, hreads⟩ := reads_of_convertLoop hdec _ hok
    obtain ⟨bs, hbs, hheld, hend⟩ := hreads.pieces hdec (fun _ _ _ => decodeUTF16_ok) (by simp)
    obtain ⟨cs, hcs⟩ : ∃ cs, bs.flatten = utf16Encode cs := exists_flatten_eq hbs
    rw [hcs] at hheld hend
    have hlen : ((0 + (utf16Encode cs).length : ℕ) : ℤ) = n := hend
    rw [wellPaired_iff]
    exact ⟨cs, contents_eq_iff.mpr ⟨hheld, by omega⟩⟩
  · -- The text is stored, and is not empty.
    obtain ⟨cs, hcs⟩ := (wellPaired_iff _).mp h
    have hlen := (length_encode cs).1
    have hn' := congrArg List.length hcs
    rw [contents, List.length_map, List.length_range] at hn'
    rw [htext cs hcs]
    simp only [ne_eq, Nat.cast_eq_zero]
    omega

/-- The letter A with its terminator is accepted and encoded; a lone surrogate is refused. -/
theorem uziUtf16toUtf8_exact_letter :
    uziUtf16toUtf8 (blit (fun _ => 0) 0 [0x41, 0]) (-1) (fun _ => ⟨1, rfl⟩) (fun _ => 7) 6 =
        (2, blit (fun _ => 7) 0 [0x41, 0]) ∧
      ¬ WellPaired (contents (blit (fun _ => 0) 0 [0xD83D]) 1) := by
  constructor
  · have hexact := @uziUtf16toUtf8_exact (blit (fun _ => 0) 0 [0x41, 0]) (-1) 2
      (fun _ => ⟨1, rfl⟩) (.inr ⟨rfl, ⟨1, rfl⟩, by decide +kernel⟩) (by decide)
      (fun _ => 7) 6 (by decide) (by decide)
    exact hexact.2 ['A', Char.ofNat 0] (by decide +kernel)
  · have hexact := @uziUtf16toUtf8_exact (blit (fun _ => 0) 0 [0xD83D]) _ 1
      (terminated_natCast _ 1) (.inl rfl) (by decide) (fun _ => 7) 3 (by decide) (by decide)
    have hzero : (uziUtf16toUtf8 (blit (fun _ => 0) 0 [0xD83D]) (1 : ℕ) (terminated_natCast _ 1)
      (fun _ => 7) 3).1 = 0 := by decide +kernel
    exact fun h => hexact.1.mpr h hzero

/-! ### The sequences that slip through -/

/-- **A byte sequence that `isLegalUTF8` lets through** although it is the UTF-8 form of no
scalar value: after `0xED` and `0xF4` the second byte may be an ASCII one. -/
inductive Slip : List UInt8 → Prop
  | ed {a b : UInt8} : a.toNat < 0x80 → 0x80 ≤ b.toNat → b.toNat ≤ 0xBF → Slip [0xED, a, b]
  | f4 {a b d : UInt8} : a.toNat < 0x80 → 0x80 ≤ b.toNat → b.toNat ≤ 0xBF →
      0x80 ≤ d.toNat → d.toNat ≤ 0xBF → Slip [0xF4, a, b, d]

/-- A piece that a round of `convertUTF8toUTF16` accepts. -/
def Passes (b : List UInt8) : Prop := (∃ c, b = String.utf8EncodeChar c) ∨ Slip b

/-- **A byte sequence with a slip**: it consists of forms of scalar values and of sequences
that slip through, and one at least slips through. -/
def Slips (bytes : List UInt8) : Prop :=
  ∃ bs : List (List UInt8), (∀ b ∈ bs, Passes b) ∧ (∃ b ∈ bs, Slip b) ∧ bytes = bs.flatten

/-- Two bytes in range are the form of a scalar value. -/
theorem exists_utf8EncodeChar_two {a b : UInt8} (ha : 0xC2 ≤ a.toNat ∧ a.toNat ≤ 0xDF)
    (hb : 0x80 ≤ b.toNat ∧ b.toNat ≤ 0xBF) : ∃ c : Char, [a, b] = String.utf8EncodeChar c := by
  obtain ⟨c, hc⟩ := exists_char (n := (a.toNat - 0xC0) * 64 + (b.toNat - 0x80)) (by omega)
  obtain ⟨a', b', henc, ha', hb'⟩ := utf8EncodeChar_two (c := c) (by omega) (by omega)
  have hea : a = a' := UInt8.toNat_inj.mp (by omega)
  have heb : b = b' := UInt8.toNat_inj.mp (by omega)
  exact ⟨c, by rw [henc, hea, heb]⟩

/-- Three bytes in range are the form of a scalar value. -/
theorem exists_utf8EncodeChar_three {a b d : UInt8} (ha : 0xE0 ≤ a.toNat ∧ a.toNat ≤ 0xEF)
    (hb : 0x80 ≤ b.toNat ∧ b.toNat ≤ 0xBF) (hd : 0x80 ≤ d.toNat ∧ d.toNat ≤ 0xBF)
    (he0 : a.toNat = 0xE0 → 0xA0 ≤ b.toNat) (hed : a.toNat = 0xED → b.toNat ≤ 0x9F) :
    ∃ c : Char, [a, b, d] = String.utf8EncodeChar c := by
  obtain ⟨c, hc⟩ := exists_char
    (n := (a.toNat - 0xE0) * 4096 + (b.toNat - 0x80) * 64 + (d.toNat - 0x80)) (by omega)
  obtain ⟨a', b', d', henc, ha', hb', hd'⟩ := utf8EncodeChar_three (c := c) (by omega) (by omega)
  have hea : a = a' := UInt8.toNat_inj.mp (by omega)
  have heb : b = b' := UInt8.toNat_inj.mp (by omega)
  have hed : d = d' := UInt8.toNat_inj.mp (by omega)
  exact ⟨c, by rw [henc, hea, heb, hed]⟩

/-- Four bytes in range are the form of a scalar value. -/
theorem exists_utf8EncodeChar_four {a b d e : UInt8} (ha : 0xF0 ≤ a.toNat ∧ a.toNat ≤ 0xF4)
    (hb : 0x80 ≤ b.toNat ∧ b.toNat ≤ 0xBF) (hd : 0x80 ≤ d.toNat ∧ d.toNat ≤ 0xBF)
    (he : 0x80 ≤ e.toNat ∧ e.toNat ≤ 0xBF)
    (hf0 : a.toNat = 0xF0 → 0x90 ≤ b.toNat) (hf4 : a.toNat = 0xF4 → b.toNat ≤ 0x8F) :
    ∃ c : Char, [a, b, d, e] = String.utf8EncodeChar c := by
  obtain ⟨c, hc⟩ := exists_char (n := (a.toNat - 0xF0) * 262144 + (b.toNat - 0x80) * 4096 +
    (d.toNat - 0x80) * 64 + (e.toNat - 0x80)) (by omega)
  obtain ⟨a', b', d', e', henc, ha', hb', hd', he'⟩ := utf8EncodeChar_four (c := c) (by omega)
  have hea : a = a' := UInt8.toNat_inj.mp (by omega)
  have heb : b = b' := UInt8.toNat_inj.mp (by omega)
  have hed : d = d' := UInt8.toNat_inj.mp (by omega)
  have hee : e = e' := UInt8.toNat_inj.mp (by omega)
  exact ⟨c, by rw [henc, hea, heb, hed, hee]⟩

/-- **What a round of `convertUTF8toUTF16` accepts**: the form of a scalar value, or a sequence
that slips through. -/
theorem decodeUTF8_ok {src : ℕ → UInt8} {sourceEnd : ℤ} {p k : ℕ} {xs : List UInt16}
    (h : decodeUTF8 src sourceEnd p = .ok (k, xs)) :
    ∃ b, Passes b ∧ Holds src p b ∧ b.length = k := by
  simp only [decodeUTF8] at h
  split_ifs at h with _ hlegal
  cases h
  rw [Bool.not_eq_true, Bool.not_eq_false'] at hlegal
  rcases trailing_cases (src p) with ⟨hk, hb⟩ | ⟨hk, hb⟩ | ⟨hk, hb⟩ | ⟨hk, hb⟩ | hk
  · rw [hk] at hlegal ⊢
    simp only [isLegalUTF8, Nat.add_zero, legalFirst_iff] at hlegal
    obtain ⟨c, hc⟩ := exists_char (n := (src p).toNat) (by omega)
    obtain ⟨a, henc, ha⟩ := utf8EncodeChar_one (c := c) (by omega)
    have hea : src p = a := UInt8.toNat_inj.mp (by omega)
    exact ⟨[src p], .inl ⟨c, by rw [henc, hea]⟩, by simp, rfl⟩
  · rw [hk] at hlegal ⊢
    simp only [isLegalUTF8, Nat.add_zero, Bool.and_eq_true, legalFirst_iff,
      legalSecond_iff] at hlegal
    exact ⟨[src p, src (p + 1)], .inl (exists_utf8EncodeChar_two (by omega) (by omega)),
      by simp, rfl⟩
  · rw [hk] at hlegal ⊢
    simp only [isLegalUTF8, Nat.add_zero, Bool.and_eq_true, legalFirst_iff, legalSecond_iff,
      legalTrail_iff] at hlegal
    refine ⟨[src p, src (p + 1), src (p + 2)], ?_, by simp, rfl⟩
    -- only after `0xED` is the second byte not asked to be a trail byte
    rcases Nat.lt_or_ge (src (p + 1)).toNat 0x80 with hlow | hhigh
    · have hed : src p = 0xED := UInt8.toNat_inj.mp (show (src p).toNat = 0xED by omega)
      rw [hed]
      exact .inr (.ed hlow hlegal.1.1.1 hlegal.1.1.2)
    · exact .inl (exists_utf8EncodeChar_three (by omega) (by omega) (by omega) (by omega)
        (by omega))
  · rw [hk] at hlegal ⊢
    simp only [isLegalUTF8, Nat.add_zero, Bool.and_eq_true, legalFirst_iff, legalSecond_iff,
      legalTrail_iff] at hlegal
    refine ⟨[src p, src (p + 1), src (p + 2), src (p + 3)], ?_, by simp, rfl⟩
    -- here it is after `0xF4`
    rcases Nat.lt_or_ge (src (p + 1)).toNat 0x80 with hlow | hhigh
    · have hf4 : src p = 0xF4 := UInt8.toNat_inj.mp (show (src p).toNat = 0xF4 by omega)
      rw [hf4]
      exact .inr (.f4 hlow (by omega) (by omega) (by omega) (by omega))
    · exact .inl (exists_utf8EncodeChar_four (by omega) (by omega) (by omega) (by omega)
        (by omega) (by omega))
  · -- Four or five trailing bytes are never legal.
    obtain ⟨j, hj⟩ := Nat.exists_eq_add_of_le' hk
    rw [hj] at hlegal
    cases hlegal

/-! ### How a byte sequence falls into pieces -/

/-- The first byte of a piece says how long the piece is. -/
theorem Passes.length_eq {b : List UInt8} (hb : Passes b) :
    ∃ a t, b = a :: t ∧ b.length = trailingBytesForUTF8 a + 1 := by
  obtain ⟨c, rfl⟩ | hslip := hb
  · have hheld : Holds (blit (fun _ => 0) 0 (String.utf8EncodeChar c)) 0
        (String.utf8EncodeChar c) := holds_blit
    obtain ⟨k, hk, hdec⟩ := decode_utf8EncodeChar hheld
    cases henc : String.utf8EncodeChar c with
    | nil => simp [henc] at hk
    | cons a t =>
      rw [henc] at hheld hk
      have hfirst := (holds_cons.mp hheld).1
      have htrail := hdec.trailing
      rw [henc, hfirst] at htrail
      exact ⟨a, t, rfl, by rw [htrail, hk]⟩
  · cases hslip with
    | ed _ _ _ => exact ⟨_, _, rfl, rfl⟩
    | f4 _ _ _ _ _ => exact ⟨_, _, rfl, rfl⟩

/-- Two pieces at the same place are the same piece. -/
theorem Passes.append_inj {b b' s s' : List UInt8} (hb : Passes b) (hb' : Passes b')
    (h : b ++ s = b' ++ s') : b = b' ∧ s = s' := by
  obtain ⟨a, t, rfl, hlen⟩ := hb.length_eq
  obtain ⟨a', t', rfl, hlen'⟩ := hb'.length_eq
  have ha : a = a' := (List.cons.inj h).1
  exact List.append_inj h (by rw [hlen, hlen', ha])

/-- What slips through is not the form of a scalar value. -/
theorem Slip.ne_encode {b : List UInt8} (h : Slip b) (c : Char) : b ≠ String.utf8EncodeChar c := by
  rintro rfl
  have hvalid := char_toNat_valid c
  -- The second byte of a form is a trailing one.
  have hsecond : ∀ a x t, String.utf8EncodeChar c = a :: x :: t → 0x80 ≤ x.toNat := by
    intro a x t henc
    rcases Nat.lt_or_ge c.toNat 0x80 with h₁ | h₁
    · obtain ⟨_, he, -⟩ := utf8EncodeChar_one h₁
      simp [he] at henc
    rcases Nat.lt_or_ge c.toNat 0x800 with h₂ | h₂
    · obtain ⟨_, y, he, -, hy⟩ := utf8EncodeChar_two h₁ h₂
      simp only [he, List.cons.injEq] at henc
      rw [← henc.2.1]
      omega
    rcases Nat.lt_or_ge c.toNat 0x10000 with h₃ | h₃
    · obtain ⟨_, y, _, he, -, hy, -⟩ := utf8EncodeChar_three h₂ h₃
      simp only [he, List.cons.injEq] at henc
      rw [← henc.2.1]
      omega
    · obtain ⟨_, y, _, _, he, -, hy, -⟩ := utf8EncodeChar_four h₃
      simp only [he, List.cons.injEq] at henc
      rw [← henc.2.1]
      omega
  generalize henc : String.utf8EncodeChar c = b at h
  cases h with
  | ed ha _ _ =>
    have := hsecond _ _ _ henc
    omega
  | f4 ha _ _ _ _ =>
    have := hsecond _ _ _ henc
    omega

/-- **A byte sequence with a slip is not well formed**: it falls into pieces in one way only. -/
theorem Slips.not_wellFormed {bytes : List UInt8} (h : Slips bytes) : ¬ WellFormedUTF8 bytes := by
  rintro ⟨cs, hcs⟩
  obtain ⟨bs, hbs, hslip, rfl⟩ := h
  induction bs generalizing cs with
  | nil => simp at hslip
  | cons b bs ih =>
    rw [List.forall_mem_cons] at hbs
    obtain ⟨hb, hbs⟩ := hbs
    obtain ⟨a, t, hcons, -⟩ := hb.length_eq
    cases cs with
    | nil => simp [hcons] at hcs
    | cons c cs =>
      rw [List.flatten_cons, utf8Encode_cons] at hcs
      obtain ⟨rfl, hrest⟩ := hb.append_inj (.inl ⟨c, rfl⟩) hcs
      obtain ⟨b, hmem, hslip⟩ := hslip
      rcases List.mem_cons.mp hmem with rfl | hmem
      · exact hslip.ne_encode c rfl
      · exact ih cs hbs ⟨b, hmem, hslip⟩ hrest

/-- What consists of pieces is well formed or has a slip. -/
theorem wellFormed_or_slips {bs : List (List UInt8)} (h : ∀ b ∈ bs, Passes b) :
    WellFormedUTF8 bs.flatten ∨ Slips bs.flatten := by
  by_cases hslip : ∃ b ∈ bs, Slip b
  · exact .inr ⟨bs, h, hslip, rfl⟩
  · refine .inl (exists_flatten_eq fun b hb => (h b hb).resolve_right fun hs => ?_)
    exact hslip ⟨b, hb, hs⟩

/-- A legal sequence inside the source is read. -/
theorem decodeUTF8_of_legal {src : ℕ → UInt8} {sourceEnd : ℤ} {p k : ℕ}
    (hk : trailingBytesForUTF8 (src p) = k) (hlegal : isLegalUTF8 src p (k + 1) = true)
    (hend : ((p + (k + 1) : ℕ) : ℤ) ≤ sourceEnd) :
    decodeUTF8 src sourceEnd p = .ok (k + 1, utf16Units (readChar src k p)) := by
  have hin : ¬ sourceEnd ≤ ((p + k : ℕ) : ℤ) := by omega
  simp only [decodeUTF8, hk, if_neg hin, hlegal, Bool.not_true, Bool.false_eq_true, if_false]

/-- A character takes one or two units, and one in the basic plane. -/
theorem length_utf16Units (ch : ℕ) : 0 < (utf16Units ch).length ∧ (utf16Units ch).length ≤ 2 ∧
    (ch ≤ uniMaxBmp → (utf16Units ch).length = 1) := by
  rw [utf16Units]
  split_ifs with hbmp
  · simp
  · simp [hbmp]

/-- **Every piece is accepted** where it is inside the source, and takes no more units than it
has bytes. -/
theorem decodeUTF8_passes {src : ℕ → UInt8} {sourceEnd : ℤ} {p : ℕ} {b : List UInt8}
    (hb : Passes b) (hheld : Holds src p b) (hend : ((p + b.length : ℕ) : ℤ) ≤ sourceEnd) :
    ∃ xs, decodeUTF8 src sourceEnd p = .ok (b.length, xs) ∧ 0 < xs.length ∧
      xs.length ≤ b.length := by
  obtain ⟨c, rfl⟩ | hslip := hb
  · obtain ⟨k, hk, hdec⟩ := decode_utf8EncodeChar hheld
    have hread : readChar src k p = c.toNat := by
      have := char_toNat_valid c
      rw [readChar, hdec.read]
      simp only
      omega
    rw [hk] at hend ⊢
    refine ⟨_, decodeUTF8_of_legal hdec.trailing hdec.legal hend, (length_utf16Units _).1, ?_⟩
    rw [hread, ← hk]
    -- one unit below `0x10000`; above it two, and then there are four bytes
    rcases Nat.lt_or_ge c.toNat 0x10000 with hc | hc
    · have := (length_utf16Units c.toNat).2.2 (Nat.le_of_lt_succ hc)
      omega
    · obtain ⟨_, _, _, _, henc, -⟩ := utf8EncodeChar_four hc
      have := (length_utf16Units c.toNat).2.1
      rw [henc, List.length_cons, List.length_cons]
      omega
  · cases hslip with
    | ed ha hb₁ hb₂ =>
      simp only [holds_cons, holds_nil, and_true, Nat.add_assoc, Nat.reduceAdd] at hheld
      obtain ⟨h₀, h₁, h₂⟩ := hheld
      have hlegal : isLegalUTF8 src p 3 = true := by
        simp only [isLegalUTF8, Nat.add_zero, h₀, h₁, h₂, Bool.and_eq_true, legalFirst_iff,
          legalSecond_iff, legalTrail_iff, UInt8.reduceToNat]
        omega
      exact ⟨_, decodeUTF8_of_legal (by rw [h₀]; rfl) hlegal hend, (length_utf16Units _).1,
        (length_utf16Units _).2.1.trans (by simp)⟩
    | f4 ha hb₁ hb₂ hd₁ hd₂ =>
      simp only [holds_cons, holds_nil, and_true, Nat.add_assoc, Nat.reduceAdd] at hheld
      obtain ⟨h₀, h₁, h₂, h₃⟩ := hheld
      have hlegal : isLegalUTF8 src p 4 = true := by
        simp only [isLegalUTF8, Nat.add_zero, h₀, h₁, h₂, h₃, Bool.and_eq_true, legalFirst_iff,
          legalSecond_iff, legalTrail_iff, UInt8.reduceToNat]
        omega
      exact ⟨_, decodeUTF8_of_legal (by rw [h₀]; rfl) hlegal hend, (length_utf16Units _).1,
        (length_utf16Units _).2.1.trans (by simp)⟩

/-- **Pieces are read one after the other.** -/
theorem reads_of_passes {src : ℕ → UInt8} {sourceEnd : ℤ} {bs : List (List UInt8)} {p : ℕ}
    (hbs : ∀ b ∈ bs, Passes b) (hheld : Holds src p bs.flatten)
    (hend : ((p + bs.flatten.length : ℕ) : ℤ) = sourceEnd) :
    ∃ xs q, Reads sourceEnd (decodeUTF8 src sourceEnd) p xs q .conversionOK ∧
      xs.length ≤ bs.flatten.length ∧ (0 < bs.flatten.length → 0 < xs.length) := by
  induction bs generalizing p with
  | nil => exact ⟨[], p, .done (by simpa using hend.ge), Nat.le_refl _, id⟩
  | cons b bs ih =>
    obtain ⟨hb, hbs⟩ := List.forall_mem_cons.mp hbs
    rw [List.flatten_cons] at hheld hend ⊢
    rw [List.length_append] at hend ⊢
    obtain ⟨hheld, hrest⟩ := holds_append.mp hheld
    obtain ⟨a, t, -, hlen⟩ := hb.length_eq
    obtain ⟨ys, q, hreads, hle, -⟩ := ih hbs hrest (by rw [← hend]; simp [Nat.add_assoc])
    have hinside : ((p + b.length : ℕ) : ℤ) ≤ sourceEnd := by omega
    obtain ⟨xs, hdec, hpos, hxs⟩ := decodeUTF8_passes hb hheld hinside
    refine ⟨xs ++ ys, q, .step (by omega) hdec hreads, ?_, fun _ => ?_⟩
    all_goals
      rw [List.length_append]
      omega

/-! ### Reading only what is there -/

/-- The first `n` bytes of a buffer; there is nothing to read from `n` on. -/
def firstBytes (src : ℕ → UInt8) (n i : ℕ) : Option UInt8 :=
  if i < n then some (src i) else none

/-- The switch of `isLegalUTF8` from a case label on, in a buffer of which only a part can be
read: `none` when it reads outside. -/
def isLegalFrom (src : ℕ → Option UInt8) (source : ℕ) : ℕ → Option Bool
  | 0 => some false
  | 1 => do
    let first ← src source
    return legalFirst first.toNat
  | 2 => do
    let a ← src (source + 1)
    let first ← src source
    if legalSecond first.toNat a.toNat then isLegalFrom src source 1 else return false
  | k + 3 => do
    let a ← src (source + (k + 2))
    if legalTrail a.toNat then isLegalFrom src source (k + 2) else return false

/-- `isLegalUTF8` in a buffer of which only a part can be read. -/
def isLegalPartial (src : ℕ → Option UInt8) (source length : ℕ) : Option Bool :=
  if 4 < length then some false else isLegalFrom src source length

/-- The switch of `readBytes` in a buffer of which only a part can be read. -/
def readBytesPartial (src : ℕ → Option UInt8) : ℕ → ℕ → ℕ → Option (ℕ × ℕ)
  | 0, ch, source => do
    let a ← src source
    return ((ch + a.toNat) % 2 ^ 32, source + 1)
  | k + 1, ch, source => do
    let a ← src source
    readBytesPartial src k ((((ch + a.toNat) % 2 ^ 32) <<< 6) % 2 ^ 32) (source + 1)

/-- A round of `ConvertUTF8toUTF16` in a buffer of which only a part can be read. -/
def roundPartial (src : ℕ → Option UInt8) (sourceEnd : ℤ) (targetEnd : Option ℤ)
    (flags : ConversionFlags) (c : Cursor UInt16) : Option (Round UInt16) := do
  let first ← src c.source
  let extraBytesToRead := trailingBytesForUTF8 first
  if sourceEnd ≤ (c.source + extraBytesToRead : ℕ) then return .stop c .sourceExhausted
  else
    let legal ← isLegalPartial src c.source (extraBytesToRead + 1)
    if !legal then return .stop c .sourceIllegal
    else
      let read ← readBytesPartial src extraBytesToRead 0 c.source
      let ch := (read.1 + 2 ^ 32 - offsetsFromUTF8 extraBytesToRead) % 2 ^ 32
      return writeUTF16 targetEnd flags extraBytesToRead ch { c with source := read.2 }

/-- A round whose reading may have gone outside ends the loop with no result. -/
def orFault (c : Cursor UInt16) :
    Option (Round UInt16) → Loop.Flow (Cursor UInt16) (Option ConversionResult)
  | none => .stop c none
  | some round => round.map some

/-- **`ConvertUTF8toUTF16` in a buffer of which only a part can be read**: the result is `none`
when something has been read outside. -/
def convertPartial (src : ℕ → Option UInt8) (sourceEnd : ℤ) (targetEnd : Option ℤ)
    (flags : ConversionFlags) (c : Cursor UInt16) : Cursor UInt16 × Option ConversionResult :=
  Loop.whileLoop (fun c => decide ((c.source : ℤ) < sourceEnd))
    (fun c => orFault c (roundPartial src sourceEnd targetEnd flags c)) (some .conversionOK)
    (fun c => (sourceEnd - c.source).toNat) c

section Partial

variable {src : ℕ → UInt8} {src' : ℕ → Option UInt8} {p : ℕ}

theorem isLegalPartial_eq {length : ℕ}
    (h : ∀ i < length, src' (p + i) = some (src (p + i))) :
    isLegalPartial src' p length = some (isLegalUTF8 src p length) := by
  rw [isLegalPartial]
  split_ifs with hlong
  · obtain ⟨j, rfl⟩ := Nat.exists_eq_add_of_le' (Nat.succ_le_of_lt hlong)
    rfl
  · have h₀ : 0 < length → src' p = some (src p) := h 0
    -- A case label falls through to the next one.
    have hand : ∀ a b : Bool, (if a = true then some b else some false) = some (a && b) := by
      intro a b
      cases a <;> rfl
    obtain rfl | rfl | rfl | rfl | rfl : length = 0 ∨ length = 1 ∨ length = 2 ∨ length = 3 ∨
      length = 4 := by omega
    · rfl
    · simp [isLegalFrom, isLegalUTF8, h₀]
    · simp [isLegalFrom, isLegalUTF8, hand, h₀, h 1]
    · simp [isLegalFrom, isLegalUTF8, hand, Bool.and_assoc, h₀, h 1, h 2]
    · simp [isLegalFrom, isLegalUTF8, hand, Bool.and_assoc, h₀, h 1, h 2, h 3]

theorem readBytesPartial_eq {k : ℕ} (ch : ℕ)
    (h : ∀ i < k + 1, src' (p + i) = some (src (p + i))) :
    readBytesPartial src' k ch p = some (readBytes src k ch p) := by
  have h₀ : src' p = some (src p) := h 0 (Nat.succ_pos k)
  induction k generalizing ch p with
  | zero => simp [readBytesPartial, readBytes, h₀]
  | succ k ih =>
    have hrest : ∀ i < k + 1, src' (p + 1 + i) = some (src (p + 1 + i)) := by
      intro i hi
      rw [Nat.add_assoc, Nat.add_comm 1]
      exact h (i + 1) (Nat.succ_lt_succ hi)
    rw [readBytesPartial, h₀]
    exact ih _ hrest (hrest 0 (Nat.succ_pos k))

/-- **A round reads nothing outside the source.** -/
theorem roundPartial_eq (n : ℕ) (targetEnd : Option ℤ) (flags : ConversionFlags)
    {c : Cursor UInt16} (hc : (c.source : ℤ) < n) :
    roundPartial (firstBytes src n) n targetEnd flags c =
      some (roundUTF8 src n targetEnd flags c) := by
  have hin : ∀ i, c.source + i < n →
      firstBytes src n (c.source + i) = some (src (c.source + i)) := fun i hi => if_pos hi
  have h₀ : firstBytes src n c.source = some (src c.source) := hin 0 (by omega)
  simp only [roundPartial, roundUTF8, h₀, Option.bind_eq_bind, Option.bind_some, Option.pure_def]
  split_ifs with hend hlegal
  · rfl
  all_goals
    have hbytes : ∀ i < trailingBytesForUTF8 (src c.source) + 1,
        firstBytes src n (c.source + i) = some (src (c.source + i)) := by
      intro i hi
      exact hin i (by omega)
    rw [isLegalPartial_eq hbytes, readBytesPartial_eq _ hbytes]
    simp only [Option.bind_some, hlegal, if_true, if_false, Bool.false_eq_true]

/-- **The strict or lenient `ConvertUTF8toUTF16` reads nothing outside the source.** -/
theorem convertPartial_eq (n : ℕ) (targetEnd : Option ℤ) (flags : ConversionFlags)
    (c : Cursor UInt16) :
    convertPartial (firstBytes src n) n targetEnd flags c =
      ((convertUTF8toUTF16 src n targetEnd flags c).1,
        some (convertUTF8toUTF16 src n targetEnd flags c).2) := by
  refine Loop.whileLoop_map (f := some) (fun c hc => ?_) c
  rw [roundPartial_eq n targetEnd flags (of_decide_eq_true hc)]
  rfl

end Partial

/-! ### From UTF-8 -/

/-- **What `UziUtf8toUtf16` is for**, on the first `n` bytes of `src`: it accepts them if and
only if they are well-formed UTF-8, stores and counts the UTF-16 form of the text they
encode, and reads no other byte. -/
structure DecodesExactly (src : ℕ → UInt8) (cchSrc : ℤ) (hsrc : Terminated src cchSrc) (n : ℕ)
    (dst : ℕ → UInt16) (cap : ℤ) : Prop where
  accepts : (uziUtf8toUtf16 src cchSrc hsrc dst cap).1 ≠ 0 ↔ WellFormedUTF8 (contents src n)
  writes : ∀ cs, contents src n = utf8Encode cs →
    uziUtf8toUtf16 src cchSrc hsrc dst cap =
      (((utf16Encode cs).length : ℤ), blit dst 0 (utf16Encode cs))
  inside : convertPartial (firstBytes src n) n (some cap) .strictConversion ⟨0, 0, dst⟩ =
    ((convertUTF8toUTF16 src n (some cap) .strictConversion ⟨0, 0, dst⟩).1,
      some (convertUTF8toUTF16 src n (some cap) .strictConversion ⟨0, 0, dst⟩).2)

/-- **What `UziUtf8toUtf16` accepts**: well-formed UTF-8, and what has a slip. -/
theorem uziUtf8toUtf16_ne_zero_iff {src : ℕ → UInt8} {n : ℕ} (hn : 1 ≤ n) (dst : ℕ → UInt16)
    {cap : ℤ} (hcap : (n : ℤ) ≤ cap) (hint : cap < 2 ^ 31) :
    (uziUtf8toUtf16 src n (terminated_natCast src n) dst cap).1 ≠ 0 ↔
      WellFormedUTF8 (contents src n) ∨ Slips (contents src n) := by
  have hdec := piecewise_decodeUTF8 src n
  constructor
  · intro h
    have hok := ok_of_uziConvert_ne_zero (by omega) h
    rw [convertUTF8toUTF16_eq] at hok
    obtain ⟨xs, q, hreads⟩ := reads_of_convertLoop hdec _ hok
    obtain ⟨bs, hbs, hheld, hend⟩ := hreads.pieces hdec (fun _ _ _ => decodeUTF8_ok) (by simp)
    have hlen : ((0 + bs.flatten.length : ℕ) : ℤ) = n := hend
    rw [contents_eq_iff.mpr ⟨hheld, by omega⟩]
    exact wellFormed_or_slips hbs
  · intro h
    obtain ⟨bs, hbs, hcs⟩ : ∃ bs : List (List UInt8), (∀ b ∈ bs, Passes b) ∧
        contents src n = bs.flatten := by
      obtain ⟨cs, hcs⟩ | ⟨bs, hbs, -, hcs⟩ := h
      · refine ⟨cs.map String.utf8EncodeChar, fun b hb => ?_, hcs⟩
        obtain ⟨c, -, rfl⟩ := List.mem_map.mp hb
        exact .inl ⟨c, rfl⟩
      · exact ⟨bs, hbs, hcs⟩
    obtain ⟨hheld, hlen⟩ := contents_eq_iff.mp hcs
    have hend : ((0 + bs.flatten.length : ℕ) : ℤ) = n := by rw [Nat.zero_add, hlen]
    obtain ⟨xs, q, hreads, hle, hpos⟩ := reads_of_passes hbs hheld hend
    have hrun := convertLoop_reads hdec.consumes (some cap) (c := ⟨0, 0, dst⟩) hreads
      (lacksRoom_zero (by omega))
    -- each piece takes at most as many units as it has bytes, so that there is room for all
    rw [← convertUTF8toUTF16_eq src n (some cap) .strictConversion] at hrun
    rw [uziUtf8toUtf16, uziConvert_of_ok (by omega) (m := xs.length) (by omega) (by simp) hrun]
    simp only [ne_eq, Nat.cast_eq_zero]
    omega

/-- **`UziUtf8toUtf16` accepts exactly well-formed UTF-8, except where a sequence slips
through.** For a call with `n` bytes, given or asked for, and a unit of room for each of them,
the function does what it is for if and only if the bytes are not made up of forms of scalar
values and of sequences with an ASCII byte after `0xED` or `0xF4`, at least one of these. -/
theorem decodesExactly_iff {src : ℕ → UInt8} {cchSrc : ℤ} {n : ℕ}
    (hsrc : Terminated src cchSrc) (hspan : Spans src cchSrc n) (hn : 1 ≤ n) (dst : ℕ → UInt16)
    {cap : ℤ} (hcap : (n : ℤ) ≤ cap) (hint : cap < 2 ^ 31) :
    DecodesExactly src cchSrc hsrc n dst cap ↔ ¬ Slips (contents src n) := by
  have hspans : uziUtf8toUtf16 src cchSrc hsrc dst cap =
      uziUtf8toUtf16 src n (terminated_natCast src n) dst cap :=
    uziConvert_spans hsrc hspan (by omega) dst cap
  have hiff : (uziUtf8toUtf16 src cchSrc hsrc dst cap).1 ≠ 0 ↔ _ :=
    hspans ▸ uziUtf8toUtf16_ne_zero_iff hn dst hcap hint
  constructor
  · intro h hslips
    exact hslips.not_wellFormed (h.accepts.mp (hiff.mpr (.inr hslips)))
  · intro hslips
    refine ⟨hiff.trans (or_iff_left hslips), fun cs hcs => ?_, convertPartial_eq n _ _ _⟩
    obtain ⟨hheld, rfl⟩ := contents_eq_iff.mp hcs
    have hlen := (length_encode cs).1
    rw [hspans]
    exact uziUtf8toUtf16_text hheld dst (by omega) (by omega) hint

/-- The letter A, with its terminator, is decoded as it should be. -/
theorem decodesExactly_letter :
    DecodesExactly (blit (fun _ => 0) 0 [0x41, 0]) (-1) (fun _ => ⟨1, rfl⟩) 2 (fun _ => 7) 2 := by
  refine (decodesExactly_iff (fun _ => ⟨1, rfl⟩) (.inr ⟨rfl, ⟨1, rfl⟩, by decide +kernel⟩)
    (by decide) (fun _ => 7) (by decide) (by decide)).mpr fun h => ?_
  exact h.not_wellFormed ⟨['A', Char.ofNat 0], by decide +kernel⟩

/-- The three bytes `0xED`, `0x41` and `0x80` are accepted, and are not well formed. -/
theorem slip_not_decodesExactly :
    ¬ DecodesExactly (blit (fun _ => 0) 0 [0xED, 0x41, 0x80]) (3 : ℕ) (terminated_natCast _ 3) 3
      (fun _ => 0) 3 := by
  intro h
  have hres : (uziUtf8toUtf16 (blit (fun _ => 0) 0 [0xED, 0x41, 0x80]) (3 : ℕ)
      (terminated_natCast _ 3) (fun _ => 0) 3).1 = 1 := by decide +kernel
  have hslips : Slips (contents (blit (fun _ => 0) 0 [0xED, 0x41, 0x80]) 3) :=
    ⟨[[0xED, 0x41, 0x80]], by
      simp only [List.mem_singleton, forall_eq]
      exact .inr (.ed (by decide) (by decide) (by decide)), by
      simp only [List.mem_singleton, exists_eq_left]
      exact .ed (by decide) (by decide) (by decide), by decide +kernel⟩
  exact hslips.not_wellFormed (h.accepts.mp (by rw [hres]; decide))

end Unicode

end Libuzi
