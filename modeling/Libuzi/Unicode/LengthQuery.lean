import Libuzi.Unicode.Decode

/-!
# The length query

Callers ask for the length first, with a capacity of 0, allocate, and convert. The call
for the length and the call that writes take different branches at every place where a
unit is emitted, and the call that writes tests for room on top.

The two are compared round by round. A round is the same reading followed by the same
emission (`roundUTF16_eq`, `roundUTF8_eq`), so the two loops, started at the same place,
stay at the same place until the writing one runs out of room; and the counting one can
then only move further. This is `Agrees`, shown once for every decoder
(`convertLoop_agrees`), whatever the source is: a source that is not well formed stops
both loops at the same unit, unless the writing one has been stopped earlier by a full
target, and both then return 0.
-/

namespace Libuzi

namespace Unicode

open Buffer

/-! ### A loop of readings and emissions -/

section Agree

variable {β : Type} {sourceEnd : ℤ} {decode : ℕ → Piece β}

/-- The rounds of a decoder. -/
def decodeRound (targetEnd : Option ℤ) (decode : ℕ → Piece β) (c : Cursor β) : Round β :=
  emit targetEnd c (decode c.source)

/-- A decoder that reads at least one unit at a time. -/
def Consumes (decode : ℕ → Piece β) : Prop := ∀ p n xs, decode p = .ok (n, xs) → 0 < n

theorem decodeRound_next (hpos : Consumes decode) (targetEnd : Option ℤ) (c c' : Cursor β)
    (h : decodeRound targetEnd decode c = .next c') : c.source < c'.source := by
  rw [decodeRound] at h
  cases hd : decode c.source with
  | error r =>
    rw [hd] at h
    cases h
  | ok piece =>
    obtain ⟨n, xs⟩ := piece
    have hn := hpos _ _ _ hd
    rw [hd, emit] at h
    split_ifs at h
    cases h
    exact Nat.lt_add_of_pos_right hn

/-- **The run of a decoder from `c` on**: at the end of the source it is over, an error or a
lack of room stops it at `c`, and otherwise it goes on after what has been read. -/
theorem convertLoop_decode (hpos : Consumes decode) (targetEnd : Option ℤ) (c : Cursor β)
    (h : (c.source : ℤ) < sourceEnd) :
    convertLoop sourceEnd (decodeRound targetEnd decode) c =
      match decode c.source with
      | .error r => (c, r)
      | .ok (n, xs) =>
        if lacksRoom targetEnd c.target xs.length then (c, .targetExhausted)
        else convertLoop sourceEnd (decodeRound targetEnd decode)
          ⟨c.source + n, c.target + xs.length, stored targetEnd c.dst c.target xs⟩ := by
  have hnext := decodeRound_next hpos targetEnd
  cases hd : decode c.source with
  | error r => exact convertLoop_stop hnext h (by rw [decodeRound, hd, emit])
  | ok piece =>
    obtain ⟨n, xs⟩ := piece
    simp only
    split_ifs with hroom
    · exact convertLoop_stop hnext h (by rw [decodeRound, hd, emit, if_pos hroom])
    · exact convertLoop_next hnext h (by rw [decodeRound, hd, emit, if_neg hroom])

/-- **What a counting run `count` and a writing run `write` have in common**, when the target
of the latter has the capacity `e` and was `dst` at the start: they end in the same way if
what has been counted fits, and fail together otherwise; and nothing is stored at `e` or
beyond. -/
structure Agrees (e : ℤ) (dst : ℕ → β) (count write : Cursor β × ConversionResult) : Prop where
  fits : count.2 = .conversionOK → (count.1.target : ℤ) ≤ e →
    write.2 = .conversionOK ∧ write.1.target = count.1.target
  full : count.2 = .conversionOK → e < (count.1.target : ℤ) → write.2 ≠ .conversionOK
  fails : count.2 ≠ .conversionOK → write.2 ≠ .conversionOK
  below : ∀ i : ℕ, e ≤ i → write.1.dst i = dst i

/-- Two runs that stop at the same place, within the capacity, agree. -/
theorem Agrees.of_stop {e : ℤ} {c c' : Cursor β} (htarget : c'.target = c.target)
    (hroom : (c.target : ℤ) ≤ e) (r : ConversionResult) : Agrees e c'.dst (c, r) (c', r) where
  fits h _ := ⟨h, htarget⟩
  full _ h := absurd hroom (Int.not_le.mpr h)
  fails h := h
  below _ _ := rfl

/-- A counting run never moves its target pointer back. -/
theorem le_target_convertLoop (hpos : Consumes decode) (sourceEnd : ℤ) (c : Cursor β) :
    c.target ≤ (convertLoop sourceEnd (decodeRound none decode) c).1.target := by
  -- By induction on the distance to the end of the source.
  induction hm : (sourceEnd - c.source).toNat using Nat.strong_induction_on generalizing c with
  | _ m ih =>
    rcases lt_or_ge (c.source : ℤ) sourceEnd with hlt | hge
    · rw [convertLoop_decode hpos none c hlt]
      cases hd : decode c.source with
      | error r => exact Nat.le_refl _
      | ok piece =>
        obtain ⟨n, xs⟩ := piece
        have hn := hpos _ _ _ hd
        have hrest := ih _ (by simp only; omega)
          ⟨c.source + n, c.target + xs.length, stored none c.dst c.target xs⟩ rfl
        exact Nat.le_trans (Nat.le_add_right _ _) hrest
    · rw [convertLoop_done hge]

/-- **The counting loop and the writing loop of a decoder agree**, from any two cursors at
the same place. -/
theorem convertLoop_agrees (hpos : Consumes decode) {e : ℤ} (c c' : Cursor β)
    (hsource : c'.source = c.source) (htarget : c'.target = c.target)
    (hroom : (c.target : ℤ) ≤ e) :
    Agrees e c'.dst (convertLoop sourceEnd (decodeRound none decode) c)
      (convertLoop sourceEnd (decodeRound (some e) decode) c') := by
  induction hm : (sourceEnd - c.source).toNat using Nat.strong_induction_on generalizing c c' with
  | _ m ih =>
    rcases lt_or_ge (c.source : ℤ) sourceEnd with hlt | hge
    · rw [convertLoop_decode hpos none c hlt,
        convertLoop_decode hpos (some e) c' (by rw [hsource]; exact hlt), hsource, htarget]
      cases hd : decode c.source with
      | error r => exact .of_stop htarget hroom r
      | ok piece =>
        obtain ⟨n, xs⟩ := piece
        have hn := hpos _ _ _ hd
        simp only [lacksRoom, Bool.false_eq_true, if_false, decide_eq_true_eq]
        split_ifs with hfull
        · -- The writing run stops here; the counting run goes past the capacity, or fails.
          have hpast := le_target_convertLoop hpos sourceEnd
            ⟨c.source + n, c.target + xs.length, stored none c.dst c.target xs⟩
          exact
            { fits := fun _ h => absurd (Int.le_trans (Int.ofNat_le.mpr hpast) h)
                (Int.not_le.mpr hfull)
              full := fun _ _ h => by cases h
              fails := fun _ h => by cases h
              below := fun _ _ => rfl }
        · have hrest := ih _ (by simp only; omega)
            ⟨c.source + n, c.target + xs.length, stored none c.dst c.target xs⟩
            ⟨c.source + n, c.target + xs.length, stored (some e) c'.dst c.target xs⟩ rfl rfl
            (Int.not_lt.mp hfull) rfl
          refine ⟨hrest.fits, hrest.full, hrest.fails, fun i hi => ?_⟩
          rw [hrest.below i hi]
          exact blit_of_ge (by omega)
    · rw [convertLoop_done hge, convertLoop_done (by rw [hsource]; exact hge)]
      exact .of_stop htarget hroom .conversionOK

end Agree

/-! ### The two converters -/

theorem consumes_decodeUTF16 (src : ℕ → UInt16) (sourceEnd : ℤ) (flags : ConversionFlags) :
    Consumes (decodeUTF16 src sourceEnd flags) := by
  intro p n xs h
  simp only [decodeUTF16] at h
  split_ifs at h
  all_goals
    cases h
    decide

theorem consumes_decodeUTF8 (src : ℕ → UInt8) (sourceEnd : ℤ) :
    Consumes (decodeUTF8 src sourceEnd) := by
  intro p n xs h
  simp only [decodeUTF8] at h
  split_ifs at h
  cases h
  exact Nat.succ_pos _

/-- `convertUTF16toUTF8` is the loop of its decoder. -/
theorem convertUTF16toUTF8_eq (src : ℕ → UInt16) (sourceEnd : ℤ) (targetEnd : Option ℤ)
    (flags : ConversionFlags) : convertUTF16toUTF8 src sourceEnd targetEnd flags =
      convertLoop sourceEnd (decodeRound targetEnd (decodeUTF16 src sourceEnd flags)) := by
  have hround : roundUTF16 src sourceEnd targetEnd flags =
      decodeRound targetEnd (decodeUTF16 src sourceEnd flags) := by
    funext c
    exact roundUTF16_eq src sourceEnd targetEnd flags c
  funext c
  rw [convertUTF16toUTF8, hround]

/-- `convertUTF8toUTF16` is the loop of its decoder. -/
theorem convertUTF8toUTF16_eq (src : ℕ → UInt8) (sourceEnd : ℤ) (targetEnd : Option ℤ)
    (flags : ConversionFlags) : convertUTF8toUTF16 src sourceEnd targetEnd flags =
      convertLoop sourceEnd (decodeRound targetEnd (decodeUTF8 src sourceEnd)) := by
  have hround : roundUTF8 src sourceEnd targetEnd flags =
      decodeRound targetEnd (decodeUTF8 src sourceEnd) := by
    funext c
    exact roundUTF8_eq src sourceEnd targetEnd flags c
  funext c
  rw [convertUTF8toUTF16, hround]

/-! ### The exported functions -/

section Query

variable {α β : Type} [Zero α] [DecidableEq α]

/-- The length to which the `n` units of `src` are converted, if they are, fits in an `int`.
The target `query` of the call that counts is not used. -/
def LengthFits
    (convert : (ℕ → α) → ℤ → Option ℤ → ConversionFlags → Cursor β → Cursor β × ConversionResult)
    (src : ℕ → α) (n : ℕ) (query : ℕ → β) : Prop :=
  (convert src n none .strictConversion ⟨0, 0, query⟩).2 = .conversionOK →
    (convert src n none .strictConversion ⟨0, 0, query⟩).1.target < 2 ^ 31

variable
  {convert : (ℕ → α) → ℤ → Option ℤ → ConversionFlags → Cursor β → Cursor β × ConversionResult}
  {src : ℕ → α} {n : ℕ}

/-- **An exported function agrees with its length query** when its two runs agree. -/
theorem uziConvert_query {query : ℕ → β} (hfits : LengthFits convert src n query) {cchDst : ℤ}
    (hcch : 1 ≤ cchDst) (dst : ℕ → β)
    (hagree : Agrees cchDst dst (convert src n none .strictConversion ⟨0, 0, query⟩)
      (convert src n (some cchDst) .strictConversion ⟨0, 0, dst⟩)) :
    (uziConvert convert src n (terminated_natCast src n) dst cchDst).1 =
        (if (uziConvert convert src n (terminated_natCast src n) query 0).1 ≤ cchDst then
          (uziConvert convert src n (terminated_natCast src n) query 0).1 else 0) ∧
      ∀ i : ℕ, cchDst ≤ i →
        (uziConvert convert src n (terminated_natCast src n) dst cchDst).2 i = dst i := by
  have hn : ¬ (n : ℤ) = -1 := by omega
  have hzero : ¬ cchDst = 0 := by omega
  unfold uziConvert
  simp only [dif_neg hn, if_neg hzero, if_true]
  refine ⟨?_, hagree.below⟩
  by_cases hok : (convert src n none .strictConversion ⟨0, 0, query⟩).2 = .conversionOK
  · have hlen := hfits hok
    have hint : toInt (convert src n none .strictConversion ⟨0, 0, query⟩).1.target =
        (convert src n none .strictConversion ⟨0, 0, query⟩).1.target :=
      Int.bmod_eq_of_le (by omega) (by omega)
    rw [if_pos hok, hint]
    rcases le_or_gt ((convert src n none .strictConversion ⟨0, 0, query⟩).1.target : ℤ) cchDst
      with hle | hgt
    · obtain ⟨hwrite, htarget⟩ := hagree.fits hok hle
      rw [if_pos hwrite, if_pos hle, htarget, hint]
    · rw [if_neg (hagree.full hok hgt), if_neg (Int.not_le.mpr hgt)]
  · rw [if_neg hok, if_neg (hagree.fails hok), ite_self]

end Query

/-- **The length query agrees with the conversion**, for both functions, whatever the
source: with `L` the result of the query, a call with a capacity of at least 1 returns `L`
if this fits and 0 otherwise, and the buffer is unchanged from its capacity on. -/
theorem length_query_agrees (n : ℕ) (cchDst : ℤ) (hcch : 1 ≤ cchDst) :
    (∀ (src : ℕ → UInt8) (query dst : ℕ → UInt16), LengthFits convertUTF8toUTF16 src n query →
      let L := (uziUtf8toUtf16 src n (terminated_natCast src n) query 0).1
      let out := uziUtf8toUtf16 src n (terminated_natCast src n) dst cchDst
      out.1 = (if L ≤ cchDst then L else 0) ∧ ∀ i : ℕ, cchDst ≤ i → out.2 i = dst i) ∧
    ∀ (src : ℕ → UInt16) (query dst : ℕ → UInt8), LengthFits convertUTF16toUTF8 src n query →
      let L := (uziUtf16toUtf8 src n (terminated_natCast src n) query 0).1
      let out := uziUtf16toUtf8 src n (terminated_natCast src n) dst cchDst
      out.1 = (if L ≤ cchDst then L else 0) ∧ ∀ i : ℕ, cchDst ≤ i → out.2 i = dst i := by
  have hroom : ((0 : ℕ) : ℤ) ≤ cchDst := by omega
  constructor
  · intro src query dst hfits
    refine uziConvert_query hfits hcch dst ?_
    rw [convertUTF8toUTF16_eq, convertUTF8toUTF16_eq]
    exact convertLoop_agrees (consumes_decodeUTF8 src n) ⟨0, 0, query⟩ ⟨0, 0, dst⟩ rfl rfl hroom
  · intro src query dst hfits
    refine uziConvert_query hfits hcch dst ?_
    rw [convertUTF16toUTF8_eq, convertUTF16toUTF8_eq]
    exact convertLoop_agrees (consumes_decodeUTF16 src n .strictConversion) ⟨0, 0, query⟩
      ⟨0, 0, dst⟩ rfl rfl hroom

/-- The letter A and a face: the query finds three units, of which two do not have room; and
five bytes, of which nine do. -/
theorem length_query_agrees_face :
    ((uziUtf8toUtf16 (blit (fun _ => 0) 0 [0x41, 0xF0, 0x9F, 0x98, 0x80]) 5
        (terminated_natCast _ 5) (fun _ => 0) 0).1 = 3 ∧
      (uziUtf8toUtf16 (blit (fun _ => 0) 0 [0x41, 0xF0, 0x9F, 0x98, 0x80]) 5
        (terminated_natCast _ 5) (fun _ => 0) 2).1 = 0) ∧
    (uziUtf16toUtf8 (blit (fun _ => 0) 0 [0x41, 0xD83D, 0xDE00]) 3
        (terminated_natCast _ 3) (fun _ => 0) 0).1 = 5 ∧
      (uziUtf16toUtf8 (blit (fun _ => 0) 0 [0x41, 0xD83D, 0xDE00]) 3
        (terminated_natCast _ 3) (fun _ => 0) 9).1 = 5 := by
  have h₈ : (uziUtf8toUtf16 (blit (fun _ => 0) 0 [0x41, 0xF0, 0x9F, 0x98, 0x80]) (5 : ℕ)
      (terminated_natCast _ 5) (fun _ => 0) 0).1 = 3 := by decide +kernel
  have h₁₆ : (uziUtf16toUtf8 (blit (fun _ => 0) 0 [0x41, 0xD83D, 0xDE00]) (3 : ℕ)
      (terminated_natCast _ 3) (fun _ => 0) 0).1 = 5 := by decide +kernel
  refine ⟨⟨h₈, ?_⟩, h₁₆, ?_⟩
  · have hagree := (length_query_agrees 5 2 (by decide)).1
      (blit (fun _ => 0) 0 [0x41, 0xF0, 0x9F, 0x98, 0x80]) (fun _ => 0) (fun _ => 0)
      (by unfold LengthFits; decide +kernel)
    exact hagree.1.trans (by rw [h₈]; rfl)
  · have hagree := (length_query_agrees 3 9 (by decide)).2
      (blit (fun _ => 0) 0 [0x41, 0xD83D, 0xDE00]) (fun _ => 0) (fun _ => 0)
      (by unfold LengthFits; decide +kernel)
    exact hagree.1.trans (by rw [h₁₆]; rfl)

end Unicode

end Libuzi
