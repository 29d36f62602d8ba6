import Libuzi.Unicode.LengthQuery

/-!
# A conversion that is stopped can be resumed

A converter that runs out of room returns `targetExhausted` and leaves its source pointer
at the first character it has not written, so that the caller can empty the target buffer
and call again. This file compares such a sequence of calls with a single call that has
room for everything.

The single call is described without its target: `Reads` says what is read from a position
on, up to the end or the first error, and what it becomes. A call with a large target
writes exactly this (`convertLoop_reads`). A call with a small target writes a beginning
of it and stops where the rest is read from (`Partly`, `convertLoop_partly`); when the
target has room for one character, it stops further on than it has begun. The calls of
`nextCall` hence come to an end, with the same output, the same result and the same source
position (`exits_nextCall`).

What the converters have to satisfy for this is collected in `Piecewise`: every reading
moves on, stays in the source, is short, and an error of the source looks neither like a full
target nor like success.
-/

namespace Libuzi

namespace Unicode

open Buffer

variable {β : Type}

/-! ### What is read from a position on -/

section Reads

variable {sourceEnd : ℤ} {decode : ℕ → Piece β}

/-- **All that is read from a position on**, with the position and the result at the end of
it. -/
inductive Reads (sourceEnd : ℤ) (decode : ℕ → Piece β) :
    ℕ → List β → ℕ → ConversionResult → Prop
  /-- The end of the source. -/
  | done {p : ℕ} : sourceEnd ≤ p → Reads sourceEnd decode p [] p .conversionOK
  /-- An error. -/
  | fail {p : ℕ} {r : ConversionResult} : (p : ℤ) < sourceEnd → decode p = .error r →
      Reads sourceEnd decode p [] p r
  /-- A character, and what comes after it. -/
  | step {p n q : ℕ} {xs ys : List β} {r : ConversionResult} : (p : ℤ) < sourceEnd →
      decode p = .ok (n, xs) → Reads sourceEnd decode (p + n) ys q r →
      Reads sourceEnd decode p (xs ++ ys) q r

/-- A decoder whose readings are at most `m` units long. -/
structure Piecewise (m : ℕ) (sourceEnd : ℤ) (decode : ℕ → Piece β) : Prop where
  consumes : Consumes decode
  inside : ∀ (p n : ℕ) xs, (p : ℤ) < sourceEnd → decode p = .ok (n, xs) →
    ((p + n : ℕ) : ℤ) ≤ sourceEnd
  short : ∀ p n xs, decode p = .ok (n, xs) → xs.length ≤ m ∧ xs.length ≤ 3 * n
  error : ∀ p r, decode p = .error r → r ≠ .targetExhausted ∧ r ≠ .conversionOK

/-- Something is read from every position on. -/
theorem exists_reads (hpos : Consumes decode) (sourceEnd : ℤ) (p : ℕ) :
    ∃ xs q r, Reads sourceEnd decode p xs q r := by
  induction hm : (sourceEnd - p).toNat using Nat.strong_induction_on generalizing p with
  | _ k ih =>
    rcases lt_or_ge (p : ℤ) sourceEnd with hlt | hge
    · cases hd : decode p with
      | error r => exact ⟨[], p, r, .fail hlt hd⟩
      | ok piece =>
        obtain ⟨n, xs⟩ := piece
        have hn := hpos _ _ _ hd
        obtain ⟨ys, q, r, hrest⟩ := ih _ (by omega) (p + n) rfl
        exact ⟨xs ++ ys, q, r, .step hlt hd hrest⟩
    · exact ⟨[], p, .conversionOK, .done hge⟩

/-- **A call with room for everything writes what is read.** -/
theorem convertLoop_reads (hpos : Consumes decode) (targetEnd : Option ℤ) {c : Cursor β}
    {xs : List β} {q : ℕ} {r : ConversionResult} (h : Reads sourceEnd decode c.source xs q r)
    (hroom : lacksRoom targetEnd c.target xs.length = false) :
    convertLoop sourceEnd (decodeRound targetEnd decode) c =
      (⟨q, c.target + xs.length, stored targetEnd c.dst c.target xs⟩, r) := by
  obtain ⟨p, t, dst⟩ := c
  simp only at h hroom ⊢
  induction h generalizing t dst with
  | done hge =>
    rw [convertLoop_done hge]
    cases targetEnd <;> rfl
  | fail hlt hd =>
    rw [convertLoop_decode hpos _ _ hlt]
    simp only [hd]
    cases targetEnd <;> rfl
  | @step p n q xs ys r hlt hd _ ih =>
    rw [List.length_append] at hroom ⊢
    have hxs := lacksRoom_mono (Nat.le_add_right xs.length ys.length) hroom
    rw [convertLoop_decode hpos _ _ hlt]
    simp only [hd, hxs, Bool.false_eq_true, if_false]
    rw [ih _ _ (lacksRoom_add hroom), stored_append, Nat.add_assoc]

/-- What is read from `p` on does not need more than three units for each one of the
source. -/
theorem Reads.length_le {m : ℕ} (hdec : Piecewise m sourceEnd decode) {p q : ℕ} {xs : List β}
    {r : ConversionResult} (h : Reads sourceEnd decode p xs q r) :
    (xs.length : ℤ) ≤ 3 * (sourceEnd - p).toNat := by
  induction h with
  | done _ => simp
  | fail _ _ => simp
  | @step p n q xs ys r hlt hd _ ih =>
    have hshort := (hdec.short _ _ _ hd).2
    have hin := hdec.inside _ _ _ hlt hd
    rw [List.length_append]
    omega

/-- The result of a reading is never that the target is full. -/
theorem Reads.ne_targetExhausted {m : ℕ} (hdec : Piecewise m sourceEnd decode) {p q : ℕ}
    {xs : List β} {r : ConversionResult} (h : Reads sourceEnd decode p xs q r) :
    r ≠ .targetExhausted := by
  induction h with
  | done _ => decide
  | fail _ hd => exact (hdec.error _ _ hd).1
  | step _ _ _ ih => exact ih

/-! ### A call that stops early -/

/-- **A beginning of what is read**: of `xs`, read from `p` on, the call that has begun with
the cursor `c` has written `ys`, and the rest `zs` is read from where it has stopped. -/
structure Partly (sourceEnd : ℤ) (decode : ℕ → Piece β) (c : Cursor β) (xs : List β) (q : ℕ)
    (r : ConversionResult) (ys zs : List β) (p : ℕ) : Prop where
  split : xs = ys ++ zs
  rest : Reads sourceEnd decode p zs q r
  inside : (c.source : ℤ) < sourceEnd
  le : c.source ≤ p

/-- **A call either writes everything or stops at a character it has no room for.** -/
theorem convertLoop_partly {m : ℕ} (hdec : Piecewise m sourceEnd decode) {e : ℤ} {c : Cursor β}
    {xs : List β} {q : ℕ} {r : ConversionResult} (h : Reads sourceEnd decode c.source xs q r) :
    convertLoop sourceEnd (decodeRound (some e) decode) c =
        (⟨q, c.target + xs.length, blit c.dst c.target xs⟩, r) ∨
      ∃ ys zs p, Partly sourceEnd decode c xs q r ys zs p ∧
        convertLoop sourceEnd (decodeRound (some e) decode) c =
          (⟨p, c.target + ys.length, blit c.dst c.target ys⟩, .targetExhausted) ∧
        (((c.target + m : ℕ) : ℤ) ≤ e → c.source < p) := by
  obtain ⟨p, t, dst⟩ := c
  simp only at h ⊢
  -- along the decoding of the whole source, for every place that the target may have reached
  induction h generalizing t dst with
  | done hge => exact .inl (convertLoop_done hge)
  | fail hlt hd =>
    refine .inl ?_
    rw [convertLoop_decode hdec.consumes _ _ hlt]
    simp only [hd]
    rfl
  | @step p n q xs ys r hlt hd hrest ih =>
    have hn := hdec.consumes _ _ _ hd
    have hshort := (hdec.short _ _ _ hd).1
    rw [convertLoop_decode hdec.consumes _ _ hlt]
    simp only [hd]
    split_ifs with hfull
    · -- There is no room for this character, and the rest begins here.
      refine .inr ⟨[], xs ++ ys, p, ⟨rfl, .step hlt hd hrest, hlt, Nat.le_refl _⟩, rfl, ?_⟩
      intro hroom
      rw [lacksRoom, decide_eq_true_eq] at hfull
      omega
    · -- There is room: what the rest of the loop writes comes behind it.
      obtain hall | ⟨us, zs, p', hpart, hrun, -⟩ := ih (t + xs.length) (stored (some e) dst t xs)
      · refine .inl (hall.trans ?_)
        rw [List.length_append, blit_append, Nat.add_assoc]
        rfl
      · have hlt' : p < p' := Nat.lt_of_lt_of_le (Nat.lt_add_of_pos_right hn) hpart.le
        refine .inr ⟨xs ++ us, zs, p', ⟨?_, hpart.rest, hlt, hlt'.le⟩, hrun.trans ?_,
          fun _ => hlt'⟩
        · rw [hpart.split, List.append_assoc]
        · rw [List.length_append, blit_append, Nat.add_assoc]
          rfl

end Reads

/-! ### Calling again -/

/-- A target buffer: how many units it has room for, and what is in it. -/
structure Target (β : Type) where
  capacity : ℤ
  contents : ℕ → β

/-- The units that a call has written: those before its target pointer. -/
def written (c : Cursor β) : List β := (List.range c.target).map c.dst

/-- Where a caller stands that converts in several calls: how many it has made, where the
source pointer is, and what has been taken out of the target buffers. -/
structure Calls (β : Type) where
  made : ℕ
  source : ℕ
  output : List β

/-- **The next call**, with the next target buffer; the caller goes on as long as the target
has been exhausted. -/
def nextCall (convert : Option ℤ → Cursor β → Cursor β × ConversionResult)
    (buffers : ℕ → Target β) (s : Calls β) : Loop.Flow (Calls β) ConversionResult :=
  let buffer := buffers s.made
  let out := convert (some buffer.capacity) ⟨s.source, 0, buffer.contents⟩
  let s' : Calls β := ⟨s.made + 1, out.1.source, s.output ++ written out.1⟩
  if out.2 = .targetExhausted then .next s' else .stop s' out.2

/-- What has been stored at the start of a buffer is what has been written. -/
theorem written_blit (p : ℕ) (dst : ℕ → β) (xs : List β) :
    written ⟨p, 0 + xs.length, blit dst 0 xs⟩ = xs := by
  refine List.ext_getElem (by simp [written]) fun i h₁ h₂ => ?_
  have hheld : blit dst 0 xs (0 + i) = xs[i] := holds_blit i h₂
  simpa [written] using hheld

section Calls

variable {sourceEnd : ℤ} {decode : ℕ → Piece β} {m : ℕ}

/-- **The calls of a decoder come to an end**, having written all that is read, when every
target has room for one reading. -/
theorem exits_nextCall (hdec : Piecewise m sourceEnd decode) {buffers : ℕ → Target β}
    (hbuf : ∀ i, (m : ℤ) ≤ (buffers i).capacity) {p q : ℕ} {xs : List β} {r : ConversionResult}
    (h : Reads sourceEnd decode p xs q r) (i : ℕ) (output : List β) :
    ∃ k, Loop.Exits (fun _ => true)
      (nextCall (fun e => convertLoop sourceEnd (decodeRound e decode)) buffers) .conversionOK
      ⟨i, p, output⟩ (⟨k, q, output ++ xs⟩, r) := by
  -- Every call but the last one moves the source pointer.
  induction hd : (sourceEnd - p).toNat using Nat.strong_induction_on
    generalizing p xs i output with
  | _ d ih =>
    have hroom : ((0 + m : ℕ) : ℤ) ≤ (buffers i).capacity := by
      rw [Nat.zero_add]
      exact hbuf i
    obtain hall | ⟨ys, zs, p', hpart, hrun, hmove⟩ :=
      convertLoop_partly hdec (e := (buffers i).capacity) (c := ⟨p, 0, (buffers i).contents⟩) h
    · refine ⟨i + 1, .stop rfl ?_⟩
      simp only [nextCall, hall, written_blit, if_neg (h.ne_targetExhausted hdec)]
    · have hlt := hmove hroom
      have hin := hpart.inside
      simp only at hlt hin
      obtain ⟨k, hk⟩ := ih _ (by omega) hpart.rest (i + 1) (output ++ ys) rfl
      refine ⟨k, .next rfl ?_ (by rw [hpart.split, ← List.append_assoc]; exact hk)⟩
      simp only [nextCall, hrun, written_blit, if_true]

end Calls

/-! ### The two converters -/

theorem length_utf8Bytes_le (ch : ℕ) : (utf8Bytes ch).length ≤ 4 ∧
    (ch < 0x10000 → (utf8Bytes ch).length ≤ 3) := by
  rw [length_utf8Bytes, bytesToWrite]
  split_ifs
  all_goals omega

theorem piecewise_decodeUTF16 (src : ℕ → UInt16) (sourceEnd : ℤ) (flags : ConversionFlags) :
    Piecewise 4 sourceEnd (decodeUTF16 src sourceEnd flags) where
  consumes := consumes_decodeUTF16 src sourceEnd flags
  inside p n xs hlt h := by
    simp only [decodeUTF16] at h
    split_ifs at h with _ hnext
    all_goals
      cases h
      omega
  short p n xs h := by
    have hunit : (src p).toNat < 0x10000 := (src p).toNat_lt
    simp only [decodeUTF16] at h
    -- only the first case, a surrogate pair, has taken two units
    split_ifs at h
    · cases h
      have := length_utf8Bytes_le (((src p).toNat - uniSurHighStart) <<< halfShift +
        ((src (p + 1)).toNat - uniSurLowStart) + halfBase)
      omega
    all_goals
      cases h
      have := length_utf8Bytes_le (src p).toNat
      omega
  error p r h := by
    simp only [decodeUTF16] at h
    split_ifs at h
    all_goals
      cases h
      decide

theorem piecewise_decodeUTF8 (src : ℕ → UInt8) (sourceEnd : ℤ) :
    Piecewise 2 sourceEnd (decodeUTF8 src sourceEnd) where
  consumes := consumes_decodeUTF8 src sourceEnd
  inside p n xs _ h := by
    simp only [decodeUTF8] at h
    split_ifs at h
    cases h
    omega
  short p n xs h := by
    simp only [decodeUTF8] at h
    split_ifs at h
    cases h
    have hunits : ∀ ch, (utf16Units ch).length ≤ 2 := by
      intro ch
      rw [utf16Units]
      split_ifs
      all_goals simp
    have := hunits (readChar src (trailingBytesForUTF8 (src p)) p)
    omega
  error p r h := by
    simp only [decodeUTF8] at h
    split_ifs at h
    all_goals
      cases h
      decide

/-- **A converter can be restarted.** From any position of the source, calls with any targets
of at least `unit` units come to an end, and what they have written together, the source
position and the result are those of a single call whose target has room for three units for
each unit of the source, which no text exceeds. -/
def Restartable (unit sourceEnd : ℤ)
    (convert : Option ℤ → Cursor β → Cursor β × ConversionResult) : Prop :=
  ∀ (p : ℕ) (buffers : ℕ → Target β), (∀ i, unit ≤ (buffers i).capacity) →
    ∀ single : Target β, 3 * (sourceEnd - p).toNat ≤ single.capacity →
      let out := convert (some single.capacity) ⟨p, 0, single.contents⟩
      ∃ k, Loop.Exits (fun _ => true) (nextCall convert buffers) .conversionOK
        ⟨0, p, []⟩ (⟨k, out.1.source, written out.1⟩, out.2)

/-- The loop of a decoder can be restarted. -/
theorem restartable_convertLoop {m : ℕ} {sourceEnd : ℤ} {decode : ℕ → Piece β}
    (hdec : Piecewise m sourceEnd decode) :
    Restartable m sourceEnd (fun e => convertLoop sourceEnd (decodeRound e decode)) := by
  intro p buffers hbuf single hcap
  obtain ⟨xs, q, r, h⟩ := exists_reads hdec.consumes sourceEnd p
  have hlen := h.length_le hdec
  have hsingle := convertLoop_reads hdec.consumes (some single.capacity)
    (c := ⟨p, 0, single.contents⟩) h (lacksRoom_zero (hlen.trans hcap))
  obtain ⟨k, hk⟩ := exits_nextCall hdec hbuf h 0 []
  refine ⟨k, ?_⟩
  simp only [hsingle, stored, written_blit]
  exact hk

/-- **Both converters can be restarted**, strict or lenient, whatever the source: after a call
that has run out of room the next one takes up exactly where it has stopped. -/
theorem converters_restartable (flags : ConversionFlags) (sourceEnd : ℤ) :
    (∀ src : ℕ → UInt8,
      Restartable 2 sourceEnd (fun e => convertUTF8toUTF16 src sourceEnd e flags)) ∧
    ∀ src : ℕ → UInt16,
      Restartable 4 sourceEnd (fun e => convertUTF16toUTF8 src sourceEnd e flags) := by
  constructor
  · intro src
    have heq : (fun e => convertUTF8toUTF16 src sourceEnd e flags) =
        fun e => convertLoop sourceEnd (decodeRound e (decodeUTF8 src sourceEnd)) := by
      funext e
      exact convertUTF8toUTF16_eq src sourceEnd e flags
    rw [heq]
    exact restartable_convertLoop (piecewise_decodeUTF8 src sourceEnd)
  · intro src
    have heq : (fun e => convertUTF16toUTF8 src sourceEnd e flags) =
        fun e => convertLoop sourceEnd (decodeRound e (decodeUTF16 src sourceEnd flags)) := by
      funext e
      exact convertUTF16toUTF8_eq src sourceEnd e flags
    rw [heq]
    exact restartable_convertLoop (piecewise_decodeUTF16 src sourceEnd flags)

/-- Two characters of four bytes with a letter between them: U+1F600, `a`, U+1F601. -/
def cutTwice (i : ℕ) : UInt8 :=
  [0xF0, 0x9F, 0x98, 0x80, 0x61, 0xF0, 0x9F, 0x98, 0x81].getD i 0

/-- What a target of two units holds to begin with does not matter. -/
def twoUnits (_ : ℕ) : Target UInt16 := ⟨2, fun _ => 0⟩

/-- Targets of two units cut the output twice, the second time with a unit to spare, in which the
two surrogates have no room. -/
theorem converters_restartable_cutTwice :
    ∃ k, Loop.Exits (fun _ => true)
      (nextCall (fun e => convertUTF8toUTF16 cutTwice 9 e .strictConversion) twoUnits)
      .conversionOK ⟨0, 0, []⟩
      (⟨k, 9, [0xD83D, 0xDE00, 0x61, 0xD83D, 0xDE01]⟩, .conversionOK) := by
  obtain ⟨k, hk⟩ := (converters_restartable .strictConversion 9).1 cutTwice 0 twoUnits
    (fun _ => le_refl 2) ⟨27, fun _ => 0⟩ (by decide)
  simp only at hk
  refine ⟨k, ?_⟩
  -- the single call, whose target has room for everything
  generalize hout : convertUTF8toUTF16 cutTwice 9 (some 27) .strictConversion
    ⟨0, 0, fun _ => 0⟩ = out at hk
  have hsource : out.1.source = 9 := by
    subst hout
    decide
  have hwritten : written out.1 = [0xD83D, 0xDE00, 0x61, 0xD83D, 0xDE01] := by
    subst hout
    decide
  have hresult : out.2 = .conversionOK := by
    subst hout
    decide
  rw [hsource, hwritten, hresult] at hk
  exact hk

/-- There are three calls. -/
example :
    (Loop.exec (fun _ => true)
      (nextCall (fun e => convertUTF8toUTF16 cutTwice 9 e .strictConversion) twoUnits)
      .conversionOK 3 ⟨0, 0, []⟩).1.made = 3 := by decide

end Unicode

end Libuzi
