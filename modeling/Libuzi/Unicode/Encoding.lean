import Mathlib.Data.List.Basic
import Mathlib.Data.Nat.Init
import Mathlib.Tactic.Common

/-!
# UTF-8 and UTF-16

What the two encodings of Unicode text are, independently of any converter. A scalar
value is a `Char`: a number below `0x110000` that is not a surrogate. Its UTF-8 form is
the core library's `String.utf8EncodeChar`; its UTF-16 form, `utf16EncodeChar`, is one
unit below `0x10000` and a surrogate pair from there on. A text is a list of scalar
values, and is encoded by concatenation: `utf8Encode` and `utf16Encode`.

* `WellFormedUTF8` – a byte sequence is well formed when it encodes some text;
* `WellPaired` – a unit sequence is well formed when every surrogate is properly
  paired, a condition on neighbouring units that does not mention texts.

The two descriptions of well-formed UTF-16 agree: `wellPaired_iff` says that the
well-paired sequences are exactly the encodings of texts.
-/

namespace Libuzi

namespace Unicode

/-! ### Scalar values -/

/-- A scalar value is below the surrogates, or above them and below `0x110000`. -/
theorem char_toNat_valid (c : Char) :
    c.toNat < 0xD800 ∨ 0xDFFF < c.toNat ∧ c.toNat < 0x110000 :=
  c.valid

/-- Every number in these ranges is a scalar value. -/
theorem exists_char {n : ℕ} (h : n < 0xD800 ∨ 0xDFFF < n ∧ n < 0x110000) :
    ∃ c : Char, c.toNat = n :=
  ⟨Char.ofNatAux n h, rfl⟩

/-! ### The encodings of a text -/

/-- **The UTF-16 form of a scalar value**: one unit, or a surrogate pair. -/
def utf16EncodeChar (c : Char) : List UInt16 :=
  if c.toNat < 0x10000 then [UInt16.ofNat c.toNat]
  else [UInt16.ofNat (0xD800 + (c.toNat - 0x10000) / 0x400),
    UInt16.ofNat (0xDC00 + (c.toNat - 0x10000) % 0x400)]

/-- The UTF-16 form of a text. -/
def utf16Encode (cs : List Char) : List UInt16 := cs.flatMap utf16EncodeChar

/-- The UTF-8 form of a text. -/
def utf8Encode (cs : List Char) : List UInt8 := cs.flatMap String.utf8EncodeChar

@[simp] theorem utf16Encode_nil : utf16Encode [] = [] := rfl

@[simp] theorem utf16Encode_cons (c : Char) (cs : List Char) :
    utf16Encode (c :: cs) = utf16EncodeChar c ++ utf16Encode cs := List.flatMap_cons

@[simp] theorem utf8Encode_nil : utf8Encode [] = [] := rfl

@[simp] theorem utf8Encode_cons (c : Char) (cs : List Char) :
    utf8Encode (c :: cs) = String.utf8EncodeChar c ++ utf8Encode cs := List.flatMap_cons

/-- **A byte sequence is well-formed UTF-8**: it is the encoding of a text. -/
def WellFormedUTF8 (b : List UInt8) : Prop := ∃ cs : List Char, b = utf8Encode cs

/-! ### Surrogates -/

/-- The first unit of a surrogate pair. -/
def IsHighSurrogate (x : UInt16) : Prop := 0xD800 ≤ x.toNat ∧ x.toNat ≤ 0xDBFF

/-- The second unit of a surrogate pair. -/
def IsLowSurrogate (x : UInt16) : Prop := 0xDC00 ≤ x.toNat ∧ x.toNat ≤ 0xDFFF

/-- **A unit sequence is well-formed UTF-16**: every high surrogate is immediately
followed by a low one, and every low surrogate is immediately preceded by a high one. -/
structure WellPaired (u : List UInt16) : Prop where
  followed : ∀ (i : ℕ) (x : UInt16), u[i]? = some x → IsHighSurrogate x →
    ∃ y, u[i + 1]? = some y ∧ IsLowSurrogate y
  preceded : ∀ (i : ℕ) (y : UInt16), u[i]? = some y → IsLowSurrogate y →
    ∃ j x, i = j + 1 ∧ u[j]? = some x ∧ IsHighSurrogate x

theorem not_high_of_low {x : UInt16} (h : IsLowSurrogate x) : ¬ IsHighSurrogate x := by
  intro h'
  have h₁ := h.1
  have h₂ := h'.2
  omega

/-- The UTF-16 form of a scalar value of the basic plane is no surrogate. -/
theorem utf16EncodeChar_of_lt {c : Char} (hc : c.toNat < 0x10000) :
    ∃ x : UInt16, utf16EncodeChar c = [x] ∧ x.toNat = c.toNat ∧
      ¬ IsHighSurrogate x ∧ ¬ IsLowSurrogate x := by
  have hx : (UInt16.ofNat c.toNat).toNat = c.toNat := UInt16.toNat_ofNat_of_lt' hc
  refine ⟨UInt16.ofNat c.toNat, if_pos hc, hx, ?_, ?_⟩
  all_goals
    rintro ⟨h₁, h₂⟩
    rw [hx] at h₁ h₂
    have := char_toNat_valid c
    omega

/-- The UTF-16 form of a scalar value beyond the basic plane is a surrogate pair. -/
theorem utf16EncodeChar_of_ge {c : Char} (hc : 0x10000 ≤ c.toNat) :
    ∃ x y : UInt16, utf16EncodeChar c = [x, y] ∧ IsHighSurrogate x ∧ IsLowSurrogate y ∧
      x.toNat = 0xD800 + (c.toNat - 0x10000) / 0x400 ∧
      y.toNat = 0xDC00 + (c.toNat - 0x10000) % 0x400 := by
  have hlt : c.toNat < 0x110000 := by
    have := char_toNat_valid c
    omega
  have hx := UInt16.toNat_ofNat_of_lt' (n := 0xD800 + (c.toNat - 0x10000) / 0x400)
    (by rw [UInt16.size]; omega)
  have hy := UInt16.toNat_ofNat_of_lt' (n := 0xDC00 + (c.toNat - 0x10000) % 0x400)
    (by rw [UInt16.size]; omega)
  refine ⟨_, _, if_neg (by omega), ⟨?_, ?_⟩, ⟨?_, ?_⟩, hx, hy⟩
  all_goals omega

/-! ### The UTF-8 form of a scalar value -/

/-- A scalar value below `0x80` is one byte. -/
theorem utf8EncodeChar_one {c : Char} (hc : c.toNat < 0x80) :
    ∃ a : UInt8, String.utf8EncodeChar c = [a] ∧ a.toNat = c.toNat :=
  ⟨_, if_pos (Nat.le_of_lt_succ hc), UInt8.toNat_ofNat_of_lt' (Nat.lt_trans hc (by decide))⟩

/-- A scalar value below `0x800` is two bytes. -/
theorem utf8EncodeChar_two {c : Char} (h₁ : 0x80 ≤ c.toNat) (h₂ : c.toNat < 0x800) :
    ∃ a b : UInt8, String.utf8EncodeChar c = [a, b] ∧
      a.toNat = c.toNat / 64 + 0xC0 ∧ b.toNat = c.toNat % 64 + 0x80 := by
  have hv : c.val.toNat = c.toNat := rfl
  refine ⟨_, _, (if_neg (by omega)).trans (if_pos (by omega)), ?_, ?_⟩
  all_goals
    rw [UInt8.toNat_ofNat']
    omega

/-- A scalar value below `0x10000` is three bytes. -/
theorem utf8EncodeChar_three {c : Char} (h₁ : 0x800 ≤ c.toNat) (h₂ : c.toNat < 0x10000) :
    ∃ a b d : UInt8, String.utf8EncodeChar c = [a, b, d] ∧ a.toNat = c.toNat / 4096 + 0xE0 ∧
      b.toNat = c.toNat / 64 % 64 + 0x80 ∧ d.toNat = c.toNat % 64 + 0x80 := by
  have hv : c.val.toNat = c.toNat := rfl
  refine ⟨_, _, _,
    (if_neg (by omega)).trans ((if_neg (by omega)).trans (if_pos (by omega))), ?_, ?_, ?_⟩
  all_goals
    rw [UInt8.toNat_ofNat']
    omega

/-- Every other scalar value is four bytes. -/
theorem utf8EncodeChar_four {c : Char} (h : 0x10000 ≤ c.toNat) :
    ∃ a b d e : UInt8, String.utf8EncodeChar c = [a, b, d, e] ∧
      a.toNat = c.toNat / 262144 + 0xF0 ∧ b.toNat = c.toNat / 4096 % 64 + 0x80 ∧
      d.toNat = c.toNat / 64 % 64 + 0x80 ∧ e.toNat = c.toNat % 64 + 0x80 := by
  have hv : c.val.toNat = c.toNat := rfl
  have hlt := char_toNat_valid c
  refine ⟨_, _, _, _,
    (if_neg (by omega)).trans ((if_neg (by omega)).trans (if_neg (by omega))), ?_, ?_, ?_, ?_⟩
  all_goals
    rw [UInt8.toNat_ofNat']
    omega

/-! ### Well-paired sequences are the encodings of texts -/

/-- A well-paired sequence can be cut after a unit that is no high surrogate. -/
theorem WellPaired.of_append (xs : List UInt16) {ys : List UInt16} {a : UInt16}
    (h : WellPaired (xs ++ a :: ys)) (ha : ¬ IsHighSurrogate a) : WellPaired ys := by
  have hshift : ∀ i, (xs ++ a :: ys)[xs.length + 1 + i]? = ys[i]? := by
    intro i
    rw [List.getElem?_append_right (by omega), show xs.length + 1 + i - xs.length = i + 1 by omega,
      List.getElem?_cons_succ]
  constructor
  · intro i x hx hhigh
    obtain ⟨y, hy, hlow⟩ := h.followed (xs.length + 1 + i) x ((hshift i).trans hx) hhigh
    exact ⟨y, (hshift (i + 1)).symm.trans hy, hlow⟩
  · intro i y hy hlow
    obtain ⟨j, x, hj, hx, hhigh⟩ :=
      h.preceded (xs.length + 1 + i) y ((hshift i).trans hy) hlow
    cases i with
    | zero =>
      -- The unit before the cut would have to be a high surrogate.
      have hjx : j = xs.length := by omega
      rw [hjx, List.getElem?_append_right (Nat.le_refl _), Nat.sub_self,
        List.getElem?_cons_zero] at hx
      exact absurd (Option.some.inj hx ▸ hhigh) ha
    | succ i =>
      have hji : j = xs.length + 1 + i := by omega
      rw [hji, hshift] at hx
      exact ⟨i, x, rfl, hx, hhigh⟩

/-- Prefixing a unit that is no surrogate keeps a sequence well paired. -/
theorem WellPaired.cons {a : UInt16} {u : List UInt16} (h : WellPaired u)
    (hhigh : ¬ IsHighSurrogate a) (hlow : ¬ IsLowSurrogate a) : WellPaired (a :: u) := by
  constructor
  · intro i x hx hx'
    cases i with
    | zero => exact absurd (Option.some.inj hx ▸ hx') hhigh
    | succ i => exact h.followed i x hx hx'
  · intro i y hy hy'
    cases i with
    | zero => exact absurd (Option.some.inj hy ▸ hy') hlow
    | succ i =>
      obtain ⟨j, x, rfl, hx, hx'⟩ := h.preceded i y hy hy'
      exact ⟨j + 1, x, rfl, hx, hx'⟩

/-- Prefixing a surrogate pair keeps a sequence well paired. -/
theorem WellPaired.cons_cons {a b : UInt16} {u : List UInt16} (h : WellPaired u)
    (ha : IsHighSurrogate a) (hb : IsLowSurrogate b) : WellPaired (a :: b :: u) := by
  constructor
  · intro i x hx hx'
    match i with
    | 0 => exact ⟨b, rfl, hb⟩
    | 1 => exact absurd (Option.some.inj hx ▸ hx') (not_high_of_low hb)
    | i + 2 => exact h.followed i x hx hx'
  · intro i y hy hy'
    match i with
    | 0 => exact absurd ha (not_high_of_low (Option.some.inj hy ▸ hy'))
    | 1 => exact ⟨0, a, rfl, rfl, ha⟩
    | i + 2 =>
      obtain ⟨j, x, rfl, hx, hx'⟩ := h.preceded i y hy hy'
      exact ⟨j + 2, x, rfl, hx, hx'⟩

/-- **The encoding of a text is well paired.** -/
theorem wellPaired_utf16Encode (cs : List Char) : WellPaired (utf16Encode cs) := by
  induction cs with
  | nil => exact ⟨fun i x hx => by simp at hx, fun i y hy => by simp at hy⟩
  | cons c cs ih =>
    rw [utf16Encode_cons]
    rcases Nat.lt_or_ge c.toNat 0x10000 with hc | hc
    · obtain ⟨x, hx, -, hhigh, hlow⟩ := utf16EncodeChar_of_lt hc
      rw [hx]
      exact ih.cons hhigh hlow
    · obtain ⟨x, y, hxy, hhigh, hlow, -⟩ := utf16EncodeChar_of_ge hc
      rw [hxy]
      exact ih.cons_cons hhigh hlow

/-- A unit that is no surrogate is the encoding of a scalar value. -/
theorem exists_utf16EncodeChar_eq {x : UInt16} (hhigh : ¬ IsHighSurrogate x)
    (hlow : ¬ IsLowSurrogate x) : ∃ c : Char, utf16EncodeChar c = [x] := by
  have hx : x.toNat < 0x10000 := x.toNat_lt
  rw [IsHighSurrogate] at hhigh
  rw [IsLowSurrogate] at hlow
  obtain ⟨c, hc⟩ := exists_char (n := x.toNat) (by omega)
  exact ⟨c, by rw [utf16EncodeChar, hc, if_pos hx, UInt16.ofNat_toNat]⟩

/-- A surrogate pair is the encoding of a scalar value. -/
theorem exists_utf16EncodeChar_eq_pair {x y : UInt16} (hx : IsHighSurrogate x)
    (hy : IsLowSurrogate y) : ∃ c : Char, utf16EncodeChar c = [x, y] := by
  obtain ⟨hx₁, hx₂⟩ := hx
  obtain ⟨hy₁, hy₂⟩ := hy
  obtain ⟨c, hc⟩ :=
    exists_char (n := (x.toNat - 0xD800) * 0x400 + (y.toNat - 0xDC00) + 0x10000) (by omega)
  have hhi : 0xD800 + (c.toNat - 0x10000) / 0x400 = x.toNat := by omega
  have hlo : 0xDC00 + (c.toNat - 0x10000) % 0x400 = y.toNat := by omega
  refine ⟨c, ?_⟩
  rw [utf16EncodeChar, if_neg (by omega), hhi, hlo, UInt16.ofNat_toNat, UInt16.ofNat_toNat]

/-- **The well-paired sequences are exactly the encodings of texts.** -/
theorem wellPaired_iff (u : List UInt16) : WellPaired u ↔ ∃ cs, u = utf16Encode cs := by
  constructor
  · -- The induction is on the length, for one or two units are taken off at a time.
    intro h
    induction hn : u.length using Nat.strong_induction_on generalizing u with
    | _ n ih =>
      cases u with
      | nil => exact ⟨[], rfl⟩
      | cons x u =>
        have hlow : ¬ IsLowSurrogate x := by
          intro hx
          obtain ⟨j, -, hj, -⟩ := h.preceded 0 x rfl hx
          omega
        rw [List.length_cons] at hn
        by_cases hhigh : IsHighSurrogate x
        · obtain ⟨y, hy, hlow'⟩ := h.followed 0 x rfl hhigh
          cases u with
          | nil => simp at hy
          | cons z u =>
            obtain rfl : z = y := Option.some.inj hy
            have hu : WellPaired u := WellPaired.of_append [x] h (not_high_of_low hlow')
            rw [List.length_cons] at hn
            obtain ⟨cs, rfl⟩ := ih u.length (by omega) u hu rfl
            obtain ⟨c, hc⟩ := exists_utf16EncodeChar_eq_pair hhigh hlow'
            exact ⟨c :: cs, by rw [utf16Encode_cons, hc]; rfl⟩
        · have hu : WellPaired u := WellPaired.of_append [] h hhigh
          obtain ⟨cs, rfl⟩ := ih u.length (by omega) u hu rfl
          obtain ⟨c, hc⟩ := exists_utf16EncodeChar_eq hhigh hlow
          exact ⟨c :: cs, by rw [utf16Encode_cons, hc]; rfl⟩
  · rintro ⟨cs, rfl⟩
    exact wellPaired_utf16Encode cs

end Unicode

end Libuzi
