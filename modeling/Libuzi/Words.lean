import Mathlib.Data.List.Basic

/-!
# Words in a text

Two ways to look for a word, over any alphabet.

A line is what stands between two separators. The first line that begins with a word
(`Words.seek`) can be looked for by way of the first place at which the word occurs at all
(`Words.search`), and the next one after it, and so on: a word without separators that begins a
line does not overlap with one that does not (`Words.seek_of_search`, `Words.seek_append`).

The words of a list are what stands between two blanks. Passing over the blanks and then over a
word (`Words.mem_splitOnP_dropWhile`, `Words.mem_splitOnP_iff`) comes to each of them.
-/

namespace Words

variable {γ : Type*} [DecidableEq γ] {sep c : γ} {word s s' before line rest : List γ}
  {prev : Option γ}

/-! ### The first occurrence -/

/-- **The first occurrence** of a word: what comes before it, and the text from there on. -/
def search (word : List γ) : List γ → Option (List γ × List γ)
  | [] => if word = [] then some ([], []) else none
  | c :: cs =>
    if word <+: c :: cs then some ([], c :: cs)
    else (search word cs).map fun r => (c :: r.1, r.2)

/-- What comes after `prev` begins a line. -/
def AtStart (sep : γ) (prev : Option γ) : Prop := prev = none ∨ prev = some sep

instance (sep : γ) (prev : Option γ) : Decidable (AtStart sep prev) :=
  inferInstanceAs (Decidable (_ ∨ _))

/-- **The text from the first line on that begins with the word**, when `prev` is the character
before it. -/
def seek (sep : γ) (word : List γ) : Option γ → List γ → Option (List γ)
  | prev, [] => if AtStart sep prev ∧ word = [] then some [] else none
  | prev, c :: cs =>
    if AtStart sep prev ∧ word <+: c :: cs then some (c :: cs) else seek sep word (some c) cs

theorem seek_eq_none (h : search word s = none) : seek sep word prev s = none := by
  induction s generalizing prev with
  | nil =>
    rw [search, ite_eq_right_iff] at h
    rw [seek, if_neg fun hw => nomatch h hw.2]
  | cons c cs ih =>
    rw [search] at h
    split at h
    case isTrue => cases h
    case isFalse hnot =>
      rw [seek, if_neg fun hw => hnot hw.2]
      exact ih (Option.map_eq_none_iff.mp h)

/-- **Up to the first occurrence there is no line** that begins with the word. -/
theorem seek_of_search (h : search word s = some (before, s')) :
    s = before ++ s' ∧ word <+: s' ∧
      ∀ prev, seek sep word prev s = seek sep word (before.getLast?.or prev) s' := by
  induction s generalizing before with
  | nil =>
    rw [search] at h
    split at h
    case isTrue hw =>
      obtain ⟨rfl, rfl⟩ := Prod.mk.inj (Option.some.inj h)
      exact ⟨rfl, hw ▸ List.nil_prefix, fun _ => rfl⟩
    case isFalse => cases h
  | cons c cs ih =>
    rw [search] at h
    split at h
    case isTrue hw =>
      obtain ⟨rfl, rfl⟩ := Prod.mk.inj (Option.some.inj h)
      exact ⟨rfl, hw, fun _ => rfl⟩
    case isFalse hnot =>
      obtain ⟨⟨before', s''⟩, hr, heq⟩ := Option.map_eq_some_iff.mp h
      obtain ⟨rfl, rfl⟩ := Prod.mk.inj heq
      obtain ⟨rfl, hw, hseek⟩ := ih hr
      refine ⟨rfl, hw, fun prev => ?_⟩
      rw [seek, if_neg fun hw => hnot hw.2, hseek]
      cases before' with
      | nil => rfl
      | cons b bs => rw [List.getLast?_cons_cons, List.getLast?_cons, Option.or, Option.or]

/-! ### Lines -/

omit [DecidableEq γ] in
theorem not_atStart_some (hc : c ≠ sep) : ¬AtStart sep (some c) := by
  rintro (h | h)
  · cases h
  · exact hc (Option.some.inj h)

/-- In the middle of a line no line begins. -/
theorem seek_append (hprev : ¬AtStart sep prev) (hline : sep ∉ line) :
    seek sep word prev (line ++ rest) = seek sep word (line.getLast?.or prev) rest := by
  induction line generalizing prev with
  | nil => rfl
  | cons c cs ih =>
    have hc : c ≠ sep := fun h => hline (h ▸ List.mem_cons_self)
    rw [List.cons_append, seek, if_neg fun hw => hprev hw.1,
      ih (not_atStart_some hc) fun hmem => hline (List.mem_cons_of_mem c hmem)]
    cases cs with
    | nil => rfl
    | cons d ds => rw [List.getLast?_cons_cons, List.getLast?_cons, Option.or, Option.or]

omit [DecidableEq γ] in
theorem not_atStart_getLast (hprev : ¬AtStart sep prev) (hline : sep ∉ line) :
    ¬AtStart sep (line.getLast?.or prev) := by
  cases hlast : line.getLast? with
  | none => exact hprev
  | some c => exact not_atStart_some fun h => hline (h ▸ List.mem_of_getLast? hlast)

/-- **One line is passed over.** -/
theorem seek_line (hline : sep ∉ line) (hnot : ¬word <+: line ++ sep :: rest) :
    seek sep word prev (line ++ sep :: rest) = seek sep word (some sep) rest := by
  cases line with
  | nil => rw [List.nil_append, seek, if_neg fun hw => hnot hw.2]
  | cons c cs =>
    have hc : ¬AtStart sep (some c) := not_atStart_some fun h => hline (h ▸ List.mem_cons_self)
    have hcs : sep ∉ cs := fun hmem => hline (List.mem_cons_of_mem c hmem)
    rw [List.cons_append, seek, if_neg fun hw => hnot hw.2, seek_append hc hcs, seek,
      if_neg fun hw => not_atStart_getLast hc hcs hw.1]

/-- The word begins this line. -/
theorem seek_of_begins (hprev : AtStart sep prev) (hw : word <+: s) :
    seek sep word prev s = some s := by
  cases s with
  | nil => rw [seek, if_pos ⟨hprev, List.prefix_nil.mp hw⟩]
  | cons c cs => rw [seek, if_pos ⟨hprev, hw⟩]

/-! ### Words between blanks -/

variable {blank : γ → Bool}

omit [DecidableEq γ]

/-- Blanks at the beginning separate nothing. -/
theorem mem_splitOnP_dropWhile (hne : word ≠ []) :
    word ∈ (s.dropWhile blank).splitOnP blank ↔ word ∈ s.splitOnP blank := by
  induction s with
  | nil => rfl
  | cons c cs ih =>
    by_cases hc : blank c = true
    · rw [List.dropWhile_cons_of_pos hc, ih, List.splitOnP_cons_eq_if_modifyHead, if_pos hc,
        List.mem_cons, or_iff_right hne]
    · rw [List.dropWhile_cons_of_neg hc]

/-- **The first word and the others.** -/
theorem mem_splitOnP_iff (hne : word ≠ []) :
    word ∈ s.splitOnP blank ↔ s.takeWhile (!blank ·) = word ∨
      word ∈ (s.dropWhile (!blank ·)).splitOnP blank := by
  have hword : ∀ c ∈ s.takeWhile (!blank ·), blank c = false := fun c hc => by
    simpa using List.all_eq_true.mp List.all_takeWhile c hc
  conv_lhs => rw [← List.takeWhile_append_dropWhile (p := (!blank ·)) (l := s)]
  cases hrest : s.dropWhile (!blank ·) with
  | nil =>
    rw [List.append_nil, List.splitOnP_eq_singleton hword, List.mem_singleton, List.splitOnP_nil,
      List.mem_singleton, or_iff_left hne, eq_comm]
  | cons c cs =>
    have hc : blank c = true := by
      have hhead := List.head?_dropWhile_not (!blank ·) s
      rw [hrest] at hhead
      simpa using hhead
    rw [List.splitOnP_append_cons_of_forall_mem hword c hc,
      List.splitOnP_cons_eq_if_modifyHead, if_pos hc, List.mem_cons, List.mem_cons,
      or_iff_right (a := word = []) hne, eq_comm]

end Words
