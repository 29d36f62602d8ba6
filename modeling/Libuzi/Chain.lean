import Mathlib.Data.List.Nodup

/-!
# Singly linked lists in a memory

A memory is seen through its links: `link a` is the pointer stored in the node at
`a`, and `none` says that there is no node at `a`. A pointer is an `Option`, `none`
being the null pointer, so the field of the last node of a list is `some none`.

`Chain.Path link p xs q` says that following the links from the pointer `p` visits
exactly the nodes `xs`, in that order, and arrives at the pointer `q`. A
null-terminated list is a path to `none`. Paths compose (`Chain.path_append`),
depend only on the links of the nodes they visit (`Chain.Path.congr`), and a
null-terminated one is determined by where it starts (`Chain.Path.unique`), whence
it visits no node twice (`Chain.Path.nodup`). Writing one link or two puts a node in
(`Chain.Path.splice`) or takes one out (`Chain.Path.unlink`).

Nothing is asked of the node that a path arrives at, so `Chain.Reachable` also
speaks of dangling pointers.
-/

namespace Chain

variable {α : Type*}

/-- **Following the links from `p` visits `xs` and arrives at `q`.** -/
def Path (link : α → Option (Option α)) : Option α → List α → Option α → Prop
  | p, [], q => p = q
  | p, a :: xs, q => p = some a ∧ ∃ r, link a = some r ∧ Path link r xs q

/-- Following the links from `p` one arrives at a pointer to `a`. -/
def Reachable (link : α → Option (Option α)) (p : Option α) (a : α) : Prop :=
  ∃ xs, Path link p xs (some a)

variable {link link' : α → Option (Option α)} {p q r : Option α} {a : α} {xs ys : List α}

@[simp] theorem path_nil : Path link p [] q ↔ p = q := Iff.rfl

@[simp] theorem path_cons :
    Path link p (a :: xs) q ↔ p = some a ∧ ∃ r, link a = some r ∧ Path link r xs q := Iff.rfl

/-- The nodes being given, whether they make a path is a matter of following it. -/
instance decidablePath [DecidableEq α] (link : α → Option (Option α)) :
    (p : Option α) → (xs : List α) → (q : Option α) → Decidable (Path link p xs q)
  | p, [], q => inferInstanceAs (Decidable (p = q))
  | p, a :: xs, q =>
    match hlink : link a with
    | none => isFalse fun h => by
        obtain ⟨-, r, hr, -⟩ := h
        cases hlink.symm.trans hr
    | some r =>
      have := decidablePath link r xs q
      decidable_of_iff (p = some a ∧ Path link r xs q) <| and_congr_right fun _ =>
        ⟨fun h => ⟨r, hlink, h⟩, fun ⟨r', hr', h⟩ =>
          Option.some.inj (hr'.symm.trans hlink) ▸ h⟩

/-- **Paths compose.** -/
theorem path_append : Path link p (xs ++ ys) q ↔ ∃ r, Path link p xs r ∧ Path link r ys q := by
  induction xs generalizing p with
  | nil =>
    constructor
    · intro h
      exact ⟨p, rfl, h⟩
    · rintro ⟨r, rfl, h⟩
      exact h
  | cons a xs ih =>
    constructor
    · rintro ⟨rfl, s, hs, h⟩
      obtain ⟨r, h₁, h₂⟩ := ih.mp h
      exact ⟨r, ⟨rfl, s, hs, h₁⟩, h₂⟩
    · rintro ⟨r, ⟨rfl, s, hs, h₁⟩, h₂⟩
      exact ⟨rfl, s, hs, ih.mpr ⟨r, h₁, h₂⟩⟩

/-- A path that goes through `a` can be cut there. -/
theorem path_append_cons : Path link p (xs ++ a :: ys) q ↔
    Path link p xs (some a) ∧ ∃ r, link a = some r ∧ Path link r ys q := by
  rw [path_append]
  constructor
  · rintro ⟨s, h₁, rfl, h₂⟩
    exact ⟨h₁, h₂⟩
  · rintro ⟨h₁, h₂⟩
    exact ⟨some a, h₁, rfl, h₂⟩

/-- **A path depends only on the links of the nodes it visits.** -/
theorem Path.congr (h : Path link p xs q) (hl : ∀ a ∈ xs, link' a = link a) :
    Path link' p xs q := by
  induction xs generalizing p with
  | nil => exact h
  | cons a xs ih =>
    obtain ⟨rfl, r, hr, h⟩ := h
    refine ⟨rfl, r, (hl a List.mem_cons_self).trans hr, ih h fun b hb => ?_⟩
    exact hl b (List.mem_cons_of_mem a hb)

/-- The nodes a path visits are there. -/
theorem Path.link_eq_some (h : Path link p xs q) (ha : a ∈ xs) : ∃ r, link a = some r := by
  obtain ⟨ys, zs, rfl⟩ := List.append_of_mem ha
  obtain ⟨-, r, hr, -⟩ := path_append_cons.mp h
  exact ⟨r, hr⟩

/-- A path that starts at a pointer to `a` and goes on to the null pointer visits `a`
first. -/
theorem Path.eq_cons (h : Path link (some a) xs none) : ∃ ys, xs = a :: ys := by
  cases xs with
  | nil => cases h
  | cons b ys =>
    obtain ⟨hb, -⟩ := h
    obtain rfl := Option.some.inj hb
    exact ⟨ys, rfl⟩

/-- **A null-terminated list is determined by where it starts.** -/
theorem Path.unique (h : Path link p xs none) (h' : Path link p ys none) : xs = ys := by
  induction xs generalizing p ys with
  | nil =>
    obtain rfl : p = none := h
    cases ys with
    | nil => rfl
    | cons b ys => cases h'.1
  | cons a xs ih =>
    obtain ⟨rfl, r, hr, h⟩ := h
    obtain ⟨ys, rfl⟩ := h'.eq_cons
    obtain ⟨-, r', hr', h'⟩ := h'
    obtain rfl : r = r' := Option.some.inj (hr.symm.trans hr')
    rw [ih h h']

/-- **A null-terminated list visits no node twice**: between two visits the list would
be longer than itself. -/
theorem Path.nodup (h : Path link p xs none) : xs.Nodup := by
  induction xs generalizing p with
  | nil => exact List.nodup_nil
  | cons a xs ih =>
    have hfull := h
    obtain ⟨rfl, r, hr, h⟩ := h
    refine List.nodup_cons.mpr ⟨fun ha => ?_, ih h⟩
    obtain ⟨ys, zs, rfl⟩ := List.append_of_mem ha
    obtain ⟨-, htail⟩ := path_append_cons.mp h
    have heq : a :: (ys ++ a :: zs) = a :: zs := hfull.unique ⟨rfl, htail⟩
    have hlen := congrArg List.length heq
    simp only [List.length_cons, List.length_append] at hlen
    omega

/-- Nothing is reachable from the null pointer. -/
theorem not_reachable_none : ¬Reachable link none a := by
  rintro ⟨xs, hxs⟩
  cases xs with
  | nil => cases hxs
  | cons b xs => cases hxs.1

/-- What is reachable along a null-terminated list is what is on it. -/
theorem Path.reachable_iff (h : Path link p xs none) : Reachable link p a ↔ a ∈ xs := by
  constructor
  · rintro ⟨ys, hys⟩
    induction ys generalizing p xs with
    | nil =>
      obtain rfl : p = some a := hys
      obtain ⟨zs, rfl⟩ := h.eq_cons
      exact List.mem_cons_self
    | cons b ys ih =>
      obtain ⟨rfl, r, hr, hys⟩ := hys
      obtain ⟨zs, rfl⟩ := h.eq_cons
      obtain ⟨-, r', hr', h⟩ := h
      obtain rfl : r = r' := Option.some.inj (hr.symm.trans hr')
      exact List.mem_cons_of_mem b (ih h hys)
  · intro ha
    obtain ⟨ys, zs, rfl⟩ := List.append_of_mem ha
    exact ⟨ys, (path_append_cons.mp h).1⟩

/-! ### Putting a node in, and taking one out -/

section Edit

variable {b : α}

/-- A node is on a null-terminated list in one place. -/
theorem Path.notMem (h : Path link p (xs ++ a :: ys) none) : a ∉ xs ∧ a ∉ ys := by
  have hmem : a ∉ xs ++ ys := (List.nodup_cons.mp (List.nodup_middle.mp h.nodup)).1
  rwa [List.mem_append, not_or] at hmem

/-- The second of two neighbours does not come before. -/
theorem Path.notMem_before (h : Path link p (xs ++ a :: b :: ys) none) :
    b ∉ xs ++ [a] ∧ b ∉ ys := by
  rw [List.append_cons] at h
  exact h.notMem

/-- A path that avoids two nodes does not notice what is linked to them. -/
theorem Path.avoid (h : Path link p xs q) (ha : a ∉ xs) (hb : b ∉ xs)
    (hrest : ∀ c, c ≠ a → c ≠ b → link' c = link c) : Path link' p xs q := by
  refine h.congr fun c hc => hrest c ?_ ?_
  · rintro rfl
    exact ha hc
  · rintro rfl
    exact hb hc

/-- **Putting a node in**: with `a` linked to `b` and `b` to the rest, `b` comes after `a`. -/
theorem Path.splice (hpre : Path link p xs (some a)) (hpost : Path link r ys none)
    (hxs : a ∉ xs ∧ b ∉ xs) (hys : a ∉ ys ∧ b ∉ ys) (ha : link' a = some (some b))
    (hb : link' b = some r) (hrest : ∀ c, c ≠ a → c ≠ b → link' c = link c) :
    Path link' p (xs ++ a :: b :: ys) none := by
  refine path_append_cons.mpr ⟨hpre.avoid hxs.1 hxs.2 hrest, some b, ha, rfl, r, hb, ?_⟩
  exact hpost.avoid hys.1 hys.2 hrest

/-- **Taking a node out**: with `a` linked to what `b` was linked to, `b` is skipped. -/
theorem Path.unlink (h : Path link p (xs ++ a :: b :: ys) none) (hb : link b = some r)
    (ha : link' a = some r) (hrest : ∀ c, c ≠ a → c ≠ b → link' c = link c) :
    Path link' p (xs ++ a :: ys) none := by
  obtain ⟨hax, haby⟩ := h.notMem
  obtain ⟨hbxa, hby⟩ := h.notMem_before
  obtain ⟨hpre, -, -, -, r', hr', hpost⟩ := path_append_cons.mp h
  obtain rfl : r' = r := Option.some.inj (hr'.symm.trans hb)
  refine path_append_cons.mpr ⟨hpre.avoid hax ?_ hrest, r', ha, hpost.avoid ?_ hby hrest⟩
  · exact fun hbx => hbxa (List.mem_append_left [a] hbx)
  · exact fun hay => haby (List.mem_cons_of_mem b hay)

end Edit

end Chain
