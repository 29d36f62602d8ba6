import Mathlib.Logic.Function.Basic
import Mathlib.Data.List.Basic
import Mathlib.Tactic.Common

/-!
# A tree of directories

A place of the tree is the list of the names on the way to it, the last one in front, so that
the root is the empty list. What stands at each place is an `Directories.Entry`, and whatever is
there stands in a directory (`Directories.Tree`).

A walk from a directory is a list of moves: to stay, to go up, or to go down to a name.
`Directories.mkdir` walks all of its moves but the last one, each to a directory, and makes a
directory where the last one goes, if nothing is there. `Directories.mkdirs` does so for longer and
longer walks, one move or none at a time.

What they come to is said by `Directories.mkdir_spec` and `Directories.mkdirs_spec`: the places
reached are directories afterwards, all others are as they were, and the last directory has been
made exactly when its place was free and had not been reached before.
-/

namespace Directories

/-- What stands at a place: nothing, a directory with its mode, or something else. -/
inductive Entry (μ : Type*) where
  | free
  | directory (mode : μ)
  | other
  deriving DecidableEq

/-- It is a directory. -/
def Entry.isDirectory {μ : Type*} : Entry μ → Bool
  | .directory _ => true
  | _ => false

/-- **A tree of directories**: the root is one, and so is the place above anything. -/
structure Tree (ν μ : Type*) where
  entry : List ν → Entry μ
  root : (entry []).isDirectory = true
  closed : ∀ n d, entry (n :: d) ≠ .free → (entry d).isDirectory = true

/-- A move from a directory. -/
inductive Move (ν : Type*) where
  | stay
  | up
  | down (n : ν)

variable {ν μ : Type*}

/-- Where a move goes. The place above the root is the root. -/
def go (d : List ν) : Move ν → List ν
  | .stay => d
  | .up => d.tail
  | .down n => n :: d

/-- Where a walk goes. -/
def walk (d : List ν) (ms : List (Move ν)) : List ν := ms.foldl go d

/-- **Every place on the way is a directory.** -/
def Walks (t : Tree ν μ) : List ν → List (Move ν) → Prop
  | d, [] => (t.entry d).isDirectory = true
  | d, m :: ms => (t.entry d).isDirectory = true ∧ Walks t (go d m) ms

/-- One more directory, in one that is there. -/
def Tree.create [DecidableEq ν] (t : Tree ν μ) (mode : μ) (n : ν) (d : List ν)
    (hd : (t.entry d).isDirectory = true) : Tree ν μ where
  entry := Function.update t.entry (n :: d) (.directory mode)
  root := by
    rw [Function.update_of_ne (List.cons_ne_nil n d).symm]
    exact t.root
  closed := by
    intro m e hfree
    by_cases he : e = n :: d
    · rw [he, Function.update_self]
      rfl
    · rw [Function.update_of_ne he]
      by_cases hme : m :: e = n :: d
      · rw [(List.cons.inj hme).2]
        exact hd
      · rw [Function.update_of_ne hme] at hfree
        exact t.closed m e hfree

/-- A directory is made where a move goes, if nothing is there: the tree afterwards, and whether it
has been made. -/
def make [DecidableEq ν] (mode : μ) (t : Tree ν μ) (d : List ν) : Move ν → Tree ν μ × Bool
  | .down n =>
    match t.entry (n :: d) with
    | .free =>
      if hd : (t.entry d).isDirectory = true then (t.create mode n d hd, true) else (t, false)
    | _ => (t, false)
  | _ => (t, false)

/-- **`mkdir`**, from the directory `d`. -/
def mkdir [DecidableEq ν] (mode : μ) (t : Tree ν μ) : List ν → List (Move ν) → Tree ν μ × Bool
  | _, [] => (t, false)
  | d, [m] => make mode t d m
  | d, m :: m' :: ms =>
    if (t.entry (go d m)).isDirectory then mkdir mode t (go d m) (m' :: ms) else (t, false)

/-- **`mkdir` for longer and longer walks**: of each of `steps` the walk `ms` gets one move more, or
stays the same. -/
def mkdirs [DecidableEq ν] (mode : μ) (d : List ν) :
    List (Move ν) → List (Option (Move ν)) → Tree ν μ × Bool → Tree ν μ × Bool
  | _, [], r => r
  | ms, s :: steps, r => mkdirs mode d (ms ++ s.toList) steps (mkdir mode r.1 d (ms ++ s.toList))

/-- The places reached step by step. -/
def reached (d : List ν) : List (Option (Move ν)) → List (List ν)
  | [] => []
  | s :: steps => walk d s.toList :: reached (walk d s.toList) steps

variable {t t' : Tree ν μ} {d e : List ν} {m : Move ν} {ms ms' : List (Move ν)}

@[simp] theorem walk_nil (d : List ν) : walk d [] = d := rfl

@[simp] theorem walk_cons (d : List ν) (m : Move ν) (ms : List (Move ν)) :
    walk d (m :: ms) = walk (go d m) ms := rfl

theorem walk_append (d : List ν) (ms ms' : List (Move ν)) :
    walk d (ms ++ ms') = walk (walk d ms) ms' := List.foldl_append

theorem Walks.first (h : Walks t d ms) : (t.entry d).isDirectory = true := by
  cases ms with
  | nil => exact h
  | cons m ms => exact h.1

/-- A walk in two parts. -/
theorem walks_append : Walks t d (ms ++ ms') ↔ Walks t d ms ∧ Walks t (walk d ms) ms' := by
  induction ms generalizing d with
  | nil =>
    rw [List.nil_append, walk_nil]
    exact ⟨fun h => ⟨h.first, h⟩, fun h => h.2⟩
  | cons m ms ih => rw [List.cons_append, Walks, Walks, ih, walk_cons, and_assoc]

/-- A walk comes to a directory. -/
theorem Walks.last (h : Walks t d ms) : (t.entry (walk d ms)).isDirectory = true := by
  have hend := walks_append.mp ((List.append_nil ms).symm ▸ h)
  exact hend.2

/-- **Directories that stay directories can still be walked.** -/
theorem Walks.mono (h : Walks t d ms)
    (hkeep : ∀ p, (t.entry p).isDirectory = true → (t'.entry p).isDirectory = true) :
    Walks t' d ms := by
  induction ms generalizing d with
  | nil => exact hkeep d h
  | cons m ms ih => exact ⟨hkeep d h.1, ih h.2⟩

theorem not_free_of_isDirectory {x : Entry μ} (h : x.isDirectory = true) : x ≠ .free := by
  rintro rfl
  cases h

/-- The place above a directory is one. -/
theorem isDirectory_tail (h : (t.entry d).isDirectory = true) :
    (t.entry d.tail).isDirectory = true := by
  cases d with
  | nil => exact t.root
  | cons n d => exact t.closed n d (not_free_of_isDirectory h)

theorem reached_append (d : List ν) (steps steps' : List (Option (Move ν))) :
    reached d (steps ++ steps') =
      reached d steps ++ reached (walk d (steps.flatMap Option.toList)) steps' := by
  induction steps generalizing d with
  | nil => rfl
  | cons s steps ih =>
    rw [List.cons_append, reached, reached, ih, List.flatMap_cons, walk_append, List.cons_append]

/-- A place reached is where the steps up to some place go. -/
theorem mem_reached_iff {p : List ν} {steps : List (Option (Move ν))} : p ∈ reached d steps ↔
    ∃ pre s post, steps = pre ++ s :: post ∧ p = walk d ((pre ++ [s]).flatMap Option.toList) := by
  induction steps generalizing d with
  | nil =>
    refine ⟨fun h => absurd h List.not_mem_nil, fun ⟨pre, s, post, hsteps, _⟩ => ?_⟩
    exact absurd hsteps.symm (List.append_ne_nil_of_right_ne_nil _ (List.cons_ne_nil _ _))
  | cons s steps ih =>
    rw [reached, List.mem_cons, ih]
    constructor
    · rintro (rfl | ⟨pre, s', post, rfl, rfl⟩)
      · exact ⟨[], s, steps, rfl, by rw [List.nil_append, List.flatMap_singleton]⟩
      · refine ⟨s :: pre, s', post, rfl, ?_⟩
        rw [List.cons_append, List.flatMap_cons, walk_append]
    · rintro ⟨pre, s', post, hsteps, rfl⟩
      cases pre with
      | nil =>
        obtain ⟨rfl, -⟩ := List.cons.inj hsteps
        exact .inl (by rw [List.nil_append, List.flatMap_singleton])
      | cons s'' pre =>
        obtain ⟨rfl, rfl⟩ := List.cons.inj hsteps
        exact .inr ⟨pre, s', post, rfl, by
          rw [List.cons_append, List.flatMap_cons, walk_append]⟩

/-- **What a `mkdir` has done**: the place `p` is a directory, all others are as they were, and it
has been made exactly when nothing was there. -/
structure Made (t : Tree ν μ) (p : List ν) (r : Tree ν μ × Bool) : Prop where
  directory : (r.1.entry p).isDirectory = true
  others : ∀ p', p' ≠ p → r.1.entry p' = t.entry p'
  made : r.2 = true ↔ t.entry p = .free

/-- Nothing is made where a directory is. -/
theorem Made.of_isDirectory (h : (t.entry d).isDirectory = true) : Made t d (t, false) where
  directory := h
  others := fun _ _ => rfl
  made := ⟨fun hmade => (by cases hmade), fun hfree => absurd hfree (not_free_of_isDirectory h)⟩

/-- Directories stay directories. -/
theorem Made.keep {r : Tree ν μ × Bool} (h : Made t d r) (p : List ν)
    (hp : (t.entry p).isDirectory = true) : (r.1.entry p).isDirectory = true := by
  by_cases hpd : p = d
  · rw [hpd]
    exact h.directory
  · rw [h.others p hpd]
    exact hp

section Mkdir

variable [DecidableEq ν] (mode : μ) {r : Tree ν μ × Bool} {s : Option (Move ν)}
  {steps : List (Option (Move ν))}

/-- A directory that has been created. -/
theorem made_create {n : ν} (hd : (t.entry d).isDirectory = true)
    (hfree : t.entry (n :: d) = .free) : Made t (n :: d) (t.create mode n d hd, true) where
  directory := by
    simp only [Tree.create, Function.update_self]
    rfl
  others := fun p' hp' => by simp only [Tree.create, Function.update_of_ne hp']
  made := ⟨fun _ => hfree, fun _ => rfl⟩

/-- **The last move**, from a directory. -/
theorem make_spec (hd : (t.entry d).isDirectory = true) (hother : t.entry (go d m) ≠ .other) :
    Made t (go d m) (make mode t d m) := by
  cases m with
  | stay => exact .of_isDirectory hd
  | up => exact .of_isDirectory (isDirectory_tail hd)
  | down n =>
    rw [go] at hother ⊢
    rw [make]
    cases hentry : t.entry (n :: d) with
    | other => exact absurd hentry hother
    | directory mode' => exact .of_isDirectory (by rw [hentry]; rfl)
    | free =>
      simp only [hd, dif_pos]
      exact made_create mode hd hentry

/-- **What `mkdir` does**, if all moves go to directories, but for one that may come last. -/
theorem mkdir_spec (h : Walks t d ms) (hother : t.entry (walk d (ms ++ s.toList)) ≠ .other) :
    Made t (walk d (ms ++ s.toList)) (mkdir mode t d (ms ++ s.toList)) := by
  induction ms generalizing d with
  | nil =>
    cases s with
    | none => exact .of_isDirectory h
    | some m => exact make_spec mode h hother
  | cons m ms ih =>
    have hrest := ih h.2 hother
    rw [List.cons_append, walk_cons] at hother ⊢
    cases hms : ms ++ s.toList with
    | nil =>
      rw [hms] at hother
      exact make_spec mode h.1 hother
    | cons m' rest =>
      rw [mkdir, if_pos h.2.first]
      exact hms ▸ hrest

/-! ### One walk after the other -/

theorem mkdirs_append (d : List ν) (ms : List (Move ν))
    (steps steps' : List (Option (Move ν))) (r : Tree ν μ × Bool) :
    mkdirs mode d ms (steps ++ steps') r =
      mkdirs mode d (ms ++ steps.flatMap Option.toList) steps' (mkdirs mode d ms steps r) := by
  induction steps generalizing ms r with
  | nil => rw [List.nil_append, List.flatMap_nil, List.append_nil, mkdirs]
  | cons s steps ih =>
    rw [List.cons_append, mkdirs, mkdirs, ih, List.flatMap_cons, List.append_assoc]

/-- **The trees that come out**: the places `ps` are directories, all others are as they were. -/
structure MadeAll (t : Tree ν μ) (ps : List (List ν)) (t' : Tree ν μ) : Prop where
  directories : ∀ p ∈ ps, (t'.entry p).isDirectory = true
  others : ∀ p ∉ ps, t'.entry p = t.entry p

/-- **What `mkdirs` does**, from a walk whose places are all directories. -/
theorem mkdirs_spec (h : Walks r.1 d ms)
    (hother : ∀ p ∈ reached (walk d ms) steps, r.1.entry p ≠ .other) :
    MadeAll r.1 (reached (walk d ms) steps) (mkdirs mode d ms steps r).1 ∧
      Walks (mkdirs mode d ms steps r).1 d (ms ++ steps.flatMap Option.toList) := by
  induction steps generalizing ms r with
  | nil =>
    rw [List.flatMap_nil, List.append_nil]
    exact ⟨⟨fun p hp => absurd hp List.not_mem_nil, fun p _ => rfl⟩, h⟩
  | cons s steps ih =>
    rw [reached, ← walk_append] at hother ⊢
    have hmade : Made r.1 _ (mkdir mode r.1 d (ms ++ s.toList)) :=
      mkdir_spec mode h (hother _ List.mem_cons_self)
    -- The longer walk goes to directories only, the last of which `mkdir` has seen to.
    have hwalks : Walks (mkdir mode r.1 d (ms ++ s.toList)).1 d (ms ++ s.toList) := by
      refine walks_append.mpr ⟨h.mono hmade.keep, ?_⟩
      cases s with
      | none => exact hmade.keep _ h.last
      | some m =>
        refine ⟨hmade.keep _ h.last, ?_⟩
        have hlast := hmade.directory
        rwa [walk_append] at hlast
    obtain ⟨hall, hend⟩ := ih hwalks fun p hp => by
      by_cases hlast : p = walk d (ms ++ s.toList)
      · intro hpother
        have hdir := hmade.directory
        rw [← hlast, hpother] at hdir
        cases hdir
      · rw [hmade.others p hlast]
        exact hother p (List.mem_cons_of_mem _ hp)
    rw [mkdirs, List.flatMap_cons, ← List.append_assoc]
    refine ⟨⟨List.forall_mem_cons.mpr ⟨?_, hall.directories⟩, fun p hp => ?_⟩, hend⟩
    · have hprefix := (walks_append.mp hend).1.last
      exact hprefix
    · rw [List.mem_cons, not_or] at hp
      rw [hall.others p hp.2, hmade.others p hp.1]

/-- **The last of them makes a directory** exactly when its place was free and has not been
reached before. -/
theorem mkdirs_made_iff (h : Walks r.1 d ms)
    (hother : ∀ p ∈ reached (walk d ms) (steps ++ [s]), r.1.entry p ≠ .other) :
    (mkdirs mode d ms (steps ++ [s]) r).2 = true ↔
      r.1.entry (walk d (ms ++ (steps ++ [s]).flatMap Option.toList)) = .free ∧
        walk d (ms ++ (steps ++ [s]).flatMap Option.toList) ∉ reached (walk d ms) steps := by
  have hsteps : ms ++ (steps ++ [s]).flatMap Option.toList =
      ms ++ steps.flatMap Option.toList ++ s.toList := by
    rw [List.flatMap_append, List.flatMap_singleton, List.append_assoc]
  rw [reached_append, ← walk_append, reached, ← walk_append, reached] at hother
  obtain ⟨hall, hend⟩ := mkdirs_spec mode h fun p hp =>
    hother p (List.mem_append_left _ hp)
  have hlast := hother _ (List.mem_append_right _ List.mem_cons_self)
  rw [mkdirs_append, mkdirs, mkdirs, hsteps]
  by_cases hreached : walk d (ms ++ steps.flatMap Option.toList ++ s.toList) ∈
      reached (walk d ms) steps
  · have hdir := hall.directories _ hreached
    have hmade := mkdir_spec mode hend (s := s) fun hpother => by
      rw [hpother] at hdir
      cases hdir
    rw [hmade.made]
    exact ⟨fun hfree => absurd hfree (not_free_of_isDirectory hdir),
      fun hfree => absurd hreached hfree.2⟩
  · have hkept := hall.others _ hreached
    have hmade := mkdir_spec mode hend (s := s) (hkept ▸ hlast)
    rw [hmade.made, hkept]
    exact ⟨fun hfree => ⟨hfree, hreached⟩, fun hfree => hfree.1⟩

end Mkdir

end Directories
