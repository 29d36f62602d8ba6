import Libuzi.Components
import Libuzi.Directories
import Libuzi.Loop
import Libuzi.File.Path

/-!
# Making a path

`UziMkPath` and `UziMkDir` of `libuzi/file.c`, where the separator is a slash. `UziMkPath` goes
through the separators of the caller's path. It puts a zero in the place of each, calls
`UziMkDir` for the string up to there, and puts the separator back; then it calls `UziMkDir` for
the whole path. All calls but the last one may fail, and the result is that of the last one.

For a path `l/ib//c/` the calls are

| what `mkdir` is called for | what it makes |
|---|---|
| `l` | `l`, if it is not there |
| `l/ib` | `l/ib`, if it is not there |
| `l/ib/` | nothing |
| `l/ib//c` | `l/ib/c`, if it is not there |
| `l/ib//c/` | nothing |

So the directories are all there in the end, and the result is 0 exactly when the last call is
the one that makes a directory (`MkPath.makesPath_iff`). `mkdir` itself is
`Directories.mkdir`: a path is walked from the root or from the working directory, component by
component. The tree knows no permissions and no `NAME_MAX`: a mode without the bits to write to a
directory and to search it, and names that are too long, are outside the model.
-/

namespace Libuzi

open Components Directories Libuzi.Path

namespace MkPath

/-- A tree of directories; names are strings. -/
abbrev Dirs : Type := Directories.Tree Str ℤ

/-! ### Paths as walks -/

/-- The move that a component of a path stands for: none, if it is empty. -/
def step (c : Str) : Option (Move Str) :=
  if c = [] then none
  else if c = [dotChr] then some .stay
  else if c = [dotChr, dotChr] then some .up
  else some (.down c)

/-- What stands between the slashes. -/
def components (path : Str) : List Str := (split slash path).1 ++ [(split slash path).2]

/-- The walk along components. -/
def walkOf (cs : List Str) : List (Move Str) := (cs.map step).flatMap Option.toList

/-- The walk of a path. -/
def moves (path : Str) : List (Move Str) := walkOf (components path)

/-- Where it begins. -/
def start (cwd : List Str) (path : Str) : List Str :=
  if path.head? = some slash then [] else cwd

/-- The place that a path names. -/
def target (cwd : List Str) (path : Str) : List Str := walk (start cwd path) (moves path)

/-- **A path names a directory**, and leads to it through directories. -/
def IsDirectory (t : Dirs) (cwd : List Str) (path : Str) : Prop :=
  Walks t (start cwd path) (moves path)

/-! ### The functions -/

/-- What `mkdir` returns. -/
def statusOf (made : Bool) : ℤ := if made then 0 else -1

/-- **`mkdir`** of a path, with the working directory `cwd`. -/
def mkdir (cwd : List Str) (t : Dirs) (path : Str) (mode : ℤ) : Dirs × ℤ :=
  let (t', made) := Directories.mkdir mode t (start cwd path) (moves path)
  (t', statusOf made)

/-- `S_IRUSR | S_IWUSR | S_IXUSR`. -/
def userMode : ℤ := 0x1C0

/-- The mode that `UziMkDir` asks for. -/
def modeOf (mode : ℤ) : ℤ := if mode = 0 then userMode else mode

/-- **`UziMkDir`**. -/
def uziMkDir (cwd : List Str) (t : Dirs) (path : Str) (mode : ℤ) : Dirs × ℤ :=
  mkdir cwd t path (modeOf mode)

/-- The string at the beginning of a buffer. -/
def string (buffer : Str) : Str := buffer.takeWhile (· != 0)

/-- `strchr` from the position `p` on, for a character other than the terminating zero. -/
def strchr (buffer : Str) (p : ℕ) (c : UInt8) : Option ℕ :=
  ((string (buffer.drop p)).findIdx? (· == c)).map (p + ·)

/-- The variables of `UziMkPath`, with the caller's buffer `path` and the directories. -/
structure MkPathState where
  path : Str
  tree : Dirs
  p : Option ℕ
  q : Option ℕ
  status : ℤ

/-- `p || q`. -/
def mkPathGuard (s : MkPathState) : Bool := s.p.isSome || s.q.isSome

/-- The body of the loop of `UziMkPath`. -/
def mkPathBody (cwd : List Str) (mode : ℤ) (s : MkPathState) : Loop.Flow MkPathState Unit :=
  match s.q with
  | some q =>
    let tmp := s.path.getD q 0
    let cut := s.path.set q 0
    let (tree, status) := uziMkDir cwd s.tree (string cut) mode
    let path := cut.set q tmp
    .next ⟨path, tree, some (q + 1), strchr path (q + 1) slash, status⟩
  | none =>
    let (tree, status) := uziMkDir cwd s.tree (string s.path) mode
    .stop { s with tree := tree, status := status } ()

/-- The state before a round, with `p` at the position `k`. -/
def stateAt (path : Str) (tree : Dirs) (k : ℕ) (status : ℤ) : MkPathState :=
  ⟨path, tree, some k, strchr path k slash, status⟩

/-- The state before the loop. -/
def mkPathStart (t : Dirs) (path : Str) : MkPathState := stateAt (path ++ [0]) t 0 0

/-- How much is left to do. -/
def mkPathVariant (s : MkPathState) : ℕ :=
  match s.q with
  | some q => s.path.length - q + 2
  | none => 1

/-- **`UziMkPath`**: the state in which it returns `status`. -/
def uziMkPath (cwd : List Str) (t : Dirs) (path : Str) (mode : ℤ) : MkPathState :=
  (Loop.whileLoop mkPathGuard (mkPathBody cwd mode) () mkPathVariant (mkPathStart t path)).1

/-! ### What it is to do -/

/-- **Each component of the path is a directory or can be made one.** -/
structure Buildable (cwd : List Str) (t : Dirs) (path : Str) : Prop where
  origin : (t.entry (start cwd path)).isDirectory = true
  front : ∀ s, s ≠ [] → EndsBefore slash path s → t.entry (target cwd s) ≠ .other
  whole : t.entry (target cwd path) ≠ .other

/-- **The path is made**: `UziMkPath` comes to an end, and then everything on the path is a
directory, the path has been left as it was, and the result is 0. -/
structure MakesPath (cwd : List Str) (t : Dirs) (path : Str) (mode : ℤ) : Prop where
  exits : Loop.Exits mkPathGuard (mkPathBody cwd mode) () (mkPathStart t path)
    (uziMkPath cwd t path mode, ())
  front : ∀ s, s ≠ [] → EndsBefore slash path s →
    IsDirectory (uziMkPath cwd t path mode).tree cwd s
  whole : IsDirectory (uziMkPath cwd t path mode).tree cwd path
  bytes : (uziMkPath cwd t path mode).path = path ++ [0]
  status : (uziMkPath cwd t path mode).status = 0

/-- **The path is new**: nothing is there, and no beginning of it names the same place. -/
def New (cwd : List Str) (t : Dirs) (path : Str) : Prop :=
  t.entry (target cwd path) = .free ∧
    ∀ s, s ≠ [] → EndsBefore slash path s → target cwd s ≠ target cwd path

/-! ### The strings of a path -/

section Strings

variable {path u w : Str} {k q : ℕ} {cwd : List Str} {front : List Str} {last : Str}

theorem string_append (hu : 0 ∉ u) (w : Str) : string (u ++ w) = u ++ string w := by
  have hne : ∀ x ∈ u, (x != 0) = true := by
    intro x hx
    rw [bne_iff_ne]
    rintro rfl
    exact hu hx
  rw [string, List.takeWhile_append_of_pos hne, string]

/-- A string in a buffer ends before the first zero. -/
theorem string_eq (hu : 0 ∉ u) (w : Str) : string (u ++ 0 :: w) = u := by
  rw [string_append hu, string, List.takeWhile_cons_of_neg (by simp), List.append_nil]

theorem findIdx?_slash (h : slash ∉ u) : u.findIdx? (· == slash) = none := by
  refine List.findIdx?_eq_none_iff.mpr fun x hx => beq_eq_false_iff_ne.mpr ?_
  rintro rfl
  exact h hx

/-- **`strchr` finds the first separator.** -/
theorem strchr_separator (w' : Str) (hzero : 0 ∉ u) (hslash : slash ∉ u) :
    strchr (w' ++ (u ++ slash :: w)) w'.length slash = some (w' ++ u).length := by
  rw [strchr, List.drop_left, string_append hzero, string, List.takeWhile_cons_of_pos (by decide),
    List.findIdx?_append, findIdx?_slash hslash, List.findIdx?_cons]
  simp

/-- `strchr` finds none in the last component. -/
theorem strchr_last (w' : Str) (hzero : 0 ∉ u) (hslash : slash ∉ u) :
    strchr (w' ++ (u ++ [0])) w'.length slash = none := by
  rw [strchr, List.drop_left, string_eq hzero, findIdx?_slash hslash, Option.map_none]

theorem moves_assemble (h : Clean slash front last) :
    moves (assemble slash front last) = walkOf (front ++ [last]) := by
  rw [moves, components, split_assemble h]

/-- The walk of a path begins where that of a beginning of it does. -/
theorem start_append (hu : u ≠ []) (w : Str) : start cwd (u ++ w) = start cwd u := by
  rw [start, start, List.head?_append_of_ne_nil _ hu]

end Strings

/-! ### A round -/

section Round

variable {cwd : List Str} {mode : ℤ} {t : Dirs} {path u w : Str} {k q : ℕ} {status : ℤ}

/-- **A round with a separator**: what is before it is made, the buffer is as it was. -/
theorem mkPathBody_separator {buffer : Str} (hbuffer : buffer = u ++ slash :: w) (hu : 0 ∉ u)
    (hk : strchr buffer k slash = some u.length) :
    mkPathBody cwd mode (stateAt buffer t k status) =
      .next (stateAt buffer (uziMkDir cwd t u mode).1 (u.length + 1)
        (uziMkDir cwd t u mode).2) := by
  have hput (x y : UInt8) : (u ++ x :: w).set u.length y = u ++ y :: w := by
    rw [List.set_append_right _ _ (Nat.le_refl _), Nat.sub_self, List.set_cons_zero]
  have htmp : (u ++ slash :: w).getD u.length 0 = slash := by simp
  subst hbuffer
  simp only [mkPathBody, stateAt, hk, hput, htmp, string_eq hu]

/-- **The last round.** -/
theorem mkPathBody_last (hpath : 0 ∉ path) (hk : strchr (path ++ [0]) k slash = none) :
    mkPathBody cwd mode (stateAt (path ++ [0]) t k status) =
      .stop ⟨path ++ [0], (uziMkDir cwd t path mode).1, some k, none, (uziMkDir cwd t path mode).2⟩
        () := by
  simp only [mkPathBody, stateAt, hk, string_eq hpath]

theorem strchr_bounds {c : UInt8} (h : strchr path k c = some q) : k ≤ q ∧ q < path.length := by
  obtain ⟨i, hi, rfl⟩ := Option.map_eq_some_iff.mp h
  have hlt : i < (string (path.drop k)).length := (List.findIdx?_eq_some_iff_findIdx_eq.mp hi).1
  have hle : (string (path.drop k)).length ≤ (path.drop k).length :=
    (List.takeWhile_sublist _).length_le
  rw [List.length_drop] at hle
  omega

/-- Every round that goes on leaves less to do. -/
theorem decreases_mkPath (cwd : List Str) (mode : ℤ) :
    Loop.Decreases mkPathGuard (mkPathBody cwd mode) mkPathVariant where
  pos := by
    intro s _
    rw [mkPathVariant]
    split
    · exact Nat.succ_pos _
    · exact Nat.one_pos
  lt := by
    intro s s' _ hb
    rw [mkPathBody] at hb
    cases hq : s.q with
    | none =>
      rw [hq] at hb
      cases hb
    | some q =>
      rw [hq] at hb
      obtain rfl := Loop.Flow.next.inj hb
      rw [mkPathVariant, mkPathVariant, hq]
      split
      · rename_i q' hq'
        obtain ⟨hle, hlt⟩ := strchr_bounds hq'
        rw [List.length_set, List.length_set] at hlt ⊢
        omega
      · exact Nat.succ_lt_succ (Nat.succ_pos _)

end Round

/-! ### A run -/

section Run

variable {cwd : List Str} {mode : ℤ} {t : Dirs} {path u w last : Str} {pre rest : List Str}
  {b : Bool}

theorem walkOf_append (cs cs' : List Str) : walkOf (cs ++ cs') = walkOf cs ++ walkOf cs' := by
  rw [walkOf, List.map_append, List.flatMap_append, walkOf, walkOf]

theorem walkOf_concat (pre : List Str) (c : Str) :
    walkOf (pre ++ [c]) = walkOf pre ++ (step c).toList := by
  rw [walkOf_append, walkOf, walkOf, List.map_singleton, List.flatMap_singleton]

/-- **`UziMkDir` for a beginning of the path**: it is walked from where the path begins, and if it
is empty, nothing is made. -/
theorem uziMkDir_beginning (cwd : List Str) (t : Dirs) (u w : Str) (mode : ℤ) :
    uziMkDir cwd t u mode =
      ((Directories.mkdir (modeOf mode) t (start cwd (u ++ w)) (moves u)).1,
        statusOf (Directories.mkdir (modeOf mode) t (start cwd (u ++ w)) (moves u)).2) := by
  rcases List.eq_nil_or_concat u with rfl | ⟨u', x, rfl⟩
  · rfl
  · rw [start_append (by simp), uziMkDir, mkdir]

/-- **The rounds of `UziMkPath`**, from after the components `pre` on: they make the places on
the rest of the path, one after the other. -/
theorem whileLoop_mkPath (cwd : List Str) (mode : ℤ) (pre rest : List Str)
    (hclean : Clean slash (pre ++ rest) last) (hpath : path = assemble slash (pre ++ rest) last)
    (hzero : 0 ∉ path) (t : Dirs) (b : Bool) :
    ∃ k, Loop.whileLoop mkPathGuard (mkPathBody cwd mode) () mkPathVariant
        (stateAt (path ++ [0]) t (assemble slash pre []).length (statusOf b)) =
      (⟨path ++ [0], (mkdirs (modeOf mode) (start cwd path) (walkOf pre)
          ((rest ++ [last]).map step) (t, b)).1, some k, none,
        statusOf (mkdirs (modeOf mode) (start cwd path) (walkOf pre)
          ((rest ++ [last]).map step) (t, b)).2⟩, ()) := by
  induction rest generalizing pre t b with
  | nil =>
    rw [List.append_nil] at hclean hpath
    have hlast : 0 ∉ last := fun h =>
      hzero (hpath ▸ assemble_eq slash pre last ▸ List.mem_append_right _ h)
    have hnone : strchr (path ++ [0]) (assemble slash pre []).length slash = none := by
      rw [hpath, assemble_eq, List.append_assoc]
      exact strchr_last _ hlast hclean.2
    have hmoves : moves path = walkOf pre ++ (step last).toList := by
      rw [hpath, moves_assemble hclean, walkOf_concat]
    have hmk := uziMkDir_beginning cwd t path [] mode
    rw [List.append_nil, hmoves] at hmk
    refine ⟨(assemble slash pre []).length, ?_⟩
    rw [Loop.whileLoop_stop (decreases_mkPath cwd mode) rfl (mkPathBody_last hzero hnone), hmk]
    rfl
  | cons c rest ih =>
    have hmid : path = assemble slash pre c ++ slash :: assemble slash rest last :=
      hpath.trans (assemble_middle slash pre rest c last)
    have hu : 0 ∉ assemble slash pre c := fun h => hzero (hmid ▸ List.mem_append_left _ h)
    have hc : 0 ∉ c := fun h => hu (assemble_eq slash pre c ▸ List.mem_append_right _ h)
    have hbuffer : path ++ [0] =
        assemble slash pre c ++ slash :: (assemble slash rest last ++ [0]) := by
      rw [hmid, List.append_assoc, List.cons_append]
    have hsome : strchr (path ++ [0]) (assemble slash pre []).length slash =
        some (assemble slash pre c).length := by
      rw [hbuffer, assemble_eq slash pre c, List.append_assoc]
      exact strchr_separator _ hc hclean.beginning.2
    have hmoves : moves (assemble slash pre c) = walkOf (pre ++ [c]) :=
      moves_assemble hclean.beginning
    have hmk := uziMkDir_beginning cwd t (assemble slash pre c)
      (slash :: assemble slash rest last) mode
    rw [hmoves, ← hmid] at hmk
    have hlength : (assemble slash (pre ++ [c]) []).length = (assemble slash pre c).length + 1 := by
      rw [assemble_middle, assemble_nil, List.length_append, List.length_singleton]
    have hsplit : pre ++ c :: rest = pre ++ [c] ++ rest := by
      rw [List.append_assoc, List.singleton_append]
    obtain ⟨k, hrun⟩ := ih (pre ++ [c]) (hsplit ▸ hclean) (hsplit ▸ hpath)
      (Directories.mkdir (modeOf mode) t (start cwd path) (walkOf (pre ++ [c]))).1
      (Directories.mkdir (modeOf mode) t (start cwd path) (walkOf (pre ++ [c]))).2
    refine ⟨k, ?_⟩
    rw [Loop.whileLoop_next (decreases_mkPath cwd mode) rfl (mkPathBody_separator hbuffer hu hsome),
      hmk, ← hlength, hrun, walkOf_concat]
    rfl

/-- **What `UziMkPath` comes to.** -/
theorem uziMkPath_eq (cwd : List Str) (t : Dirs) (hzero : 0 ∉ path) (mode : ℤ) :
    ∃ k, uziMkPath cwd t path mode =
      ⟨path ++ [0], (mkdirs (modeOf mode) (start cwd path) [] ((components path).map step)
          (t, true)).1, some k, none,
        statusOf (mkdirs (modeOf mode) (start cwd path) [] ((components path).map step)
          (t, true)).2⟩ := by
  obtain ⟨k, hrun⟩ := whileLoop_mkPath cwd mode [] (split slash path).1
    (clean_split slash path) (assemble_split slash path).symm hzero t true
  exact ⟨k, congrArg Prod.fst hrun⟩

end Run

/-! ### What has been made -/

section Law

variable {cwd : List Str} {mode : ℤ} {t : Dirs} {path s : Str} {p : List Str}

/-- A beginning of the path is walked as far as it goes. -/
theorem moves_beginning (hs : EndsBefore slash path s) : ∃ ms, moves path = moves s ++ ms := by
  have hclean := clean_split slash path
  rw [← assemble_split slash path, endsBefore_assemble_iff hclean] at hs
  obtain ⟨pre, c, post, hfront, rfl⟩ := hs
  rw [hfront] at hclean
  refine ⟨walkOf (post ++ [(split slash path).2]), ?_⟩
  rw [moves_assemble hclean.beginning, ← walkOf_append, moves, components, hfront]
  simp only [List.append_assoc, List.cons_append, List.nil_append]

/-- The walk of a beginning of the path, if there is something of it. -/
theorem start_beginning (hs : EndsBefore slash path s) (hne : s ≠ []) :
    start cwd s = start cwd path := by
  obtain ⟨rest, rfl⟩ := hs
  exact (start_append hne _).symm

/-- **The places reached before the last call** are those that the beginnings name. -/
theorem mem_reached_front : p ∈ reached (start cwd path) ((split slash path).1.map step) ↔
    ∃ s, EndsBefore slash path s ∧ p = walk (start cwd path) (moves s) := by
  have hclean := clean_split slash path
  rw [mem_reached_iff]
  constructor
  · rintro ⟨pre', s', post', hsteps, rfl⟩
    obtain ⟨pre, post, hfront, rfl, hpost⟩ := List.map_eq_append_iff.mp hsteps
    obtain ⟨c, post, rfl, rfl, rfl⟩ := List.map_eq_cons_iff.mp hpost
    have hbefore := (endsBefore_assemble_iff hclean).mpr ⟨pre, c, post, hfront, rfl⟩
    rw [assemble_split] at hbefore
    refine ⟨assemble slash pre c, hbefore, ?_⟩
    rw [hfront] at hclean
    rw [moves_assemble hclean.beginning, walkOf, List.map_append, List.map_singleton]
  · rintro ⟨s, hs, rfl⟩
    rw [← assemble_split slash path, endsBefore_assemble_iff hclean] at hs
    obtain ⟨pre, c, post, hfront, rfl⟩ := hs
    refine ⟨pre.map step, step c, post.map step, by rw [hfront, List.map_append, List.map_cons], ?_⟩
    rw [hfront] at hclean
    rw [moves_assemble hclean.beginning, walkOf, List.map_append, List.map_singleton]

theorem Buildable.walks_start (h : Buildable cwd t path) : Walks t (start cwd path) [] := h.origin

/-- The places reached are directories or free. -/
theorem Buildable.ne_other (h : Buildable cwd t path) :
    ∀ p ∈ reached (start cwd path) ((components path).map step), t.entry p ≠ .other := by
  intro p hp
  rw [components, List.map_append, reached_append, List.mem_append] at hp
  rcases hp with hp | hp
  · obtain ⟨s, hs, rfl⟩ := mem_reached_front.mp hp
    by_cases hne : s = []
    · rw [hne]
      intro hother
      have hdir := h.origin
      rw [show t.entry (start cwd path) = .other from hother] at hdir
      cases hdir
    · rw [← start_beginning hs hne]
      exact h.front s hne hs
  · obtain rfl := List.mem_singleton.mp hp
    have hwhole := h.whole
    rw [target, moves, components, walkOf_concat, walk_append] at hwhole
    exact hwhole

/-- **The last call makes a directory exactly when the path is new.** -/
theorem Buildable.made_iff (h : Buildable cwd t path) (mode : ℤ) :
    (mkdirs mode (start cwd path) [] ((components path).map step) (t, true)).2 = true ↔
      New cwd t path := by
  have hother := h.ne_other
  rw [components, List.map_append, List.map_singleton] at hother ⊢
  have htarget : walk (start cwd path) ([] ++ (((split slash path).1.map step ++
      [step (split slash path).2]).flatMap Option.toList)) = target cwd path := by
    rw [target, moves, components, walkOf, List.map_append, List.map_singleton, List.nil_append]
  rw [mkdirs_made_iff (r := (t, true)) mode h.walks_start hother, htarget, walk_nil]
  refine and_congr_right fun hfree => ?_
  constructor
  · intro hnot s hne hs heq
    exact hnot (mem_reached_front.mpr ⟨s, hs, by rw [← heq, target, start_beginning hs hne]⟩)
  · intro hnot hmem
    obtain ⟨s, hs, heq⟩ := mem_reached_front.mp hmem
    by_cases hne : s = []
    · -- Before a leading separator nothing is walked.
      have hdir := h.origin
      rw [heq, hne] at hfree
      exact not_free_of_isDirectory hdir hfree
    · exact hnot s hne hs (by rw [heq, target, start_beginning hs hne])

/-- **`UziMkPath` makes the path exactly when the path is new.** If not, everything is there all
the same, but the result is that of the last `mkdir`. -/
theorem makesPath_iff (h : Buildable cwd t path) (hzero : 0 ∉ path) (mode : ℤ) :
    MakesPath cwd t path mode ↔ New cwd t path := by
  obtain ⟨k, heq⟩ := uziMkPath_eq cwd t hzero mode
  have hmade := h.made_iff (modeOf mode)
  have hwalks : IsDirectory _ cwd path :=
    (mkdirs_spec (r := (t, true)) (modeOf mode) h.walks_start h.ne_other).2
  constructor
  · intro hmakes
    refine hmade.mp ?_
    have hstatus := hmakes.status
    rw [heq] at hstatus
    by_contra hnot
    rw [statusOf, if_neg hnot] at hstatus
    cases hstatus
  · intro hnew
    refine ⟨Loop.exits_whileLoop (decreases_mkPath cwd mode) _, ?_, ?_, ?_, ?_⟩
    · intro s hne hs
      obtain ⟨ms, hms⟩ := moves_beginning hs
      rw [IsDirectory, hms] at hwalks
      rw [heq, IsDirectory, start_beginning hs hne]
      exact (walks_append.mp hwalks).1
    · rw [heq]
      exact hwalks
    · rw [heq]
    · rw [heq, statusOf, if_pos (hmade.mpr hnew)]

/-- The tree that is empty but for its root. -/
def emptyDirs : Dirs where
  entry p := if p = [] then .directory userMode else .free
  root := rfl
  closed := fun n d h => absurd (if_neg (List.cons_ne_nil n d)) h

/-- Everything is missing in it, and can be made. -/
theorem buildable_emptyDirs (path : Str) : Buildable [] emptyDirs path := by
  have hother (p : List Str) : emptyDirs.entry p ≠ .other := by
    simp only [emptyDirs]
    split <;> exact fun h => by cases h
  refine ⟨?_, fun s _ _ => hother _, hother _⟩
  rw [start, ite_self]
  rfl

/-- `a/b` is made in it. -/
theorem makesPath_two : MakesPath [] emptyDirs [0x61, slash, 0x62] 0 := by
  refine (makesPath_iff (buildable_emptyDirs _) (by decide) 0).mpr ⟨by decide, ?_⟩
  rintro s hne ⟨rest, hrest⟩
  rcases s with _ | ⟨x, _ | ⟨y, _ | ⟨z, s⟩⟩⟩
  · exact absurd rfl hne
  · obtain ⟨rfl, -⟩ := List.cons.inj hrest
    decide
  · exact absurd hrest (by simp [slash])
  · exact absurd hrest (by simp)

/-- For `a/` the last call finds the directory that the first one has made. -/
theorem not_makesPath_trailing :
    Buildable [] emptyDirs [0x61, slash] ∧ ¬ MakesPath [] emptyDirs [0x61, slash] 0 := by
  refine ⟨buildable_emptyDirs _, fun h => ?_⟩
  exact absurd h.status (by decide)

end Law

end MkPath

end Libuzi
