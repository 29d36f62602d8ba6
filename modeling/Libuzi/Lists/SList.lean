import Libuzi.Threads
import Libuzi.Interlocked
import Libuzi.Chain

/-!
# Interlocked singly linked lists

`InterlockedPushEntrySList` and `InterlockedPopEntrySList` of `libuzi/interlocked.c`, run
by any number of threads on one header, in a build for 64-bit pointers that is not
`_WIN64`. There the exchanged word `Alignment` is as wide as the pointer `Next`, so that a
compare-exchange of the former compares and stores the latter and nothing else: `Depth`
and `Sequence` are computed and lost.

A push loads the header, stores the first entry in its own, and compare-exchanges; a pop
loads the header, loads the first entry's `Next`, and compare-exchanges. Either starts
again when the compare-exchange fails. The threads push entries they hold, and hold the
entries they pop.

The word compared does not tell whether the list has changed in between, only whether its
first entry has. So a pop that has read an entry and its successor may find the same entry
in front with another successor, after it has been popped and pushed again, and then
installs the successor it has read: an entry that is no longer on the list comes back, or
entries that are on it are lost (`slist_not_stack`). This is the only way for the list to
go wrong: in a run in which each pop whose compare-exchange succeeds finds the successor
as it has read it, the chain from the header is at all times exactly the entries pushed
and not popped since (`slist_isStack`).
-/

namespace Libuzi

open Runs Threads Chain

namespace SList

/-! ### The model -/

/-- `UZI_SLIST_HEADER`, for 64-bit pointers. -/
structure Header (E : Type*) where
  /-- `s.Next.Next`. -/
  next : Option E
  /-- `s.Depth`. -/
  depth : UInt16
  /-- `s.Sequence`. -/
  sequence : UInt16
  deriving DecidableEq

/-- What a run leaves in its history: the compare-exchanges that succeed. -/
inductive Event (E : Type*)
  /-- An entry is pushed. -/
  | push (entry : E)
  /-- An entry is popped, and is about to be returned. -/
  | pop (entry : E)
  deriving DecidableEq

/-- The shared memory: the header, the entries, and the history of the run. -/
structure Shared (E : Type*) where
  /-- `*ListHead`. -/
  header : Header E
  /-- The field `Next` of each entry. -/
  next : E → Option E
  /-- The entries that the callers hold. -/
  owned : E → Bool
  /-- The events so far, the latest first. -/
  history : List (Event E)

/-- Where a thread stands, with the values of its local variables. -/
inductive Local (E : Type*)
  /-- Outside the two functions. -/
  | idle
  /-- In a push, about to load the header. -/
  | pushLoad (entry : E)
  /-- In a push, about to store the entry's `Next`. -/
  | pushStore (entry : E) (old : Header E)
  /-- In a push, about to compare-exchange. -/
  | pushCas (entry : E) (old newHeader : Header E)
  /-- In a pop, about to load the header. -/
  | popLoad
  /-- In a pop, about to load the entry's `Next`. -/
  | popRead (entry : E) (old : Header E)
  /-- In a pop, about to compare-exchange. -/
  | popCas (entry : E) (old newHeader : Header E)
  deriving DecidableEq

/-- What the environment chooses at a step. -/
inductive Choice (E : Type*)
  /-- Call `InterlockedPushEntrySList`. -/
  | push (entry : E)
  /-- Call `InterlockedPopEntrySList`. -/
  | pop
  /-- Let the call go on. -/
  | go
  deriving DecidableEq

variable {ι E : Type*}

/-- The word `Alignment` of the header. -/
def Header.alignment (h : Header E) : Option E := h.next

/-- `InitializeSListHead`. -/
def initializeSListHead (h : Header E) : Header E := { h with next := none }

section Step

variable [DecidableEq E]

/-- `InterlockedCompareExchange64` on `ListHead->Alignment`. -/
def compareExchange64 (h : Header E) (exchange comperand : Option E) : Header E × Option E :=
  let r := interlockedCompareExchange h.alignment exchange comperand
  ({ h with next := r.1 }, r.2)

/-- **One step of `InterlockedPushEntrySList` or `InterlockedPopEntrySList`.** -/
def sListStep (_ : ι) (a : Choice E) (s : Shared E) (l : Local E) : Option (Shared E × Local E) :=
  match l, a with
  | .idle, .push entry =>
    if s.owned entry then
      some ({ s with owned := Function.update s.owned entry false }, .pushLoad entry)
    else none
  | .idle, .pop => some (s, .popLoad)
  | .pushLoad entry, .go => some (s, .pushStore entry s.header)
  | .pushStore entry old, .go =>
    some ({ s with next := Function.update s.next entry old.next },
      .pushCas entry old ⟨some entry, old.depth + 1, old.sequence + 1⟩)
  | .pushCas entry old newHeader, .go =>
    let r := compareExchange64 s.header newHeader.alignment old.alignment
    if r.2 ≠ old.alignment then some ({ s with header := r.1 }, .pushLoad entry)
    else some ({ s with header := r.1, history := .push entry :: s.history }, .idle)
  | .popLoad, .go =>
    match s.header.next with
    | none => some (s, .idle)
    | some entry => some (s, .popRead entry s.header)
  | .popRead entry old, .go =>
    some (s, .popCas entry old ⟨s.next entry, old.depth - 1, old.sequence + 1⟩)
  | .popCas entry old newHeader, .go =>
    let r := compareExchange64 s.header newHeader.alignment old.alignment
    if r.2 ≠ old.alignment then some ({ s with header := r.1 }, .popLoad)
    else some ({ s with header := r.1, history := .pop entry :: s.history,
                        owned := Function.update s.owned entry true }, .idle)
  | _, _ => none

end Step

/-- The start: an initialised header, all the entries in the hands of the callers, whatever
their fields hold. -/
def start (ι : Type*) (h : Header E) (next : E → Option E) : Config ι (Shared E) (Local E) where
  shared := { header := initializeSListHead h, next := next, owned := fun _ => true, history := [] }
  locals := fun _ => .idle

/-! ### What the calls promise -/

/-- The links of the entries, each of which has its field. -/
def Shared.links (s : Shared E) : E → Option (Option E) := fun e => some (s.next e)

variable [DecidableEq E]

/-- The entry has been pushed and not popped since. -/
def Outstanding (e : E) : List (Event E) → Bool
  | [] => false
  | .push e' :: h => if e' = e then true else Outstanding e h
  | .pop e' :: h => if e' = e then false else Outstanding e h

/-- **A concurrent stack**: no entry has been returned by more pops than it has been pushed,
and each entry that has been pushed and not popped since is met exactly once on the way
from the header to the end of the chain. -/
def IsStack (s : Shared E) : Prop :=
  (∀ e, s.history.count (.pop e) ≤ s.history.count (.push e)) ∧
    ∃ xs, Path s.links s.header.next xs none ∧
      ∀ e, Outstanding e s.history = true → xs.count e = 1

/-- A pop whose compare-exchange is about to succeed finds the successor of its entry as it
has read it. -/
def KeepsSuccessor (s : Shared E) : Local E → Prop
  | .popCas entry old newHeader =>
    s.header.alignment = old.alignment → s.next entry = newHeader.next
  | _ => True

instance decidableKeepsSuccessor (s : Shared E) : (l : Local E) → Decidable (KeepsSuccessor s l)
  | .popCas entry old newHeader => inferInstanceAs
      (Decidable (s.header.alignment = old.alignment → s.next entry = newHeader.next))
  | .idle | .pushLoad _ | .pushStore _ _ | .pushCas _ _ _ | .popLoad | .popRead _ _ =>
    inferInstanceAs (Decidable True)

/-- **The condition on a step**, which is about the thread that moves. -/
def SuccessorUnchanged (c : Config ι (Shared E) (Local E)) (e : ι × Choice E) : Prop :=
  KeepsSuccessor c.shared (c.locals e.1)

instance (c : Config ι (Shared E) (Local E)) (e : ι × Choice E) :
    Decidable (SuccessorUnchanged c e) :=
  inferInstanceAs (Decidable (KeepsSuccessor c.shared (c.locals e.1)))

/-! ### The invariant -/

/-- The entry that a thread is pushing. -/
def Local.pushing : Local E → Option E
  | .pushLoad entry => some entry
  | .pushStore entry _ => some entry
  | .pushCas entry _ _ => some entry
  | _ => none

/-- What a thread knows of the memory where it stands, the list being `xs`. -/
def Knows (s : Shared E) (xs : List E) : Local E → Prop
  | .pushLoad entry => s.owned entry = false ∧ entry ∉ xs
  | .pushStore entry _ => s.owned entry = false ∧ entry ∉ xs
  | .pushCas entry old newHeader =>
    (s.owned entry = false ∧ entry ∉ xs) ∧ newHeader.next = some entry ∧ s.next entry = old.next
  | .popRead entry old => old.next = some entry
  | .popCas entry old _ => old.next = some entry
  | _ => True

/-- **The invariant**: the chain from the header is `xs`, whose entries are those the history
says are outstanding, and each entry is in one place – in the hands of the callers, on the
list, or being pushed by one thread. -/
structure Inv (c : Config ι (Shared E) (Local E)) (xs : List E) : Prop where
  path : Path c.shared.links c.shared.header.next xs none
  onList : ∀ e ∈ xs, c.shared.owned e = false
  knows : ∀ i, Knows c.shared xs (c.locals i)
  apart : ∀ i j e, (c.locals i).pushing = some e → (c.locals j).pushing = some e → i = j
  outstanding : ∀ e, Outstanding e c.shared.history = true ↔ e ∈ xs
  counts : ∀ e, c.shared.history.count (.push e) = c.shared.history.count (.pop e) + xs.count e

omit [DecidableEq E] in
/-- An entry that is being pushed is nowhere else. -/
theorem Knows.pushing {s : Shared E} {xs : List E} {l : Local E} (h : Knows s xs l) {e : E}
    (hl : l.pushing = some e) : s.owned e = false ∧ e ∉ xs := by
  cases l with
  | pushLoad entry =>
    obtain rfl := Option.some.inj hl
    exact h
  | pushStore entry old =>
    obtain rfl := Option.some.inj hl
    exact h
  | pushCas entry old newHeader =>
    obtain rfl := Option.some.inj hl
    exact h.1
  | _ => cases hl

omit [DecidableEq E] in
/-- What a thread knows depends only on the entry it is pushing. -/
theorem Knows.frame {s s' : Shared E} {xs xs' : List E} {l : Local E} (h : Knows s xs l)
    (hl : ∀ e, l.pushing = some e → s'.owned e = false ∧ e ∉ xs' ∧ s'.next e = s.next e) :
    Knows s' xs' l := by
  cases l with
  | pushLoad entry =>
    obtain ⟨ho, hx, -⟩ := hl entry rfl
    exact ⟨ho, hx⟩
  | pushStore entry old =>
    obtain ⟨ho, hx, -⟩ := hl entry rfl
    exact ⟨ho, hx⟩
  | pushCas entry old newHeader =>
    obtain ⟨ho, hx, hn⟩ := hl entry rfl
    exact ⟨⟨ho, hx⟩, h.2.1, hn.trans h.2.2⟩
  | _ => exact h

theorem compareExchange64_of_eq {h : Header E} {exchange comperand : Option E}
    (heq : h.alignment = comperand) :
    compareExchange64 h exchange comperand = ({ h with next := exchange }, comperand) := by
  rw [compareExchange64, interlockedCompareExchange, if_pos heq, heq]

theorem compareExchange64_of_ne {h : Header E} {exchange comperand : Option E}
    (hne : h.alignment ≠ comperand) :
    compareExchange64 h exchange comperand = (h, h.alignment) := by
  rw [compareExchange64, interlockedCompareExchange, if_neg hne]
  rfl

section Kept

variable [DecidableEq ι] {c : Config ι (Shared E) (Local E)} {xs xs' : List E} {i : ι}
  {s : Shared E} {l : Local E}

/-- **The frame rule**: a step that keeps the shared part of the invariant, and leaves alone the
entries that the other threads are pushing, keeps the invariant. -/
theorem Inv.move (h : Inv c xs) (hpath : Path s.links s.header.next xs' none)
    (honList : ∀ e ∈ xs', s.owned e = false) (hl : Knows s xs' l)
    (hothers : ∀ j, j ≠ i → ∀ e, (c.locals j).pushing = some e →
      s.owned e = false ∧ e ∉ xs' ∧ s.next e = c.shared.next e)
    (hapart : ∀ e, l.pushing = some e → ∀ j, j ≠ i → (c.locals j).pushing ≠ some e)
    (hout : ∀ e, Outstanding e s.history = true ↔ e ∈ xs')
    (hcounts : ∀ e, s.history.count (.push e) = s.history.count (.pop e) + xs'.count e) :
    Inv (c.move i s l) xs' := by
  refine ⟨hpath, honList, ?_, ?_, hout, hcounts⟩
  · exact Config.forall_move hl fun j hj => (h.knows j).frame (hothers j hj)
  · intro j k e hj hk
    rcases eq_or_ne j i with rfl | hji
    · rcases eq_or_ne k j with rfl | hkj
      · rfl
      · rw [Config.move_self] at hj
        rw [Config.move_of_ne _ _ _ hkj] at hk
        exact absurd hk (hapart e hj k hkj)
    · rw [Config.move_of_ne _ _ _ hji] at hj
      rcases eq_or_ne k i with rfl | hki
      · rw [Config.move_self] at hk
        exact absurd hj (hapart e hk j hji)
      · rw [Config.move_of_ne _ _ _ hki] at hk
        exact h.apart j k e hj hk

omit [DecidableEq ι] in
/-- A thread that pushes what it has been pushing is apart from the others. -/
theorem Inv.apart_of_pushing (h : Inv c xs) {e : E} (he : (c.locals i).pushing = some e) (j : ι)
    (hj : j ≠ i) : (c.locals j).pushing ≠ some e := by
  intro hje
  exact hj (h.apart j i e hje he)

/-- A step that touches no memory. -/
theorem Inv.local_step (h : Inv c xs) (hl : Knows c.shared xs l)
    (hpushing : ∀ e, l.pushing = some e → (c.locals i).pushing = some e) :
    Inv (c.move i c.shared l) xs :=
  h.move h.path h.onList hl (fun j _ _ he => ⟨((h.knows j).pushing he).1,
    ((h.knows j).pushing he).2, rfl⟩) (fun e he => h.apart_of_pushing (hpushing e he))
    h.outstanding h.counts

/-- A call to push takes the entry from the callers' hands. -/
theorem Inv.push_call (h : Inv c xs) {entry : E} (howned : c.shared.owned entry = true) :
    Inv (c.move i { c.shared with owned := Function.update c.shared.owned entry false }
      (.pushLoad entry)) xs := by
  have hne : ∀ e, c.shared.owned e = false → e ≠ entry := by
    rintro e he rfl
    exact Bool.false_ne_true (he.symm.trans howned)
  have hx : entry ∉ xs := fun hx => hne entry (h.onList entry hx) rfl
  refine h.move h.path ?_ ⟨Function.update_self .., hx⟩ ?_ ?_ h.outstanding h.counts
  · intro e he
    simp only
    rw [Function.update_of_ne (hne e (h.onList e he))]
    exact h.onList e he
  · intro j _ e he
    obtain ⟨ho, hex⟩ := (h.knows j).pushing he
    simp only
    rw [Function.update_of_ne (hne e ho)]
    exact ⟨ho, hex, trivial⟩
  · intro e he j _ hj
    obtain rfl := Option.some.inj he
    exact hne entry ((h.knows j).pushing hj).1 rfl

/-- A push links its entry to what it has read: the entry is not on the list yet. -/
theorem Inv.push_store (h : Inv c xs) {entry : E} {old newHeader : Header E}
    (hi : c.locals i = .pushStore entry old) (hnew : newHeader.next = some entry) :
    Inv (c.move i { c.shared with next := Function.update c.shared.next entry old.next }
      (.pushCas entry old newHeader)) xs := by
  have hpush : (c.locals i).pushing = some entry := by rw [hi]; rfl
  have hknows := (h.knows i).pushing hpush
  refine h.move (h.path.congr ?_) h.onList ⟨hknows, hnew, Function.update_self ..⟩ ?_ ?_
    h.outstanding h.counts
  · intro e he
    have hne : e ≠ entry := by
      rintro rfl
      exact hknows.2 he
    simp only [Shared.links, Function.update_of_ne hne]
  · intro j hj e he
    have hne : e ≠ entry := by
      rintro rfl
      exact h.apart_of_pushing hpush j hj he
    obtain ⟨ho, hx⟩ := (h.knows j).pushing he
    exact ⟨ho, hx, Function.update_of_ne hne ..⟩
  · intro e he
    obtain rfl := Option.some.inj he
    exact h.apart_of_pushing hpush

/-- A push whose compare-exchange succeeds puts its entry in front. -/
theorem Inv.push_cas (h : Inv c xs) {entry : E} {old newHeader : Header E}
    (hi : c.locals i = .pushCas entry old newHeader)
    (hcas : c.shared.header.alignment = old.alignment) :
    Inv (c.move i { c.shared with
      header := { c.shared.header with next := newHeader.next },
      history := .push entry :: c.shared.history } .idle) (entry :: xs) := by
  have hpush : (c.locals i).pushing = some entry := by rw [hi]; rfl
  have hknows := h.knows i
  rw [hi] at hknows
  obtain ⟨⟨ho, hx⟩, hnew, hnext⟩ := hknows
  refine h.move ?_ ?_ trivial ?_ ?_ ?_ ?_
  · -- The new header points to the entry, and the entry to the old list.
    refine ⟨hnew, old.next, congrArg some hnext, ?_⟩
    have hpath := h.path
    rwa [show c.shared.header.next = old.next from hcas] at hpath
  · intro e he
    rcases List.mem_cons.mp he with rfl | he
    · exact ho
    · exact h.onList e he
  · intro j hj e he
    obtain ⟨hoe, hxe⟩ := (h.knows j).pushing he
    refine ⟨hoe, ?_, rfl⟩
    rw [List.mem_cons, not_or]
    refine ⟨?_, hxe⟩
    rintro rfl
    exact h.apart_of_pushing hpush j hj he
  · intro e he
    cases he
  · intro e
    simp only [Outstanding, List.mem_cons]
    split_ifs with heq
    · simp [heq]
    · rw [h.outstanding e]
      constructor
      · exact Or.inr
      · rintro (rfl | he)
        · exact absurd rfl heq
        · exact he
  · intro e
    simp only [List.count_cons, beq_iff_eq, Event.push.injEq, h.counts e, reduceCtorEq, if_false]
    omega

/-- A pop whose compare-exchange succeeds, the successor being as it was, takes the first entry
off the list. -/
theorem Inv.pop_cas (h : Inv c xs) {entry : E} {old newHeader : Header E}
    (hi : c.locals i = .popCas entry old newHeader)
    (hcas : c.shared.header.alignment = old.alignment)
    (hnext : c.shared.next entry = newHeader.next) :
    ∃ ys, Inv (c.move i { c.shared with
      header := { c.shared.header with next := newHeader.next },
      history := .pop entry :: c.shared.history,
      owned := Function.update c.shared.owned entry true } .idle) ys := by
  have hknows := h.knows i
  rw [hi] at hknows
  have hpath := h.path
  rw [show c.shared.header.next = some entry from hcas.trans hknows] at hpath
  obtain ⟨ys, rfl⟩ := hpath.eq_cons
  have hnodup := List.nodup_cons.mp hpath.nodup
  obtain ⟨-, r, hr, htail⟩ := hpath
  obtain rfl : newHeader.next = r := hnext.symm.trans (Option.some.inj hr)
  refine ⟨ys, h.move htail ?_ trivial ?_ ?_ ?_ ?_⟩
  · intro e he
    have hne : e ≠ entry := by
      rintro rfl
      exact hnodup.1 he
    simp only [Function.update_of_ne hne]
    exact h.onList e (List.mem_cons_of_mem _ he)
  · intro j hj e he
    obtain ⟨hoe, hxe⟩ := (h.knows j).pushing he
    rw [List.mem_cons, not_or] at hxe
    exact ⟨(Function.update_of_ne hxe.1 ..).trans hoe, hxe.2, rfl⟩
  · intro e he
    cases he
  · intro e
    simp only [Outstanding]
    split_ifs with heq
    · rw [← heq]
      exact ⟨fun hf => hf.elim, fun he => absurd he hnodup.1⟩
    · rw [h.outstanding e, List.mem_cons]
      constructor
      · rintro (rfl | he)
        · exact absurd rfl heq
        · exact he
      · exact Or.inr
  · intro e
    have hcount := h.counts e
    simp only [List.count_cons, beq_iff_eq, Event.pop.injEq, reduceCtorEq, if_false] at hcount ⊢
    omega

omit [DecidableEq ι] in
/-- Inside the two functions there is nothing to choose. -/
theorem eq_go_of_step {a : Choice E} {s₀ : Shared E} {l₀ : Local E}
    (hs : sListStep i a s₀ l₀ = some (s, l)) (hl : l₀ ≠ .idle) : a = .go := by
  cases a with
  | go => rfl
  | _ =>
    cases l₀ with
    | idle => exact absurd rfl hl
    | _ => cases hs

/-- **One step that meets the condition keeps the invariant.** -/
theorem inv_step {a : Choice E} (h : Inv c xs) (hok : SuccessorUnchanged c (i, a))
    (hs : sListStep i a c.shared (c.locals i) = some (s, l)) : ∃ ys, Inv (c.move i s l) ys := by
  have hknows := h.knows i
  rw [SuccessorUnchanged] at hok
  cases hl : c.locals i with
  | idle =>
    rw [hl] at hs
    cases a with
    | push entry =>
      simp only [sListStep] at hs
      split_ifs at hs with howned
      cases hs
      exact ⟨xs, h.push_call howned⟩
    | pop =>
      cases hs
      exact ⟨xs, h.local_step trivial nofun⟩
    | go => cases hs
  | pushLoad entry =>
    rw [hl] at hs hknows
    obtain rfl := eq_go_of_step hs nofun
    cases hs
    exact ⟨xs, h.local_step hknows (fun e he => by rw [hl]; exact he)⟩
  | pushStore entry old =>
    rw [hl] at hs
    obtain rfl := eq_go_of_step hs nofun
    cases hs
    exact ⟨xs, h.push_store hl rfl⟩
  | pushCas entry old newHeader =>
    rw [hl] at hs hknows
    obtain rfl := eq_go_of_step hs nofun
    by_cases hcas : c.shared.header.alignment = old.alignment
    · simp only [sListStep, compareExchange64_of_eq hcas, ne_eq, not_true, if_false] at hs
      cases hs
      exact ⟨entry :: xs, h.push_cas hl hcas⟩
    · simp only [sListStep, compareExchange64_of_ne hcas, ne_eq, hcas, not_false_eq_true,
        if_true] at hs
      cases hs
      exact ⟨xs, h.local_step hknows.1 (fun e he => by rw [hl]; exact he)⟩
  | popLoad =>
    rw [hl] at hs
    obtain rfl := eq_go_of_step hs nofun
    simp only [sListStep] at hs
    split at hs
    · cases hs
      exact ⟨xs, h.local_step trivial nofun⟩
    · next entry hentry =>
      cases hs
      exact ⟨xs, h.local_step hentry nofun⟩
  | popRead entry old =>
    rw [hl] at hs hknows
    obtain rfl := eq_go_of_step hs nofun
    cases hs
    exact ⟨xs, h.local_step hknows nofun⟩
  | popCas entry old newHeader =>
    rw [hl] at hs hok
    obtain rfl := eq_go_of_step hs nofun
    by_cases hcas : c.shared.header.alignment = old.alignment
    · simp only [sListStep, compareExchange64_of_eq hcas, ne_eq, not_true, if_false] at hs
      cases hs
      exact h.pop_cas hl hcas (hok hcas)
    · simp only [sListStep, compareExchange64_of_ne hcas, ne_eq, hcas, not_false_eq_true,
        if_true] at hs
      cases hs
      exact ⟨xs, h.local_step trivial nofun⟩

end Kept

/-! ### Runs -/

theorem inv_start (h : Header E) (next : E → Option E) :
    Inv (start ι h next) [] where
  path := rfl
  onList := nofun
  knows _ := trivial
  apart := nofun
  outstanding e := by simp [start, Outstanding]
  counts e := rfl

/-- **The list is a stack** in every run whose pops find the successor they have read. -/
theorem slist_isStack [DecidableEq ι] (h : Header E) (next : E → Option E)
    {c : Config ι (Shared E) (Local E)}
    (hrun : ReachesIf (threadStep sListStep) SuccessorUnchanged (start ι h next) c) :
    IsStack c.shared := by
  obtain ⟨xs, hinv⟩ : ∃ xs, Inv c xs := by
    refine Threads.invariant (P := fun d => ∃ xs, Inv d xs) hrun ⟨[], inv_start h next⟩ ?_
    rintro d i a s l ⟨xs, hinv⟩ hok hs
    exact inv_step hinv hok hs
  refine ⟨fun e => ?_, xs, hinv.path, fun e he => ?_⟩
  · rw [hinv.counts e]
    exact Nat.le_add_right _ _
  · exact List.count_eq_one_of_mem hinv.path.nodup ((hinv.outstanding e).mp he)

/-- The whole of a push by thread `i` that nobody disturbs. -/
def pushAlone (i : ι) (entry : E) : List (ι × Choice E) :=
  [(i, .push entry), (i, .go), (i, .go), (i, .go)]

/-- The whole of a pop by thread `i` that nobody disturbs. -/
def popAlone (i : ι) : List (ι × Choice E) := [(i, .pop), (i, .go), (i, .go), (i, .go)]

/-- A list of the entries `1` and `0`, the latter in front. Thread `0` is about to pop it and
has read that the successor is `1`, when thread `1` takes both off and puts `0` back. -/
def popTwoPushOne : List (Fin 2 × Choice (Fin 2)) :=
  pushAlone 1 1 ++ pushAlone 1 0 ++ [(0, .pop), (0, .go), (0, .go)] ++
    popAlone 1 ++ popAlone 1 ++ pushAlone 1 0

/-- An empty header. -/
def emptyHeader : Header (Fin 2) := ⟨none, 0, 0⟩

/-- **The list is not a stack in every run**: thread `0` then installs the entry `1`, which
thread `1` holds, and the next pop returns it a second time. -/
theorem slist_not_stack : ¬ ∀ c : Config (Fin 2) (Shared (Fin 2)) (Local (Fin 2)),
    Reaches (threadStep sListStep) (start (Fin 2) emptyHeader fun _ => none) c →
      IsStack c.shared := by
  intro hall
  have hcount := (hall _ (reaches_of_run (popTwoPushOne ++ [(0, .go)] ++ popAlone 0)
    (run_eq_final (by decide +kernel)))).1 1
  revert hcount
  decide +kernel

/-- Two pops at the same time: the one that comes second starts again. -/
def popTogether : List (Fin 2 × Choice (Fin 2)) :=
  pushAlone 1 1 ++ pushAlone 1 0 ++
    [(0, .pop), (1, .pop), (0, .go), (1, .go), (0, .go), (1, .go), (0, .go), (1, .go)]

theorem slist_isStack_popTogether :
    ∃ c, run (threadStep sListStep) (start (Fin 2) emptyHeader fun _ => none) popTogether =
        some c ∧ IsStack c.shared ∧ c.shared.history = [.pop 0, .push 0, .push 1] :=
  ⟨_, run_eq_final (by decide +kernel), slist_isStack emptyHeader (fun _ => none)
    (reachesIf_of_run popTogether (by decide +kernel) (run_eq_final (by decide +kernel))),
    by decide +kernel⟩

end SList

end Libuzi
