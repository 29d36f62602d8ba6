import Libuzi.Linear
import Libuzi.Lists.SListUnion

/-!
# Interlocked singly linked lists that count their exchanges

The functions of `libuzi/interlocked.c` on a `UZI_SLIST_HEADER`, run by any number of threads, in a
build for 32-bit pointers. There the word that is exchanged is the whole of the header
(`SListSequence.fields_compareExchange64`), and each exchange adds one to `Sequence`. So the word
tells whether the list has changed in between, unless it has changed so often that the sixteen bits
of `Sequence` have come round.

| | between the load of the header and the exchange |
|---|---|
| at most 65535 exchanges | the comparison fails if there was any |
| 65536 of them | it may succeed, and the list is broken |

The header is loaded in two parts, in either order, as a machine of 32 bits does. In a run in which
no exchange comes that late, and no flush finds a list of 65536 entries or more, the calls are those
of a stack, one after the other (`SListSequence.slist_linearizable`). One exchange more is too many:
there is a run in which a pop installs an entry that is in the hands of a caller
(`SListSequence.slist_comesRound`).

The callers push only entries that they hold, and may write to those as they like. A pop that is
late may therefore read anything from the entry it has seen; it then throws it away.

The exchange is one step, as it is with the `__sync` builtin. In a build without the builtin the
word is exchanged under a mutex that the loads of the header do not take, and these can see one half
of a store; that build is not the subject here.
-/

namespace Libuzi

open Runs Threads Chain Linear

namespace SListSequence

/-! ### The model -/

/-- `UZI_SLIST_HEADER`, as for 64-bit pointers. -/
abbrev Header (E : Type*) := SList.Header E

/-- A call that changes the list. -/
inductive Change (E : Type*)
  /-- `InterlockedPushEntrySList`. -/
  | push (entry : E)
  /-- `InterlockedPopEntrySList`. -/
  | pop
  /-- `InterlockedFlushSList`. -/
  | flush
  deriving DecidableEq

/-- A call. -/
inductive Operation (E : Type*)
  /-- One that changes the list. -/
  | change (change : Change E)
  /-- `QueryDepthSList`. -/
  | queryDepth
  deriving DecidableEq

/-- What a call returns. -/
inductive Result (E : Type*)
  /-- A pointer to an entry. -/
  | entry (entry : Option E)
  /-- A number of entries. -/
  | depth (depth : UInt16)
  deriving DecidableEq

/-- The shared memory, with what is known of the run. -/
structure Shared (E : Type*) where
  /-- `*ListHead`. -/
  header : Header E
  /-- The field `Next` of each entry. -/
  next : E → Option E
  /-- The entries that the callers hold. -/
  owned : E → Bool
  /-- The entries that have been pushed and not been taken off, the latest first. -/
  entries : List E
  /-- How often the word has been exchanged. -/
  exchanges : ℕ
  /-- The calls and returns so far. -/
  history : List (Event (Operation E) (Result E))

/-- What a machine of 32 bits loads at a time. -/
inductive Part
  /-- `s.Next`. -/
  | next
  /-- `s.Depth` and `s.Sequence`. -/
  | rest
  deriving DecidableEq

/-- One part of the header, when it has been loaded. The number of exchanges at that moment is not
known to the code. -/
inductive Loaded (E : Type*)
  /-- `s.Next`. -/
  | next (next : Option E)
  /-- `s.Depth` and `s.Sequence`. -/
  | rest (depth sequence : UInt16) (seen : ℕ)
  deriving DecidableEq

/-- Where a thread stands, with its local variables. Of `newHeader` it is `next` that is kept, the
rest being computed from `old`. -/
inductive Local (E : Type*)
  /-- Outside. -/
  | idle
  /-- At `QueryDepthSList`, called by a flush or by the caller. -/
  | depth (start : ℕ) (flush : Bool)
  /-- At `old = *ListHead`, of which one part may have been loaded. -/
  | load (start : ℕ) (change : Change E) (loaded : Option (Loaded E))
  /-- In a push, at `ListEntry->Next = old.s.Next.Next`. -/
  | store (start : ℕ) (entry : E) (old : Header E) (seen : ℕ)
  /-- In a pop, at `entry->Next`. -/
  | read (start : ℕ) (entry : E) (old : Header E) (seen : ℕ)
  /-- At `InterlockedCompareExchange64`. -/
  | exchange (start : ℕ) (change : Change E) (old : Header E) (next : Option E) (seen : ℕ)
  /-- At the `return`. -/
  | done (start : ℕ) (result : Result E)
  deriving DecidableEq

/-- What the environment chooses at a step. -/
inductive Choice (E : Type*)
  /-- Call a function. -/
  | call (op : Operation E)
  /-- Let the call go on, with this part of the header if both are to be loaded. -/
  | go (part : Part)
  /-- Write to the field `Next` of an entry that the callers hold. -/
  | write (entry : E) (value : Option E)
  deriving DecidableEq

variable {ι E : Type*}

/-- `InitializeSListHead`. -/
def initializeSListHead (_ : Header E) : Header E := ⟨none, 0, 0⟩

/-- The local `newHeader` when it is filled in. A flush begins with `newHeader.Alignment = 0`. -/
def Change.newHeader (change : Change E) (old : Header E) (next : Option E) : Header E :=
  match change with
  | .push entry => ⟨some entry, old.depth + 1, old.sequence + 1⟩
  | .pop => ⟨next, old.depth - 1, old.sequence + 1⟩
  | .flush => ⟨none, 0, old.sequence + 1⟩

/-- What is done with `old` once it has been loaded. -/
def Change.afterLoad (change : Change E) (k : ℕ) (old : Header E) (seen : ℕ) : Local E :=
  match change with
  | .push entry => .store k entry old seen
  | .pop =>
    match old.next with
    | none => .done k (.entry none)
    | some entry => .read k entry old seen
  | .flush => .exchange k .flush old none seen

section Step

variable [DecidableEq E]

/-- `InterlockedCompareExchange64` on `ListHead->Alignment`. -/
def compareExchange64 (h exchange comperand : Header E) : Header E × Header E :=
  interlockedCompareExchange h exchange comperand

/-- The memory after an exchange, by which `next` has become the first entry. A pop gives its entry
to the callers, a flush all of them. -/
def Shared.exchanged (s : Shared E) (change : Change E) (old header : Header E) : Shared E :=
  let s := { s with header := header, exchanges := s.exchanges + 1 }
  match change with
  | .push entry => { s with entries := entry :: s.entries }
  | .pop => { s with
      entries := s.entries.tail, owned := fun e => s.owned e || decide (old.next = some e) }
  | .flush => { s with entries := [], owned := fun e => s.owned e || decide (e ∈ s.entries) }

/-- A push takes its entry from the callers. -/
def Shared.called (s : Shared E) (op : Operation E) : Option (Shared E) :=
  let s := { s with history := s.history ++ [.call op] }
  match op with
  | .change (.push entry) =>
    if s.owned entry then some { s with owned := Function.update s.owned entry false } else none
  | _ => some s

/-- Where a call begins. -/
def Operation.enter (op : Operation E) (k : ℕ) : Local E :=
  match op with
  | .change .flush => .depth k true
  | .change ch => .load k ch none
  | .queryDepth => .depth k false

/-- **One step of a thread.** -/
def sListStep (_ : ι) (a : Choice E) (s : Shared E) (l : Local E) : Option (Shared E × Local E) :=
  match l, a with
  | .idle, .call op => (s.called op).map fun s' => (s', op.enter s.history.length)
  | .idle, .write entry value =>
    if s.owned entry then some ({ s with next := Function.update s.next entry value }, .idle)
    else none
  | .depth k false, .go _ => some (s, .done k (.depth s.header.depth))
  | .depth k true, .go _ =>
    some (s, if s.header.depth = 0 then .done k (.entry none) else .load k .flush none)
  | .load k change none, .go .next => some (s, .load k change (some (.next s.header.next)))
  | .load k change none, .go .rest =>
    some (s, .load k change (some (.rest s.header.depth s.header.sequence s.exchanges)))
  | .load k change (some (.next next)), .go _ =>
    some (s, change.afterLoad k ⟨next, s.header.depth, s.header.sequence⟩ s.exchanges)
  | .load k change (some (.rest depth sequence seen)), .go _ =>
    some (s, change.afterLoad k ⟨s.header.next, depth, sequence⟩ seen)
  | .store k entry old seen, .go _ =>
    some ({ s with next := Function.update s.next entry old.next },
      .exchange k (.push entry) old none seen)
  | .read k entry old seen, .go _ => some (s, .exchange k .pop old (s.next entry) seen)
  | .exchange k change old next _, .go _ =>
    let r := compareExchange64 s.header (change.newHeader old next) old
    if r.2 ≠ old then some ({ s with header := r.1 }, .load k change none)
    else some (s.exchanged change old r.1, .done k (.entry old.next))
  | .done k result, .go _ =>
    some ({ s with history := s.history ++ [.ret k result] }, .idle)
  | _, _ => none

end Step

/-- The start: an initialised header, all the entries in the hands of the callers. -/
def start (ι : Type*) (h : Header E) (next : E → Option E) : Config ι (Shared E) (Local E) where
  shared := ⟨initializeSListHead h, next, fun _ => true, [], 0, []⟩
  locals := fun _ => .idle

/-! ### What the calls promise -/

/-- **A stack**, the latest entry first. -/
def stack (op : Operation E) (entries : List E) : List E × Result E :=
  match op with
  | .change (.push entry) => (entry :: entries, .entry entries.head?)
  | .change .pop => (entries.tail, .entry entries.head?)
  | .change .flush => ([], .entry entries.head?)
  | .queryDepth => (entries, .depth (UInt16.ofNat entries.length))

/-- The links of the entries, each of which has its field. -/
def Shared.links (s : Shared E) : E → Option (Option E) := fun e => some (s.next e)

/-- **The header says what is on the list**: following the links from it one comes to the entries,
and they are counted. -/
structure Holds (s : Shared E) : Prop where
  /-- The chain. -/
  path : Path s.links s.header.next s.entries none
  /-- The entries are counted, modulo 65536. -/
  depth : s.header.depth = UInt16.ofNat s.entries.length
  /-- So are the exchanges. -/
  sequence : s.header.sequence = UInt16.ofNat s.exchanges

/-- **The step is in time**: fewer than `n` exchanges have been made since `Sequence` was loaded,
and a flush that asks for the depth finds fewer than 65536 entries. -/
def Local.InTime (n : ℕ) (s : Shared E) : Local E → Prop
  | .exchange _ _ _ _ seen => s.exchanges < seen + n
  | .depth _ true => s.entries.length < 65536
  | _ => True

instance decidableInTime (n : ℕ) (s : Shared E) : (l : Local E) → Decidable (l.InTime n s)
  | .exchange _ _ _ _ seen => inferInstanceAs (Decidable (s.exchanges < seen + n))
  | .depth _ true => inferInstanceAs (Decidable (s.entries.length < 65536))
  | .depth _ false | .idle | .load _ _ _ | .store _ _ _ _ | .read _ _ _ _ | .done _ _ =>
    inferInstanceAs (Decidable True)

/-- The condition on a step, which is about the thread that moves. -/
def InTime (n : ℕ) (c : Config ι (Shared E) (Local E)) (e : ι × Choice E) : Prop :=
  (c.locals e.1).InTime n c.shared

instance (n : ℕ) (c : Config ι (Shared E) (Local E)) (e : ι × Choice E) :
    Decidable (InTime n c e) :=
  inferInstanceAs (Decidable ((c.locals e.1).InTime n c.shared))

/-- The condition on a step of a thread that is alone. -/
def AloneInTime (p : Shared E × Local E) (_ : Choice E) : Prop := p.2.InTime 65536 p.1

/-! ### What a step does -/

variable [DecidableEq E]

/-- **What a step may be.** -/
inductive Step : Shared E → Local E → Shared E → Local E → Prop
  /-- A call begins. -/
  | call {s s' : Shared E} (op : Operation E) (h : s.called op = some s') :
      Step s .idle s' (op.enter s.history.length)
  /-- A caller writes to an entry. -/
  | write (s : Shared E) {entry : E} (value : Option E) (h : s.owned entry = true) :
      Step s .idle { s with next := Function.update s.next entry value } .idle
  /-- The caller is told the depth. -/
  | queryDepth (s : Shared E) (k : ℕ) : Step s (.depth k false) s (.done k (.depth s.header.depth))
  /-- A flush finds that there is nothing to take. -/
  | flushNone {s : Shared E} (k : ℕ) (h : s.header.depth = 0) :
      Step s (.depth k true) s (.done k (.entry none))
  /-- A flush finds that there is something. -/
  | flushSome {s : Shared E} (k : ℕ) (h : s.header.depth ≠ 0) :
      Step s (.depth k true) s (.load k .flush none)
  /-- `Next` is loaded first. -/
  | nextFirst (s : Shared E) (k : ℕ) (ch : Change E) :
      Step s (.load k ch none) s (.load k ch (some (.next s.header.next)))
  /-- `Depth` and `Sequence` are loaded first. -/
  | restFirst (s : Shared E) (k : ℕ) (ch : Change E) : Step s (.load k ch none) s
      (.load k ch (some (.rest s.header.depth s.header.sequence s.exchanges)))
  /-- `Depth` and `Sequence` are loaded last. -/
  | restLast (s : Shared E) (k : ℕ) (ch : Change E) (next : Option E) :
      Step s (.load k ch (some (.next next))) s
        (ch.afterLoad k ⟨next, s.header.depth, s.header.sequence⟩ s.exchanges)
  /-- `Next` is loaded last. -/
  | nextLast (s : Shared E) (k : ℕ) (ch : Change E) (depth sequence : UInt16) (seen : ℕ) :
      Step s (.load k ch (some (.rest depth sequence seen))) s
        (ch.afterLoad k ⟨s.header.next, depth, sequence⟩ seen)
  /-- A push links its entry. -/
  | store (s : Shared E) (k : ℕ) (entry : E) (old : Header E) (seen : ℕ) :
      Step s (.store k entry old seen) { s with next := Function.update s.next entry old.next }
        (.exchange k (.push entry) old none seen)
  /-- A pop reads the link of its entry. -/
  | read (s : Shared E) (k : ℕ) (entry : E) (old : Header E) (seen : ℕ) :
      Step s (.read k entry old seen) s (.exchange k .pop old (s.next entry) seen)
  /-- The header is not what has been loaded. -/
  | fail {s : Shared E} (k : ℕ) (ch : Change E) {old : Header E} (next : Option E) (seen : ℕ)
      (h : s.header ≠ old) : Step s (.exchange k ch old next seen) s (.load k ch none)
  /-- The header is exchanged. -/
  | exchange (s : Shared E) (k : ℕ) (ch : Change E) (next : Option E) (seen : ℕ) :
      Step s (.exchange k ch s.header next seen)
        (s.exchanged ch s.header (ch.newHeader s.header next)) (.done k (.entry s.header.next))
  /-- A call returns. -/
  | ret (s : Shared E) (k : ℕ) (result : Result E) :
      Step s (.done k result) { s with history := s.history ++ [.ret k result] } .idle

theorem step_of_sListStep {i : ι} {a : Choice E} {s s' : Shared E} {l l' : Local E}
    (h : sListStep i a s l = some (s', l')) : Step s l s' l' := by
  unfold sListStep at h
  split at h
  case h_1 op =>
    obtain ⟨t, ht, heq⟩ := Option.map_eq_some_iff.mp h
    cases heq
    exact .call op ht
  case h_2 entry value =>
    split at h
    case isTrue howned =>
      cases h
      exact .write s value howned
    case isFalse => cases h
  case h_4 k _ =>
    obtain ⟨rfl, rfl⟩ := Prod.mk.inj (Option.some.inj h)
    split
    case isTrue h0 => exact .flushNone k h0
    case isFalse hne => exact .flushSome k hne
  case h_11 k ch old next seen _ =>
    dsimp only [compareExchange64, interlockedCompareExchange] at h
    split at h
    case isTrue hne =>
      cases h
      exact .fail k ch next seen hne
    case isFalse heq =>
      obtain rfl : s.header = old := not_not.mp heq
      rw [if_pos rfl] at h
      cases h
      exact .exchange s k ch next seen
  case h_13 => cases h
  all_goals cases h; constructor

/-! ### The invariant -/

omit [DecidableEq E]

/-- The entry that is pushed. -/
def Change.pushed : Change E → Option E
  | .push entry => some entry
  | .pop | .flush => none

/-- The entry that a thread is pushing. -/
def Local.pushing : Local E → Option E
  | .load _ ch _ | .exchange _ ch _ _ _ => ch.pushed
  | .store _ entry _ _ => some entry
  | _ => none

/-- The sequence number that a thread has loaded, and how often the word had been exchanged. -/
def Local.sequence : Local E → Option (UInt16 × ℕ)
  | .load _ _ (some (.rest _ sequence seen)) => some (sequence, seen)
  | .store _ _ old seen | .read _ _ old seen | .exchange _ _ old _ seen => some (old.sequence, seen)
  | _ => none

/-- What a thread has done with the link of its entry: a push has stored it, and a pop has read it,
which holds as long as there is no exchange. -/
def Local.Linked (s : Shared E) : Local E → Prop
  | .read _ entry old _ => old.next = some entry
  | .exchange _ (.push entry) old _ _ => s.next entry = old.next
  | .exchange _ .pop old next seen => ∃ entry, old.next = some entry ∧
      (s.exchanges = seen → s.header.next = some entry → s.next entry = next)
  | _ => True

/-- **What a thread knows** of the memory where it stands. -/
structure Knows (s : Shared E) (l : Local E) : Prop where
  /-- The entry that it is pushing is nowhere else. -/
  pushing : ∀ e, l.pushing = some e → s.owned e = false ∧ e ∉ s.entries
  /-- The sequence number was that of an earlier moment. -/
  sequence : ∀ q seen, l.sequence = some (q, seen) → seen ≤ s.exchanges ∧ q = UInt16.ofNat seen
  /-- The link of its entry. -/
  linked : l.Linked s

/-- **The invariant**: the header says what is on the list, and each entry is in one place – in the
hands of the callers, on the list, or being pushed by one thread. -/
structure Inv (c : Config ι (Shared E) (Local E)) : Prop where
  /-- The header. -/
  holds : Holds c.shared
  /-- The callers do not hold what is on the list. -/
  onList : ∀ e ∈ c.shared.entries, c.shared.owned e = false
  /-- The threads. -/
  knows : ∀ i, Knows c.shared (c.locals i)
  /-- They push different entries. -/
  apart : ∀ i j e, (c.locals i).pushing = some e → (c.locals j).pushing = some e → i = j

section Kept

variable {s s' : Shared E} {l l' : Local E} {e : E}

theorem Holds.entries_eq_nil (h : Holds s) (hnone : s.header.next = none) : s.entries = [] := by
  have hpath := h.path
  rw [hnone] at hpath
  exact hpath.unique (rfl : Path s.links none [] none)

theorem Holds.head?_entries (h : Holds s) : s.entries.head? = s.header.next := by
  have hpath := h.path
  cases hentries : s.entries with
  | nil =>
    rw [hentries] at hpath
    exact hpath.symm
  | cons e es =>
    rw [hentries] at hpath
    exact hpath.1.symm

/-- What is on the list determines the header. -/
theorem Holds.header_eq (h : Holds s) : s.header =
    ⟨s.entries.head?, UInt16.ofNat s.entries.length, UInt16.ofNat s.exchanges⟩ := by
  rw [h.head?_entries, ← h.depth, ← h.sequence]

/-- **What a step does to the memory for the others**: as long as there is no exchange, the header
and the entries on the list are not touched. -/
structure Frame (s s' : Shared E) : Prop where
  /-- Exchanges are counted. -/
  le : s.exchanges ≤ s'.exchanges
  /-- Without one. -/
  same : s'.exchanges = s.exchanges →
    s'.header = s.header ∧ ∀ e ∈ s.entries, s'.next e = s.next e

/-- What a thread knows is not changed by the steps of the others. -/
theorem Knows.frame (h : Knows s l) (hholds : Holds s) (hframe : Frame s s')
    (hpushing : ∀ e, l.pushing = some e →
      s'.owned e = false ∧ e ∉ s'.entries ∧ s'.next e = s.next e) : Knows s' l := by
  refine ⟨fun e he => ⟨(hpushing e he).1, (hpushing e he).2.1⟩, fun q seen hq => ?_, ?_⟩
  · obtain ⟨hle, heq⟩ := h.sequence q seen hq
    exact ⟨hle.trans hframe.le, heq⟩
  · have hlinked := h.linked
    unfold Local.Linked at hlinked ⊢
    split
    case h_1 => exact hlinked
    case h_2 entry old _ _ => exact (hpushing entry rfl).2.2.trans hlinked
    case h_3 k old next seen =>
      obtain ⟨entry, hold, hread⟩ := hlinked
      refine ⟨entry, hold, fun hseen hnext => ?_⟩
      have hle := (h.sequence old.sequence seen rfl).1
      have hsame : s'.exchanges = s.exchanges := le_antisymm (hseen.trans_le hle) hframe.le
      obtain ⟨hheader, hkept⟩ := hframe.same hsame
      rw [hheader] at hnext
      have hmem : entry ∈ s.entries :=
        List.mem_of_mem_head? (Option.mem_def.mpr (hholds.head?_entries.trans hnext))
      rw [hkept entry hmem]
      exact hread (hsame ▸ hseen) hnext
    case h_4 => trivial

end Kept

/-! ### One step -/

section Moves

variable [DecidableEq ι] {c : Config ι (Shared E) (Local E)} {i : ι} {s : Shared E} {l : Local E}
  {entry : E} {k seen : ℕ} {next : Option E}

omit [DecidableEq ι] in
theorem Inv.held (h : Inv c) {j : ι} {e : E} (hj : (c.locals j).pushing = some e) :
    c.shared.owned e = false ∧ e ∉ c.shared.entries := (h.knows j).pushing e hj

/-- **The frame rule**: a step that keeps what is said of the memory, and leaves alone the entries
that the other threads are pushing, keeps the invariant. -/
theorem Inv.move (h : Inv c) (hholds : Holds s) (honList : ∀ e ∈ s.entries, s.owned e = false)
    (hl : Knows s l) (hframe : Frame c.shared s)
    (hothers : ∀ j, j ≠ i → ∀ e, (c.locals j).pushing = some e →
      s.owned e = false ∧ e ∉ s.entries ∧ s.next e = c.shared.next e)
    (hapart : ∀ e, l.pushing = some e → ∀ j, j ≠ i → (c.locals j).pushing ≠ some e) :
    Inv (c.move i s l) := by
  refine ⟨hholds, honList, ?_, ?_⟩
  · exact Config.forall_move hl fun j hj => (h.knows j).frame h.holds hframe (hothers j hj)
  · intro j k e hj hk
    rcases eq_or_ne j i with rfl | hji
    · rcases eq_or_ne k j with rfl | hkj
      · rfl
      · rw [Config.move_self] at hj
        rw [Config.move_of_ne _ _ _ hkj] at hk
        exact absurd hk (hapart e hj k hkj)
    · rw [Config.move_of_ne _ _ _ hji] at hj
      rcases eq_or_ne k i with rfl | hki
      · rw [Config.move_self] at hk
        exact absurd hj (hapart e hk j hji)
      · rw [Config.move_of_ne _ _ _ hki] at hk
        exact h.apart j k e hj hk

/-- A step that leaves the memory as it is. -/
theorem Inv.quiet (h : Inv c) (history : List (Event (Operation E) (Result E)))
    (hl : Knows c.shared l) (hpushing : ∀ e, l.pushing = some e → (c.locals i).pushing = some e) :
    Inv (c.move i { c.shared with history := history } l) := by
  have hframe : Frame c.shared { c.shared with history := history } :=
    ⟨le_rfl, fun _ => ⟨rfl, fun _ _ => rfl⟩⟩
  have hknows : Knows { c.shared with history := history } l :=
    hl.frame h.holds hframe fun e he => ⟨(hl.pushing e he).1, (hl.pushing e he).2, rfl⟩
  refine h.move ⟨h.holds.path, h.holds.depth, h.holds.sequence⟩ h.onList hknows hframe
    (fun j _ e he => ⟨(h.held he).1, (h.held he).2, rfl⟩) fun e he j hj hje => ?_
  exact hj (h.apart j i e hje (hpushing e he))

/-- A call to push takes the entry from the callers. -/
theorem Inv.push_call [DecidableEq E] (h : Inv c) (howned : c.shared.owned entry = true)
    (history : List (Event (Operation E) (Result E))) :
    Inv (c.move i { c.shared with
      history := history, owned := Function.update c.shared.owned entry false }
      (.load k (.push entry) none)) := by
  have hne : ∀ e, c.shared.owned e = false → e ≠ entry := by
    rintro e he rfl
    exact Bool.false_ne_true (he.symm.trans howned)
  refine h.move ⟨h.holds.path, h.holds.depth, h.holds.sequence⟩ (fun e he => ?_)
    ⟨fun e he => ?_, nofun, trivial⟩ ⟨le_rfl, fun _ => ⟨rfl, fun _ _ => rfl⟩⟩
    (fun j _ e he => ⟨?_, (h.held he).2, rfl⟩) fun e he j _ hje => ?_
  · exact (Function.update_of_ne (hne e (h.onList e he)) ..).trans (h.onList e he)
  · obtain rfl := Option.some.inj he
    exact ⟨Function.update_self .., fun hmem => hne entry (h.onList entry hmem) rfl⟩
  · exact (Function.update_of_ne (hne e (h.held he).1) ..).trans (h.held he).1
  · obtain rfl := Option.some.inj he
    exact hne entry (h.held hje).1 rfl

/-- The field `Next` is written of an entry that is not on the list, and that no other thread is
pushing. -/
theorem Inv.link [DecidableEq E] (h : Inv c) (value : Option E) (hoff : entry ∉ c.shared.entries)
    (halone : ∀ j, j ≠ i → (c.locals j).pushing ≠ some entry)
    (hl : Knows { c.shared with next := Function.update c.shared.next entry value } l)
    (hpushing : ∀ e, l.pushing = some e → (c.locals i).pushing = some e) :
    Inv (c.move i { c.shared with next := Function.update c.shared.next entry value } l) := by
  have hkept : ∀ e ∈ c.shared.entries,
      Function.update c.shared.next entry value e = c.shared.next e := by
    intro e he
    refine Function.update_of_ne ?_ ..
    rintro rfl
    exact hoff he
  refine h.move ⟨h.holds.path.congr fun e he => congrArg some (hkept e he), h.holds.depth,
    h.holds.sequence⟩ h.onList hl ⟨le_rfl, fun _ => ⟨rfl, hkept⟩⟩
    (fun j hj e he => ⟨(h.held he).1, (h.held he).2, Function.update_of_ne ?_ ..⟩)
    fun e he j hj hje => ?_
  · rintro rfl
    exact halone j hj he
  · exact hj (h.apart j i e hje (hpushing e he))

/-- The header is exchanged. -/
theorem Inv.exchange (h : Inv c) {header : Header E} {entries : List E} {owned : E → Bool}
    {result : Result E} (hpath : Path c.shared.links header.next entries none)
    (hdepth : header.depth = UInt16.ofNat entries.length)
    (hsequence : header.sequence = c.shared.header.sequence + 1)
    (honList : ∀ e ∈ entries, owned e = false)
    (hothers : ∀ j, j ≠ i → ∀ e, (c.locals j).pushing = some e → owned e = false ∧ e ∉ entries) :
    Inv (c.move i { c.shared with
      header := header, exchanges := c.shared.exchanges + 1, entries := entries, owned := owned }
      (.done k result)) := by
  have hnext : header.sequence = UInt16.ofNat (c.shared.exchanges + 1) := by
    rw [hsequence, h.holds.sequence, UInt16.ofNat_add]
    rfl
  exact h.move ⟨hpath, hdepth, hnext⟩ honList ⟨nofun, nofun, trivial⟩
    ⟨Nat.le_succ _, fun hsame => absurd hsame (Nat.succ_ne_self _)⟩
    (fun j hj e he => ⟨(hothers j hj e he).1, (hothers j hj e he).2, rfl⟩) nofun

omit [DecidableEq ι] in
/-- **In time the numbers are different**: with the sequence number as it was loaded, and fewer than
65536 exchanges since then, there have been none. -/
theorem Inv.exchanges_eq (h : Inv c) {ch : Change E}
    (hi : c.locals i = .exchange k ch c.shared.header next seen)
    (htime : c.shared.exchanges < seen + 65536) : c.shared.exchanges = seen := by
  have hknows := h.knows i
  rw [hi] at hknows
  obtain ⟨hle, heq⟩ := hknows.sequence _ seen rfl
  have hnumbers := congrArg UInt16.toNat (h.holds.sequence.symm.trans heq)
  rw [UInt16.toNat_ofNat', UInt16.toNat_ofNat'] at hnumbers
  omega

/-- **An exchange that is in time** does to the list what the call is to do. -/
theorem Inv.exchanged [DecidableEq E] (h : Inv c) {ch : Change E}
    (hi : c.locals i = .exchange k ch c.shared.header next seen)
    (htime : c.shared.exchanges < seen + 65536) :
    Inv (c.move i (c.shared.exchanged ch c.shared.header (ch.newHeader c.shared.header next))
      (.done k (.entry c.shared.header.next))) := by
  have hseen := h.exchanges_eq hi htime
  have hknows := h.knows i
  rw [hi] at hknows
  cases ch with
  | push entry =>
    obtain ⟨hpushing, -, hlinked⟩ := hknows
    obtain ⟨ho, hoff⟩ := hpushing entry rfl
    refine h.exchange ⟨rfl, _, congrArg some hlinked, h.holds.path⟩ ?_ rfl (fun e he => ?_)
      fun j hj e he => ⟨(h.held he).1, fun hmem => ?_⟩
    · rw [List.length_cons, UInt16.ofNat_add, ← h.holds.depth]
      rfl
    · rcases List.mem_cons.mp he with rfl | he
      · exact ho
      · exact h.onList e he
    · rcases List.mem_cons.mp hmem with rfl | hmem
      · exact hj (h.apart j i e he (by rw [hi]; rfl))
      · exact (h.held he).2 hmem
  | pop =>
    obtain ⟨-, -, entry, hnext, hread⟩ := hknows
    have hpath := h.holds.path
    rw [hnext] at hpath
    obtain ⟨es, hes⟩ := hpath.eq_cons
    rw [hes] at hpath
    have hnodup := List.nodup_cons.mp hpath.nodup
    obtain ⟨-, r, hr, htail⟩ := hpath
    -- the entry has been in front all the time, and its link is still the one that was read
    obtain rfl : next = r := (hread hseen hnext).symm.trans (Option.some.inj hr)
    have howned : ∀ e, c.shared.owned e = false → e ≠ entry →
        (c.shared.owned e || decide (c.shared.header.next = some e)) = false := by
      intro e he hne
      rw [he, hnext, Bool.false_or, decide_eq_false_iff_not]
      exact fun heq => hne (Option.some.inj heq).symm
    refine h.exchange ?_ ?_ rfl (fun e he => ?_) fun j hj e he => ⟨?_, fun hmem => ?_⟩
    · rw [hes]
      exact htail
    · rw [hes, List.tail_cons]
      change c.shared.header.depth - 1 = _
      rw [h.holds.depth, hes, List.length_cons, UInt16.ofNat_add]
      exact UInt16.add_sub_cancel ..
    · rw [hes, List.tail_cons] at he
      refine howned e (h.onList e (hes ▸ List.mem_cons_of_mem entry he)) ?_
      rintro rfl
      exact hnodup.1 he
    · refine howned e (h.held he).1 ?_
      rintro rfl
      exact (h.held he).2 (hes ▸ List.mem_cons_self)
    · exact (h.held he).2 (List.mem_of_mem_tail hmem)
  | flush =>
    refine h.exchange rfl rfl rfl nofun fun j hj e he => ⟨?_, List.not_mem_nil⟩
    change (c.shared.owned e || decide (e ∈ c.shared.entries)) = false
    rw [(h.held he).1, decide_eq_false (h.held he).2, Bool.false_or]

variable {l₀ : Local E}

/-- A call begins. -/
theorem Inv.call [DecidableEq E] (h : Inv c) {op : Operation E}
    (hcall : c.shared.called op = some s) :
    Inv (c.move i s (op.enter c.shared.history.length)) := by
  cases op with
  | change ch =>
    cases ch with
    | push entry =>
      rw [Shared.called] at hcall
      split at hcall
      case isTrue howned =>
        cases hcall
        exact h.push_call howned _
      case isFalse => cases hcall
    | pop | flush =>
      cases hcall
      exact h.quiet _ ⟨nofun, nofun, trivial⟩ nofun
  | queryDepth =>
    cases hcall
    exact h.quiet _ ⟨nofun, nofun, trivial⟩ nofun

/-- What a thread knows when the header has been loaded. -/
theorem Inv.afterLoad (h : Inv c) {ch : Change E} {loaded : Option (Loaded E)}
    (hi : c.locals i = .load k ch loaded) {old : Header E} (hle : seen ≤ c.shared.exchanges)
    (hold : old.sequence = UInt16.ofNat seen) :
    Inv (c.move i c.shared (ch.afterLoad k old seen)) := by
  have hpushing : ∀ e, ch.pushed = some e → (c.locals i).pushing = some e := fun e he => by
    rw [hi]
    exact he
  have hsequence : ∀ (q : UInt16) (n : ℕ), some (old.sequence, seen) = some (q, n) →
      n ≤ c.shared.exchanges ∧ q = UInt16.ofNat n := by
    intro q n hq
    cases hq
    exact ⟨hle, hold⟩
  cases ch with
  | push entry =>
    refine h.quiet _ ⟨fun e he => h.held (hpushing e he), hsequence, trivial⟩ hpushing
  | pop =>
    obtain ⟨next, depth, sequence⟩ := old
    cases next with
    | none => exact h.quiet _ ⟨nofun, nofun, trivial⟩ nofun
    | some entry => exact h.quiet _ ⟨nofun, hsequence, rfl⟩ nofun
  | flush => exact h.quiet _ ⟨nofun, hsequence, trivial⟩ nofun

/-- **The invariant is kept by every step that is in time.** -/
theorem Inv.step [DecidableEq E] (h : Inv c) (hi : c.locals i = l₀)
    (hok : l₀.InTime 65536 c.shared) (hs : Step c.shared l₀ s l) : Inv (c.move i s l) := by
  have hknows := h.knows i
  rw [hi] at hknows
  cases hs with
  | call op hcall => exact h.call hcall
  | write value howned =>
    refine h.link value (fun hmem => ?_) (fun j _ hj => ?_) ⟨nofun, nofun, trivial⟩ nofun
    · exact Bool.false_ne_true ((h.onList _ hmem).symm.trans howned)
    · exact Bool.false_ne_true ((h.held hj).1.symm.trans howned)
  | queryDepth k => exact h.quiet _ ⟨nofun, nofun, trivial⟩ nofun
  | flushNone k => exact h.quiet _ ⟨nofun, nofun, trivial⟩ nofun
  | flushSome k => exact h.quiet _ ⟨nofun, nofun, trivial⟩ nofun
  | nextFirst k ch =>
    exact h.quiet _ ⟨hknows.pushing, nofun, trivial⟩ fun e he => by rw [hi]; exact he
  | restFirst k ch =>
    refine h.quiet _ ⟨hknows.pushing, fun q seen hq => ?_, trivial⟩ fun e he => by rw [hi]; exact he
    cases hq
    exact ⟨le_rfl, h.holds.sequence⟩
  | restLast k ch next => exact h.afterLoad hi le_rfl h.holds.sequence
  | nextLast k ch depth sequence seen =>
    obtain ⟨hle, hseen⟩ := hknows.sequence sequence seen rfl
    exact h.afterLoad hi hle hseen
  | store k entry old seen =>
    have hpushing : (c.locals i).pushing = some entry := by
      rw [hi]
      rfl
    refine h.link _ (h.held hpushing).2 (fun j hj hje => hj (h.apart j i entry hje hpushing))
      ⟨fun e he => ?_, hknows.sequence, Function.update_self ..⟩ fun e he => hpushing.trans he
    obtain rfl := Option.some.inj he
    exact h.held hpushing
  | read k entry old seen =>
    exact h.quiet _ ⟨nofun, hknows.sequence, entry, hknows.linked, fun _ _ => rfl⟩ nofun
  | fail k ch next seen =>
    exact h.quiet _ ⟨hknows.pushing, nofun, trivial⟩ fun e he => by rw [hi]; exact he
  | exchange k ch next seen => exact h.exchanged hi hok
  | ret k result => exact h.quiet _ ⟨nofun, nofun, trivial⟩ nofun

/-- **The invariant is kept by every run that is in time.** -/
theorem Inv.run [DecidableEq E] {c' : Config ι (Shared E) (Local E)} (h : Inv c)
    (hreach : ReachesIf (threadStep sListStep) (InTime 65536) c c') : Inv c' :=
  invariant hreach h fun _ _ _ _ _ hd hok hn => hd.step rfl hok (step_of_sListStep hn)

end Moves

theorem inv_start (h : Header E) (next : E → Option E) : Inv (start ι h next) where
  holds := ⟨rfl, rfl, rfl⟩
  onList := nofun
  knows _ := ⟨nofun, nofun, trivial⟩
  apart := nofun

/-! ### Each call is a call of a stack -/

/-- The stack, and the history. -/
def Shared.object (s : Shared E) : Object (List E) (Operation E) (Result E) :=
  ⟨s.entries, s.history⟩

/-- Where a thread stands in the call of the stack. A pop that has found no entry has had its
effect, though it may still have to load the rest of the header. -/
def Local.phase : Local E → Phase (Operation E) (Result E)
  | .idle => .idle
  | .depth k true => .pending k (.change .flush)
  | .depth k false => .pending k .queryDepth
  | .load k .pop (some (.next none)) => .applied k (.entry none)
  | .load k ch _ => .pending k (.change ch)
  | .store k entry _ _ => .pending k (.change (.push entry))
  | .read k _ _ _ => .pending k (.change .pop)
  | .exchange k ch _ _ _ => .pending k (.change ch)
  | .done k result => .applied k result

section Atomic

variable [DecidableEq E] {s s' : Shared E} {l l' : Local E} {i : ι}

/-- **Each step is a step of the stack**, or is none that it can see. -/
theorem Step.atomic (hholds : Holds s) (hok : l.InTime 65536 s) (hs : Step s l s' l') :
    (∃ b, atomicStep stack i b s.object l.phase = some (s'.object, l'.phase)) ∨
      s'.object = s.object ∧ l'.phase = l.phase := by
  -- a pop that finds no entry
  have hpop : ∀ k, s.header.next = none →
      atomicStep stack i .go s.object (.pending k (.change .pop)) =
        some (s.object, .applied k (.entry none)) := by
    intro k hnone
    simp only [atomicStep, stack, Shared.object, hholds.entries_eq_nil hnone, List.tail_nil,
      List.head?_nil]
  cases hs with
  | call op hcall =>
    refine .inl ⟨.call op, ?_⟩
    cases op with
    | change ch =>
      cases ch with
      | push entry =>
        rw [Shared.called] at hcall
        split at hcall
        case isTrue =>
          cases hcall
          rfl
        case isFalse => cases hcall
      | pop | flush =>
        cases hcall
        rfl
    | queryDepth =>
      cases hcall
      rfl
  | write value => exact .inr ⟨rfl, rfl⟩
  | queryDepth k =>
    refine .inl ⟨.go, ?_⟩
    rw [hholds.depth]
    rfl
  | flushNone k h0 =>
    -- the depth is that of fewer than 65536 entries
    have hnil : s.entries = [] := by
      have hnumber := congrArg UInt16.toNat (hholds.depth.symm.trans h0)
      rw [UInt16.toNat_ofNat', Nat.mod_eq_of_lt hok] at hnumber
      exact List.length_eq_zero_iff.mp hnumber
    refine .inl ⟨.go, ?_⟩
    simp only [Local.phase, atomicStep, stack, Shared.object, hnil, List.head?_nil]
  | flushSome k => exact .inr ⟨rfl, rfl⟩
  | nextFirst k ch =>
    cases ch with
    | push | flush => exact .inr ⟨rfl, rfl⟩
    | pop =>
      cases hnext : s.header.next with
      | none => exact .inl ⟨.go, hpop k hnext⟩
      | some entry => exact .inr ⟨rfl, rfl⟩
  | restFirst k ch => exact .inr ⟨rfl, by cases ch <;> rfl⟩
  | restLast k ch next =>
    cases ch with
    | push | flush => exact .inr ⟨rfl, rfl⟩
    | pop => cases next <;> exact .inr ⟨rfl, rfl⟩
  | nextLast k ch depth sequence seen =>
    cases ch with
    | push | flush => exact .inr ⟨rfl, rfl⟩
    | pop =>
      cases hnext : s.header.next with
      | none => exact .inl ⟨.go, hpop k hnext⟩
      | some entry => exact .inr ⟨rfl, rfl⟩
  | store | read => exact .inr ⟨rfl, rfl⟩
  | fail k ch => exact .inr ⟨rfl, by cases ch <;> rfl⟩
  | exchange k ch next seen =>
    refine .inl ⟨.go, ?_⟩
    rw [← hholds.head?_entries]
    cases ch <;> rfl
  | ret k result => exact .inl ⟨.go, rfl⟩

end Atomic

/-- **The calls are those of a stack**, one after the other, in every run of any number of threads
in which each exchange comes before 65536 others have been made since `Sequence` was loaded, and no
flush finds 65536 entries or more. -/
theorem slist_linearizable [DecidableEq ι] [DecidableEq E] (header : Header E)
    (next : E → Option E) {c : Config ι (Shared E) (Local E)}
    (h : ReachesIf (threadStep sListStep) (InTime 65536) (start ι header next) c) :
    Holds c.shared ∧ ∃ order, IsLinearization stack [] c.shared.history c.shared.entries order ∧
      HasPoints c.shared.history order := by
  have hboth := h.and_invariant (P := Inv) (inv_start header next) fun d d' e hd hok hstep => by
    obtain ⟨s, l, hn, rfl⟩ := threadStep_eq_some.mp hstep
    exact hd.step rfl hok (step_of_sListStep hn)
  have hobject : Reaches (threadStep (atomicStep stack)) (Linear.start ι [])
      (c.map Shared.object Local.phase) := by
    refine reaches_map (f := Shared.object) (g := Local.phase) hboth.1 fun d i a s l hok hn => ?_
    exact (step_of_sListStep hn).atomic hok.2.holds hok.1
  exact ⟨hboth.2.holds, atomic_linearizable hobject⟩

/-- The whole of a call by thread `i` that nobody disturbs. -/
def callAlone (i : ι) (ch : Change E) : List (ι × Choice E) :=
  [[(i, .call (.change ch))], List.replicate 5 (i, .go .next)].flatten

/-- An empty header. -/
def emptyHeader : Header (Fin 4) := ⟨none, 0, 0⟩

/-- Thread `0` has loaded one part of the header when thread `1` pops; it starts again. -/
def popTorn : List (Fin 2 × Choice (Fin 4)) :=
  [callAlone 1 (.push 1), callAlone 1 (.push 0), [(0, .call (.change .pop)), (0, .go .rest)],
    callAlone 1 .pop, List.replicate 8 (0, .go .next), [(0, .call .queryDepth)],
    List.replicate 2 (0, .go .next)].flatten

theorem slist_linearizable_popTorn :
    ∃ c, run (threadStep sListStep) (start (Fin 2) emptyHeader fun _ => none) popTorn = some c ∧
      c.shared.history.drop 4 = [.call (.change .pop), .call (.change .pop),
        .ret 5 (.entry (some 0)), .ret 4 (.entry (some 1)), .call .queryDepth,
        .ret 8 (.depth 0)] ∧ Holds c.shared ∧
      ∃ order, IsLinearization stack [] c.shared.history [] order ∧
        HasPoints c.shared.history order := by
  have hrun : run (threadStep sListStep) (start (Fin 2) emptyHeader fun _ => none) popTorn =
      some _ := run_eq_final (by decide +kernel)
  have hempty : (final (threadStep sListStep) (start (Fin 2) emptyHeader fun _ => none)
      popTorn).shared.entries = [] := by decide +kernel
  obtain ⟨hholds, hlinear⟩ := slist_linearizable emptyHeader (fun _ => none)
    (reachesIf_of_run popTorn (by decide +kernel) hrun)
  rw [hempty] at hlinear
  exact ⟨_, hrun, by decide +kernel, hholds, hlinear⟩

/-! ### The number comes round -/

section Alone

variable [DecidableEq E] {i : ι} {s : Shared E} {e : E}

/-- The header is loaded. -/
theorem load_alone (i : ι) (s : Shared E) (k : ℕ) (ch : Change E) :
    ReachesIf (alone sListStep i) AloneInTime (s, .load k ch none)
      (s, ch.afterLoad k s.header s.exchanges) := by
  have hnext : alone sListStep i (s, .load k ch none) (.go .next) =
      some (s, .load k ch (some (.next s.header.next))) := rfl
  have hrest : alone sListStep i (s, .load k ch (some (.next s.header.next))) (.go .next) =
      some (s, ch.afterLoad k s.header s.exchanges) := rfl
  exact (ReachesIf.refl.tail trivial hnext).tail trivial hrest

/-- What has just been loaded is exchanged, and the call returns. -/
theorem exchange_alone (i : ι) (s : Shared E) (k : ℕ) (ch : Change E) (next : Option E) :
    ReachesIf (alone sListStep i) AloneInTime (s, .exchange k ch s.header next s.exchanges)
      ({ s.exchanged ch s.header (ch.newHeader s.header next) with
          history := (s.exchanged ch s.header (ch.newHeader s.header next)).history ++
            [.ret k (.entry s.header.next)] }, .idle) := by
  have hexchange : alone sListStep i (s, .exchange k ch s.header next s.exchanges) (.go .next) =
      some (s.exchanged ch s.header (ch.newHeader s.header next),
        .done k (.entry s.header.next)) := by
    simp only [alone, sListStep, compareExchange64, interlockedCompareExchange, if_true, ne_eq,
      not_true, if_false]
  have hearly : AloneInTime (s, Local.exchange k ch s.header next s.exchanges) (.go .next) :=
    Nat.lt_add_of_pos_right (by decide)
  refine (ReachesIf.refl.tail hearly hexchange).tail (e := .go .next) ?_ rfl
  trivial

/-- **A push that nobody disturbs.** -/
theorem push_alone (i : ι) (howned : s.owned e = true) :
    ∃ s' : Shared E, ReachesIf (alone sListStep i) AloneInTime (s, .idle) (s', .idle) ∧
      s'.entries = e :: s.entries ∧ s'.exchanges = s.exchanges + 1 ∧
      s'.owned = Function.update s.owned e false := by
  obtain ⟨s₁, hs₁⟩ : ∃ s₁ : Shared E, s₁ = { s with
    history := s.history ++ [.call (.change (.push e))],
    owned := Function.update s.owned e false } := ⟨_, rfl⟩
  have hcall : alone sListStep i (s, .idle) (.call (.change (.push e))) =
      some (s₁, .load s.history.length (.push e) none) := by
    simp only [alone, sListStep, Shared.called, howned, if_true, hs₁]
    rfl
  have hstore : alone sListStep i (s₁, .store s.history.length e s₁.header s₁.exchanges)
      (.go .next) = some ({ s₁ with next := Function.update s₁.next e s₁.header.next },
        .exchange s.history.length (.push e) s₁.header none s₁.exchanges) := rfl
  have hloaded : ReachesIf (alone sListStep i) AloneInTime (s, .idle) _ :=
    (ReachesIf.refl.tail trivial hcall).trans (load_alone i s₁ _ (.push e))
  refine ⟨_, (hloaded.tail trivial hstore).trans (exchange_alone i _ _ (.push e) none), ?_⟩
  rw [hs₁]
  exact ⟨rfl, rfl, rfl⟩

/-- **A pop that nobody disturbs.** -/
theorem pop_alone (i : ι) (hnext : s.header.next = some e) :
    ∃ s' : Shared E, ReachesIf (alone sListStep i) AloneInTime (s, .idle) (s', .idle) ∧
      s'.entries = s.entries.tail ∧ s'.exchanges = s.exchanges + 1 ∧
      s'.owned = fun x => s.owned x || decide (s.header.next = some x) := by
  obtain ⟨s₁, hs₁⟩ : ∃ s₁ : Shared E,
    s₁ = { s with history := s.history ++ [.call (.change .pop)] } := ⟨_, rfl⟩
  have hcall : alone sListStep i (s, .idle) (.call (.change .pop)) =
      some (s₁, .load s.history.length .pop none) := by
    rw [hs₁]
    rfl
  have hread : alone sListStep i
      (s₁, Change.pop.afterLoad s.history.length s₁.header s₁.exchanges) (.go .next) =
        some (s₁, .exchange s.history.length .pop s₁.header (s₁.next e) s₁.exchanges) := by
    have hnext₁ : s₁.header.next = some e := by
      rw [hs₁]
      exact hnext
    simp only [Change.afterLoad, hnext₁]
    rfl
  have hloaded : ReachesIf (alone sListStep i) AloneInTime (s, .idle) _ :=
    (ReachesIf.refl.tail trivial hcall).trans (load_alone i s₁ _ .pop)
  have hintime : AloneInTime (s₁, Change.pop.afterLoad s.history.length s₁.header s₁.exchanges)
      (Choice.go .next : Choice E) := by
    rw [Change.afterLoad.eq_def]
    dsimp only
    split <;> trivial
  refine ⟨_, (hloaded.tail hintime hread).trans (exchange_alone i _ _ .pop _), ?_⟩
  rw [hs₁]
  exact ⟨rfl, rfl, rfl⟩

variable [DecidableEq ι] {c : Config ι (Shared E) (Local E)}

/-- A call that nobody disturbs, among the other threads. -/
theorem Inv.of_alone (h : Inv c) (hi : c.locals i = .idle)
    (hrun : ReachesIf (alone sListStep i) AloneInTime (c.shared, .idle) (s, .idle)) :
    ReachesIf (threadStep sListStep) (InTime 65536) c (c.move i s .idle) ∧
      (c.move i s .idle).locals = c.locals ∧ Inv (c.move i s .idle) := by
  rw [← hi] at hrun
  have hreach : ReachesIf (threadStep sListStep) (InTime 65536) c (c.move i s (c.locals i)) :=
    reachesIf_alone hrun fun p a hp => by
      change ((c.move i p.1 p.2).locals i).InTime 65536 p.1
      rw [Config.move_self]
      exact hp
  rw [hi] at hreach
  refine ⟨hreach, ?_, h.run hreach⟩
  rw [Config.move_locals, ← hi, Function.update_eq_self]

/-- **Pushing and popping the same entry** changes nothing but the number of exchanges. -/
theorem Inv.pushPop (h : Inv c) (hi : c.locals i = .idle) (howned : c.shared.owned e = true)
    (n : ℕ) : ∃ c', ReachesIf (threadStep sListStep) (InTime 65536) c c' ∧ c'.locals = c.locals ∧
      Inv c' ∧ c'.shared.entries = c.shared.entries ∧ c'.shared.owned = c.shared.owned ∧
      c'.shared.exchanges = c.shared.exchanges + 2 * n := by
  induction n with
  | zero => exact ⟨c, .refl, rfl, h, rfl, rfl, rfl⟩
  | succ n ih =>
    obtain ⟨d, hcd, hlocals, hd, hentries, hheld, hcount⟩ := ih
    obtain ⟨s, hpush, hpushed, hsn, hso⟩ := push_alone i ((congrFun hheld e).trans howned)
    obtain ⟨hds, hsl, hs⟩ := hd.of_alone (hlocals ▸ hi) hpush
    have hnext : s.header.next = some e :=
      hs.holds.head?_entries.symm.trans (congrArg List.head? hpushed)
    obtain ⟨t, hpop, hpopped, htn, hto⟩ := pop_alone i hnext
    obtain ⟨hst, htl, ht⟩ := hs.of_alone (hsl ▸ hlocals ▸ hi) hpop
    refine ⟨_, (hcd.trans hds).trans hst, (htl.trans hsl).trans hlocals, ht, ?_, ?_, ?_⟩
    · exact (hpopped.trans (congrArg List.tail hpushed)).trans hentries
    · refine hto.trans (funext fun x => ?_)
      rw [hso, hnext, hheld]
      by_cases hx : x = e
      · rw [hx, decide_eq_true rfl, Bool.or_true, howned]
      · rw [Function.update_of_ne hx, decide_eq_false fun heq => hx (Option.some.inj heq).symm,
          Bool.or_false]
    · change t.exchanges = _
      rw [htn, hsn, hcount]
      omega

end Alone

/-- Thread `0` is about to pop the entry `0`, having read that `1` comes after it. Meanwhile thread
`1` has popped both, and pushed `2` and `0`. -/
def popLate : List (Fin 2 × Choice (Fin 4)) :=
  [callAlone 1 (.push 1), callAlone 1 (.push 0), [(0, .call (.change .pop))],
    List.replicate 3 (0, .go .next), callAlone 1 .pop, callAlone 1 .pop, callAlone 1 (.push 2),
    callAlone 1 (.push 0)].flatten

/-- **One exchange more is too many**: there is a run in which every exchange has been in time when
a pop comes to its exchange, and exactly 65536 others have been made since it loaded `Sequence`.
The exchange succeeds, and then the first entry of the list is one that the callers have held all
the while. -/
theorem slist_comesRound :
    ∃ c c', ReachesIf (threadStep sListStep) (InTime 65536)
        (start (Fin 2) emptyHeader fun _ => none) c ∧
      threadStep sListStep c (0, .go .next) = some c' ∧
      (∃ k before next loaded, c.locals 0 = .exchange k .pop before next loaded ∧
        c.shared.exchanges = loaded + 65536 ∧ c'.locals 0 = .done k (.entry before.next)) ∧
      c'.shared.exchanges = c.shared.exchanges + 1 ∧
      ∃ e, c'.shared.header.next = some e ∧ c.shared.owned e = true ∧
        c'.shared.owned e = true := by
  obtain ⟨d, hd⟩ : ∃ d, d = final (threadStep sListStep)
    (start (Fin 2) emptyHeader fun _ => none) popLate := ⟨_, rfl⟩
  have hrun : run (threadStep sListStep) (start (Fin 2) emptyHeader fun _ => none) popLate =
      some d := hd ▸ run_eq_final (by decide +kernel)
  have hreach : ReachesIf (threadStep sListStep) (InTime 65536)
      (start (Fin 2) emptyHeader fun _ => none) d :=
    reachesIf_of_run popLate (by decide +kernel) hrun
  have hinv : Inv d := (inv_start emptyHeader fun _ => none).run hreach
  have hidle : d.locals 1 = .idle := by
    rw [hd]
    decide +kernel
  have hlate : d.locals 0 = .exchange 4 .pop ⟨some 0, 2, 2⟩ (some 1) 2 := by
    rw [hd]
    decide +kernel
  have howned : d.shared.owned 3 = true := by
    rw [hd]
    decide +kernel
  have howned₁ : d.shared.owned 1 = true := by
    rw [hd]
    decide +kernel
  have hentries : d.shared.entries = [0, 2] := by
    rw [hd]
    decide +kernel
  have hcount : d.shared.exchanges = 6 := by
    rw [hd]
    decide +kernel
  -- thread `1` pushes and pops the entry `3` until the number has come round
  obtain ⟨c, hdc, hlocals, hc, hsame, hheld, hexchanges⟩ := hinv.pushPop hidle howned 32766
  have hheader : c.shared.header = ⟨some 0, 2, 2⟩ := by
    rw [hc.holds.header_eq, hsame, hentries, hexchanges, hcount]
    decide
  have hlast : sListStep (0 : Fin 2) (.go .next) c.shared (c.locals 0) =
      some (c.shared.exchanged .pop ⟨some 0, 2, 2⟩ ⟨some 1, 1, 3⟩, .done 4 (.entry (some 0))) := by
    rw [hlocals, hlate]
    simp only [sListStep, compareExchange64, interlockedCompareExchange, hheader, if_true, ne_eq,
      not_true, if_false]
    rfl
  have howns : c.shared.owned 1 = true := (congrFun hheld 1).trans howned₁
  refine ⟨c, _, hreach.trans hdc, threadStep_eq_some.mpr ⟨_, _, hlast, rfl⟩,
    ⟨4, _, _, _, (congrFun hlocals 0).trans hlate, ?_, Config.move_self ..⟩, rfl, 1, rfl, howns, ?_⟩
  · rw [hexchanges, hcount]
  · change (c.shared.owned 1 || _) = true
    rw [howns, Bool.true_or]

/-! ### The word and its fields -/

section Fields

open SListUnion

/-- The fields of a header with pointers of 32 bits. -/
def fields (h : BitVec 64) : Header (BitVec 32) :=
  ⟨pointer (SListUnion.next 32 h), ⟨SListUnion.depth 32 h⟩, ⟨SListUnion.sequence 32 h⟩⟩

/-- **The fields are the whole of the word.** -/
theorem fields_inj {h h' : BitVec 64} : fields h = fields h' ↔ h = h' := by
  refine ⟨fun heq => ?_, congrArg fields⟩
  obtain ⟨hnext, hdepth, hsequence⟩ := SList.Header.mk.inj heq
  have hnext := pointer_inj.mp hnext
  have hdepth := congrArg UInt16.toBitVec hdepth
  have hsequence := congrArg UInt16.toBitVec hsequence
  refine BitVec.eq_of_getLsbD_eq fun i hi => ?_
  have hbit : ∀ off len, BitFields.read off len h = BitFields.read off len h' → off ≤ i →
      i < off + len → h.getLsbD i = h'.getLsbD i := by
    intro off len hread hle hlt
    have hread := congrArg (fun v => v.getLsbD (i - off)) hread
    have hinside : i - off < len := by omega
    simpa only [BitFields.read, BitVec.getLsbD_extractLsb', decide_eq_true hinside, Bool.true_and,
      Nat.add_sub_cancel' hle] using hread
  rcases lt_or_ge i 32 with h32 | h32
  · exact hbit 0 32 hnext (Nat.zero_le i) (by omega)
  rcases lt_or_ge i 48 with h48 | h48
  · exact hbit 32 16 hdepth h32 (by omega)
  · exact hbit 48 16 hsequence h48 (by omega)

/-- **The exchange of the word is the exchange of all the fields.** -/
theorem fields_compareExchange64 (h exchange comperand : BitVec 64) :
    fields (SListUnion.compareExchange64 h exchange comperand).1 =
      (compareExchange64 (fields h) (fields exchange) (fields comperand)).1 := by
  have hword : ∀ v : BitVec 64, setAlignment h v = v := fun v => by
    have hread : alignment (setAlignment h v) = v := BitFields.read_write_self (by omega)
    rwa [alignment, BitFields.read, BitVec.extractLsb'_eq_self] at hread
  have halignment : alignment h = h := BitVec.extractLsb'_eq_self
  rw [SListUnion.compareExchange64, compareExchange64, interlockedCompareExchange,
    interlockedCompareExchange, halignment]
  dsimp only
  rw [hword]
  by_cases heq : h = comperand
  · rw [if_pos heq, if_pos (congrArg fields heq)]
  · rw [if_neg heq, if_neg fun hf => heq (fields_inj.mp hf)]

end Fields

end SListSequence

end Libuzi
