import Libuzi.BitFields
import Libuzi.Lists.SList
import Libuzi.Loop

/-!
# The header of a singly linked list, bit by bit

`UZI_SLIST_HEADER` of `uzi/interlocked.h`, in a build that is not `_WIN64`, is a union: the
word `Alignment` of 64 bits, and the fields `Next`, `Depth` and `Sequence` one after the
other. The functions of `libuzi/interlocked.c` fill in the fields and exchange the word, so
what they do depends on how much of the fields lies in the word.

| | `Next` | `Depth` | `Sequence` | `Alignment` |
|---|---|---|---|---|
| pointers of 64 bits | 0..63 | 64..79 | 80..95 | 0..63 |
| pointers of 32 bits | 0..31 | 32..47 | 48..63 | 0..63 |

The functions are stated once, for pointers of `w` bits. Whatever the layout, `Next` is
in the word, and pushes and pops are those of a stack (`pushPop_law`). With pointers of 64
bits, `Depth` is outside: nothing ever writes to it, and `QueryDepthSList` reads what
was in the memory before `InitializeSListHead`, which decides on what a flush does
(`depth_agrees_iff`); the header of the threads in `Libuzi.SList` is this one, field by
field (`fields_compareExchange64`). With pointers of 32 bits, `Depth` is the number of
entries modulo 65536, and a flush of a list of 65536 entries takes it to be empty
(`flush_complete_iff`).
-/

namespace Libuzi

open Runs Chain BitFields

namespace SListUnion

/-! ### The model -/

variable {n w : ℕ}

/-- The word `Alignment` of a header. -/
def alignment (h : BitVec n) : BitVec 64 := read 0 64 h

/-- `s.Next.Next`. -/
def next (w : ℕ) (h : BitVec n) : BitVec w := read 0 w h

/-- `s.Depth`. -/
def depth (w : ℕ) (h : BitVec n) : BitVec 16 := read w 16 h

/-- `s.Sequence`. -/
def sequence (w : ℕ) (h : BitVec n) : BitVec 16 := read (w + 16) 16 h

/-- The word is stored. -/
def setAlignment (h : BitVec n) (v : BitVec 64) : BitVec n := write 0 h v

/-- `s.Next.Next` is stored. -/
def setNext (h : BitVec n) (v : BitVec w) : BitVec n := write 0 h v

/-- `s.Depth` is stored. -/
def setDepth (w : ℕ) (h : BitVec n) (v : BitVec 16) : BitVec n := write w h v

/-- `s.Sequence` is stored. -/
def setSequence (w : ℕ) (h : BitVec n) (v : BitVec 16) : BitVec n := write (w + 16) h v

/-- The memory: the header, and the field `Next` of each entry. -/
structure Memory (n w : ℕ) where
  /-- `*ListHead`. -/
  header : BitVec n
  /-- The field `Next` of the entry at an address. -/
  next : BitVec w → BitVec w

/-- `InitializeSListHead`. -/
def initializeSListHead (h : BitVec n) : BitVec n := setAlignment h 0

/-- `InterlockedCompareExchange64` on `ListHead->Alignment`. -/
def compareExchange64 (h : BitVec n) (exchange comperand : BitVec 64) : BitVec n × BitVec 64 :=
  let r := interlockedCompareExchange (alignment h) exchange comperand
  (setAlignment h r.1, r.2)

/-- `QueryDepthSList`. -/
def queryDepthSList (m : Memory n w) : BitVec 16 := depth w m.header

/-- One round of the loop of a push. The state is the memory and the local `newHeader`. -/
def pushBody (listEntry : BitVec w) (s : Memory n w × BitVec n) :
    Loop.Flow (Memory n w × BitVec n) (BitVec w) :=
  let old := s.1.header
  let m := { s.1 with next := Function.update s.1.next listEntry (next w old) }
  let newHeader :=
    setSequence w (setDepth w s.2 (depth w old + 1)) (sequence w old + 1)
  let r := compareExchange64 m.header (alignment newHeader) (alignment old)
  if r.2 ≠ alignment old then .next ({ m with header := r.1 }, newHeader)
  else .stop ({ m with header := r.1 }, newHeader) (next w old)

/-- `InterlockedPushEntrySList`: the memory afterwards, and the result. What the local
`newHeader` holds before it is filled in is `uninit`. -/
def interlockedPushEntrySList (listEntry : BitVec w) (uninit : BitVec n) (m : Memory n w) :
    Memory n w × BitVec w :=
  let r := Loop.whileLoop (fun _ => true) (pushBody listEntry) 0 (fun _ => 1)
    (m, setNext uninit listEntry)
  (r.1.1, r.2)

/-- One round of the loop of a pop. -/
def popBody (s : Memory n w × BitVec n) : Loop.Flow (Memory n w × BitVec n) (BitVec w) :=
  let old := s.1.header
  let entry := next w old
  if entry = 0 then .stop s 0
  else
    let newHeader := setSequence w (setDepth w (setNext s.2 (s.1.next entry)) (depth w old - 1))
      (sequence w old + 1)
    let r := compareExchange64 s.1.header (alignment newHeader) (alignment old)
    if r.2 ≠ alignment old then .next ({ s.1 with header := r.1 }, newHeader)
    else .stop ({ s.1 with header := r.1 }, newHeader) entry

/-- `InterlockedPopEntrySList`. -/
def interlockedPopEntrySList (uninit : BitVec n) (m : Memory n w) : Memory n w × BitVec w :=
  let r := Loop.whileLoop (fun _ => true) popBody 0 (fun _ => 1) (m, uninit)
  (r.1.1, r.2)

/-- One round of the loop of a flush. -/
def flushBody (s : Memory n w × BitVec n) : Loop.Flow (Memory n w × BitVec n) (BitVec w) :=
  let old := s.1.header
  let newHeader := setSequence w s.2 (sequence w old + 1)
  let r := compareExchange64 s.1.header (alignment newHeader) (alignment old)
  if r.2 ≠ alignment old then .next ({ s.1 with header := r.1 }, newHeader)
  else .stop ({ s.1 with header := r.1 }, newHeader) (next w old)

/-- `InterlockedFlushSList`. -/
def interlockedFlushSList (uninit : BitVec n) (m : Memory n w) : Memory n w × BitVec w :=
  if queryDepthSList m = 0 then (m, 0)
  else
    let r := Loop.whileLoop (fun _ => true) flushBody 0 (fun _ => 1) (m, setAlignment uninit 0)
    (r.1.1, r.2)

/-! ### Runs -/

/-- A call, with what its local `newHeader` holds before it is filled in. -/
inductive Call (n w : ℕ)
  /-- `InterlockedPushEntrySList`. -/
  | push (listEntry : BitVec w) (uninit : BitVec n)
  /-- `InterlockedPopEntrySList`. -/
  | pop (uninit : BitVec n)
  /-- `InterlockedFlushSList`. -/
  | flush (uninit : BitVec n)

/-- The memory, and the entries that have been pushed and not been given back by a pop or a
flush, the latest first. -/
structure State (n w : ℕ) where
  memory : Memory n w
  entries : List (BitVec w)

/-- **One call.** An entry that is pushed is at an address that is not null, and is not on the
list. -/
def step (s : State n w) : Call n w → Option (State n w)
  | .push listEntry uninit =>
    if listEntry ≠ 0 ∧ listEntry ∉ s.entries then
      some ⟨(interlockedPushEntrySList listEntry uninit s.memory).1, listEntry :: s.entries⟩
    else none
  | .pop uninit =>
    let r := interlockedPopEntrySList uninit s.memory
    some ⟨r.1, if r.2 = 0 then s.entries else s.entries.tail⟩
  | .flush uninit =>
    let r := interlockedFlushSList uninit s.memory
    some ⟨r.1, if r.2 = 0 then s.entries else []⟩

/-- The start: whatever the memory holds, the header is initialised. -/
def start (m : Memory n w) : State n w :=
  ⟨{ m with header := initializeSListHead m.header }, []⟩

/-! ### What the calls promise -/

/-- A pointer, `NULL` being the address 0. -/
def pointer (p : BitVec w) : Option (BitVec w) := if p = 0 then none else some p

/-- The links of the entries. -/
def Memory.links (m : Memory n w) : BitVec w → Option (Option (BitVec w)) :=
  fun e => some (pointer (m.next e))

/-- **The entries on the chain**, from the header to the end. -/
def IsChain (m : Memory n w) (xs : List (BitVec w)) : Prop :=
  Path m.links (pointer (next w m.header)) xs none

/-- The first entry of a list, or `NULL`. -/
def first (xs : List (BitVec w)) : BitVec w := xs.headD 0

/-- **Push and pop are those of a stack**, the entries on the chain being `xs`. -/
structure PushPopLaw (m : Memory n w) (xs : List (BitVec w)) : Prop where
  chain : IsChain m xs
  push : ∀ e uninit, e ≠ 0 → e ∉ xs → (interlockedPushEntrySList e uninit m).2 = first xs ∧
    IsChain (interlockedPushEntrySList e uninit m).1 (e :: xs)
  pop : ∀ uninit, (interlockedPopEntrySList uninit m).2 = first xs ∧
    IsChain (interlockedPopEntrySList uninit m).1 xs.tail

/-- **A flush takes the whole chain.** -/
def FlushLaw (m : Memory n w) (xs : List (BitVec w)) : Prop :=
  ∀ uninit, (interlockedFlushSList uninit m).2 = first xs ∧
    IsChain (interlockedFlushSList uninit m).1 []

/-! ### What the functions leave behind -/

theorem compareExchange64_self (h : BitVec n) (exchange : BitVec 64) :
    compareExchange64 h exchange (alignment h) = (setAlignment h exchange, alignment h) := by
  rw [compareExchange64, interlockedCompareExchange, if_pos rfl]

/-- The local `newHeader` of a push or a pop, when it is exchanged. -/
def filled (w : ℕ) (h : BitVec n) (v : BitVec w) (d q : BitVec 16) : BitVec n :=
  setSequence w (setDepth w (setNext h v) d) q

/-- The round of a push: nobody else changes the header. -/
theorem pushBody_eq (e : BitVec w) (m : Memory n w) (h : BitVec n) :
    ∃ h', pushBody e (m, setNext h e) = .stop
      (⟨setAlignment m.header
        (alignment (filled w h e (depth w m.header + 1) (sequence w m.header + 1))),
        Function.update m.next e (next w m.header)⟩, h') (next w m.header) := by
  rw [pushBody]
  simp only [compareExchange64_self, ne_eq, not_true, if_false]
  exact ⟨_, rfl⟩

theorem pushBody_stops (e : BitVec w) (s : Memory n w × BitVec n) :
    ∃ s' r, pushBody e s = .stop s' r := by
  rw [pushBody]
  simp only [compareExchange64_self, ne_eq, not_true, if_false]
  exact ⟨_, _, rfl⟩

theorem popBody_stops (s : Memory n w × BitVec n) : ∃ s' r, popBody s = .stop s' r := by
  rw [popBody]
  simp only [compareExchange64_self, ne_eq, not_true, if_false]
  split_ifs
  · exact ⟨_, _, rfl⟩
  · exact ⟨_, _, rfl⟩

theorem flushBody_stops (s : Memory n w × BitVec n) : ∃ s' r, flushBody s = .stop s' r := by
  rw [flushBody]
  simp only [compareExchange64_self, ne_eq, not_true, if_false]
  exact ⟨_, _, rfl⟩

/-- **What a push does.** -/
theorem push_eq (e : BitVec w) (uninit : BitVec n) (m : Memory n w) :
    interlockedPushEntrySList e uninit m =
      (⟨setAlignment m.header
        (alignment (filled w uninit e (depth w m.header + 1) (sequence w m.header + 1))),
        Function.update m.next e (next w m.header)⟩, next w m.header) := by
  obtain ⟨h', hbody⟩ := pushBody_eq e m uninit
  rw [interlockedPushEntrySList,
    Loop.whileLoop_stop (Loop.decreases_of_stops (pushBody_stops e)) rfl hbody]

/-- **What a pop does** when there is an entry. -/
theorem pop_eq {m : Memory n w} (hne : next w m.header ≠ 0) (uninit : BitVec n) :
    interlockedPopEntrySList uninit m =
      (⟨setAlignment m.header (alignment (filled w uninit (m.next (next w m.header))
        (depth w m.header - 1) (sequence w m.header + 1))), m.next⟩, next w m.header) := by
  obtain ⟨h', hbody⟩ : ∃ h', popBody (m, uninit) = .stop
      (⟨setAlignment m.header (alignment (filled w uninit (m.next (next w m.header))
        (depth w m.header - 1) (sequence w m.header + 1))), m.next⟩, h') (next w m.header) := by
    rw [popBody]
    simp only [compareExchange64_self, ne_eq, not_true, if_false, if_neg hne]
    exact ⟨_, rfl⟩
  rw [interlockedPopEntrySList,
    Loop.whileLoop_stop (Loop.decreases_of_stops popBody_stops) rfl hbody]

/-- A pop of an empty list does nothing. -/
theorem pop_eq_of_empty {m : Memory n w} (h0 : next w m.header = 0) (uninit : BitVec n) :
    interlockedPopEntrySList uninit m = (m, 0) := by
  have hbody : popBody (m, uninit) = .stop (m, uninit) 0 := by
    rw [popBody]
    exact if_pos h0
  rw [interlockedPopEntrySList,
    Loop.whileLoop_stop (Loop.decreases_of_stops popBody_stops) rfl hbody]

/-- **What a flush does** when `QueryDepthSList` is not 0. -/
theorem flush_eq {m : Memory n w} (hd : queryDepthSList m ≠ 0) (uninit : BitVec n) :
    interlockedFlushSList uninit m =
      (⟨setAlignment m.header (alignment (setSequence w (setAlignment uninit 0)
        (sequence w m.header + 1))), m.next⟩, next w m.header) := by
  obtain ⟨h', hbody⟩ : ∃ h', flushBody (m, setAlignment uninit 0) = .stop
      (⟨setAlignment m.header (alignment (setSequence w (setAlignment uninit 0)
        (sequence w m.header + 1))), m.next⟩, h') (next w m.header) := by
    rw [flushBody]
    simp only [compareExchange64_self, ne_eq, not_true, if_false]
    exact ⟨_, rfl⟩
  rw [interlockedFlushSList, if_neg hd,
    Loop.whileLoop_stop (Loop.decreases_of_stops flushBody_stops) rfl hbody]

/-- A flush that finds 0 does nothing. -/
theorem flush_eq_of_depth {m : Memory n w} (hd : queryDepthSList m = 0) (uninit : BitVec n) :
    interlockedFlushSList uninit m = (m, 0) := by
  rw [interlockedFlushSList, if_pos hd]

/-! ### The fields after an exchange -/

section Layout

variable (hw : w ≤ 64) (hword : 64 ≤ n) (hfields : w + 32 ≤ n)

include hw hword in
/-- **`Next` is part of the word**, in both layouts. -/
theorem next_setAlignment (h h' : BitVec n) : next w (setAlignment h (alignment h')) = next w h' :=
  read_write_read (by omega) (Nat.le_refl _) (by omega)

include hw hword in
theorem next_setAlignment_zero (h : BitVec n) : next w (setAlignment h 0) = 0 := by
  rw [next, setAlignment, read_write_inside (by omega) (Nat.le_refl _) (by omega)]
  exact BitVec.extractLsb'_zero

include hfields in
theorem next_setSequence (h : BitVec n) (q : BitVec 16) : next w (setSequence w h q) = next w h :=
  read_write_apart (by omega) (.inl (by omega))

include hfields in
theorem next_filled (h : BitVec n) (v : BitVec w) (d q : BitVec 16) :
    next w (filled w h v d q) = v := by
  rw [filled, next_setSequence hfields]
  exact (read_write_apart (by omega) (.inl (by omega))).trans (read_write_self (by omega))

include hfields in
theorem depth_setSequence (h : BitVec n) (q : BitVec 16) :
    depth w (setSequence w h q) = depth w h :=
  read_write_apart (by omega) (.inl (by omega))

include hfields in
theorem depth_filled (h : BitVec n) (v : BitVec w) (d q : BitVec 16) :
    depth w (filled w h v d q) = d := by
  rw [filled, depth_setSequence hfields]
  exact read_write_self (by omega)

/-! ### A stack, whatever the layout -/

variable {m : Memory n w} {xs : List (BitVec w)} {e : BitVec w}

theorem pointer_eq_none {p : BitVec w} : pointer p = none ↔ p = 0 := by
  rw [pointer]
  split_ifs with h
  · exact ⟨fun _ => h, fun _ => rfl⟩
  · exact ⟨fun hp => hp.elim, fun hp => absurd hp h⟩

theorem pointer_of_ne {p : BitVec w} (h : p ≠ 0) : pointer p = some p := if_neg h

theorem pointer_eq_some {p a : BitVec w} (h : pointer p = some a) : p = a ∧ p ≠ 0 := by
  rw [pointer] at h
  split_ifs at h with h0
  exact ⟨Option.some.inj h, h0⟩

/-- The header points to the first entry. -/
theorem IsChain.next_eq (h : IsChain m xs) : next w m.header = first xs := by
  cases xs with
  | nil => exact pointer_eq_none.mp h
  | cons a ys => exact (pointer_eq_some h.1).1

/-- No entry on a chain is at the address 0. -/
theorem IsChain.first_eq_zero (h : IsChain m xs) : first xs = 0 ↔ xs = [] := by
  cases xs with
  | nil => exact ⟨fun _ => rfl, fun _ => rfl⟩
  | cons a ys =>
    have ha := pointer_eq_some h.1
    exact ⟨fun h0 => absurd (ha.1.trans h0) ha.2, fun h0 => absurd h0 (List.cons_ne_nil a ys)⟩

theorem push_result (h : IsChain m xs) (uninit : BitVec n) :
    (interlockedPushEntrySList e uninit m).2 = first xs := by
  rw [push_eq]
  exact h.next_eq

include hw hword hfields in
theorem push_chain (h : IsChain m xs) (h0 : e ≠ 0) (he : e ∉ xs) (uninit : BitVec n) :
    IsChain (interlockedPushEntrySList e uninit m).1 (e :: xs) := by
  rw [push_eq, IsChain, next_setAlignment hw hword, next_filled hfields, pointer_of_ne h0]
  refine ⟨rfl, pointer (next w m.header), ?_, h.congr fun a ha => ?_⟩
  · exact congrArg some (congrArg pointer (Function.update_self ..))
  · -- the links of the entries that were there are as they were
    have hne : a ≠ e := fun hae => he (hae ▸ ha)
    exact congrArg some (congrArg pointer (Function.update_of_ne hne ..))

theorem pop_result (h : IsChain m xs) (uninit : BitVec n) :
    (interlockedPopEntrySList uninit m).2 = first xs := by
  by_cases h0 : next w m.header = 0
  · rw [pop_eq_of_empty h0, ← h.next_eq, h0]
  · rw [pop_eq h0]
    exact h.next_eq

include hw hword hfields in
theorem pop_chain (h : IsChain m xs) (uninit : BitVec n) :
    IsChain (interlockedPopEntrySList uninit m).1 xs.tail := by
  cases xs with
  | nil =>
    rw [pop_eq_of_empty h.next_eq]
    exact h
  | cons a ys =>
    obtain ⟨hp, r, hr, hpath⟩ := h
    obtain ⟨hnext, h0⟩ := pointer_eq_some hp
    obtain rfl : pointer (m.next a) = r := Option.some.inj hr
    rw [pop_eq h0, IsChain, next_setAlignment hw hword, next_filled hfields, hnext]
    exact hpath

include hw hword hfields in
/-- A flush that goes on empties the list. -/
theorem flush_chain (hd : queryDepthSList m ≠ 0) (uninit : BitVec n) :
    IsChain (interlockedFlushSList uninit m).1 [] := by
  rw [flush_eq hd, IsChain, next_setAlignment hw hword, next_setSequence hfields,
    next_setAlignment_zero hw hword]
  exact pointer_eq_none.mpr rfl

include hw hword hfields in
/-- **Pushes and pops are those of a stack**, in both layouts. -/
theorem pushPop_law (h : IsChain m xs) : PushPopLaw m xs where
  chain := h
  push := fun _ uninit h0 he =>
    ⟨push_result h uninit, push_chain hw hword hfields h h0 he uninit⟩
  pop := fun uninit => ⟨pop_result h uninit, pop_chain hw hword hfields h uninit⟩

include hw hword hfields in
/-- **A flush takes the whole chain** if and only if `QueryDepthSList` is not 0, or there is
nothing to take. -/
theorem flushLaw_iff (h : IsChain m xs) : FlushLaw m xs ↔ queryDepthSList m ≠ 0 ∨ xs = [] := by
  constructor
  · intro hflush
    by_contra hcon
    obtain ⟨hd, hxs⟩ := not_or.mp hcon
    have hresult := (hflush 0).1
    rw [flush_eq_of_depth (not_not.mp hd)] at hresult
    exact hxs (h.first_eq_zero.mp hresult.symm)
  · intro hcond uninit
    by_cases hd : queryDepthSList m = 0
    · obtain rfl : xs = [] := hcond.resolve_left (not_not.mpr hd)
      rw [flush_eq_of_depth hd]
      exact ⟨rfl, h⟩
    · refine ⟨?_, flush_chain hw hword hfields hd uninit⟩
      rw [flush_eq hd]
      exact h.next_eq

/-! ### The chain along a run -/

theorem first_tail_of_zero (h : first xs = 0 ↔ xs = []) :
    (if first xs = 0 then xs else xs.tail) = xs.tail := by
  split_ifs with h0
  · rw [h.mp h0]
    rfl
  · rfl

include hw hword hfields in
/-- **One call keeps the chain**: it is made of the entries that have been pushed and not given
back. -/
theorem step_chain {s s' : State n w} {a : Call n w} (h : IsChain s.memory s.entries)
    (hs : step s a = some s') : IsChain s'.memory s'.entries := by
  cases a with
  | push e uninit =>
    rw [step] at hs
    split_ifs at hs with hcond
    obtain rfl := Option.some.inj hs
    exact push_chain hw hword hfields h hcond.1 hcond.2 uninit
  | pop uninit =>
    obtain rfl := Option.some.inj hs
    simp only
    rw [pop_result h uninit, first_tail_of_zero h.first_eq_zero]
    exact pop_chain hw hword hfields h uninit
  | flush uninit =>
    obtain rfl := Option.some.inj hs
    simp only
    by_cases hd : queryDepthSList s.memory = 0
    · rw [flush_eq_of_depth hd, if_pos rfl]
      exact h
    · have hchain := flush_chain hw hword hfields hd uninit
      rw [flush_eq hd] at hchain ⊢
      simp only
      split_ifs with h0
      · -- the list was empty
        rw [h.next_eq, h.first_eq_zero] at h0
        rwa [h0]
      · exact hchain

include hw hword in
theorem start_chain (m : Memory n w) : IsChain (start m).memory (start m).entries :=
  pointer_eq_none.mpr (next_setAlignment_zero hw hword m.header)

include hw hword hfields in
theorem reaches_chain {s : State n w} (h : Reaches step (start m) s) :
    IsChain s.memory s.entries :=
  h.invariant (P := fun s => IsChain s.memory s.entries) (start_chain hw hword m)
    fun _ _ _ ht _ hs => step_chain hw hword hfields ht hs

end Layout

/-! ### Pointers of 64 bits -/

/-- The three promises about a list whose entries are `xs`. -/
structure StackLaw (m : Memory n w) (xs : List (BitVec w)) : Prop where
  pushPop : PushPopLaw m xs
  depth : (queryDepthSList m).toNat = xs.length
  flush : FlushLaw m xs

/-- With pointers of 64 bits, `Depth` is not part of the word. -/
theorem depth_setAlignment (h : BitVec 128) (v : BitVec 64) :
    depth 64 (setAlignment h v) = depth 64 h :=
  read_write_apart (by omega) (.inr (by omega))

/-- A call stores at most the word of the header. -/
theorem step_header {s s' : State n w} {a : Call n w} (hs : step s a = some s') :
    s'.memory.header = s.memory.header ∨
      ∃ v, s'.memory.header = setAlignment s.memory.header v := by
  cases a with
  | push e uninit =>
    rw [step] at hs
    split_ifs at hs
    obtain rfl := Option.some.inj hs
    rw [push_eq]
    exact .inr ⟨_, rfl⟩
  | pop uninit =>
    obtain rfl := Option.some.inj hs
    by_cases h0 : next w s.memory.header = 0
    · rw [pop_eq_of_empty h0]
      exact .inl rfl
    · rw [pop_eq h0]
      exact .inr ⟨_, rfl⟩
  | flush uninit =>
    obtain rfl := Option.some.inj hs
    by_cases hd : queryDepthSList s.memory = 0
    · rw [flush_eq_of_depth hd]
      exact .inl rfl
    · rw [flush_eq hd]
      exact .inr ⟨_, rfl⟩

/-- **Nothing writes to `Depth`**: what it holds is what the memory held at the start. -/
theorem reaches_depth {m : Memory 128 64} {s : State 128 64} (h : Reaches step (start m) s) :
    queryDepthSList s.memory = depth 64 m.header := by
  have hstart : queryDepthSList (start m).memory = depth 64 m.header :=
    depth_setAlignment m.header 0
  refine h.invariant (P := fun t => queryDepthSList t.memory = depth 64 m.header) hstart
    fun t t' a ht _ hs => ?_
  rcases step_header hs with heq | ⟨v, heq⟩
  · rw [queryDepthSList, heq]
    exact ht
  · rw [queryDepthSList, heq, depth_setAlignment]
    exact ht

/-- **With pointers of 64 bits**, in every run from any contents of the header: pushes and pops
are those of a stack; a flush takes the whole chain if and only if the bytes of `Depth` were
not 0 at the start, or there is nothing to take; and all that is promised holds if and only if
these bytes were the number of entries that are now on the list. -/
theorem depth_agrees_iff (m : Memory 128 64) {s : State 128 64} (h : Reaches step (start m) s) :
    PushPopLaw s.memory s.entries ∧
      (FlushLaw s.memory s.entries ↔ depth 64 m.header ≠ 0 ∨ s.entries = []) ∧
      (StackLaw s.memory s.entries ↔ (depth 64 m.header).toNat = s.entries.length) := by
  have hchain : IsChain s.memory s.entries :=
    reaches_chain (by omega) (by omega) (by omega) h
  have hlaw : PushPopLaw s.memory s.entries :=
    pushPop_law (by omega) (by omega) (by omega) hchain
  have hflush : FlushLaw s.memory s.entries ↔ depth 64 m.header ≠ 0 ∨ s.entries = [] := by
    rw [← reaches_depth h]
    exact flushLaw_iff (by omega) (by omega) (by omega) hchain
  refine ⟨hlaw, hflush, fun hstack => ?_, fun hd => ⟨hlaw, ?_, hflush.mpr ?_⟩⟩
  · rw [← reaches_depth h]
    exact hstack.depth
  · rw [reaches_depth h]
    exact hd
  · -- a `Depth` of 0 is the right one for no entries only
    by_cases h0 : depth 64 m.header = 0
    · rw [h0] at hd
      exact .inr (List.length_eq_zero_iff.mp hd.symm)
    · exact .inl h0

/-- The header is in memory whose bytes at `Depth` are 2, and two entries are pushed. -/
theorem depth_agrees_iff_two :
    ∃ s, Reaches step (start (n := 128) (w := 64) ⟨2#128 <<< 64, fun _ => 0⟩) s ∧
      s.entries = [32, 16] ∧ StackLaw s.memory s.entries := by
  have hrun : run step (start (n := 128) (w := 64) ⟨2#128 <<< 64, fun _ => 0⟩)
      [.push 16 0, .push 32 0] = some (final _ _ _) := run_eq_final (by decide)
  have hreach := reaches_of_run _ hrun
  exact ⟨_, hreach, by decide, (depth_agrees_iff _ hreach).2.2.mpr (by decide)⟩

/-- **A flush that does nothing**: in memory that is all 0, a list to which an entry has been
pushed. -/
theorem depth_not_agrees :
    ∃ s, Reaches step (start (n := 128) (w := 64) ⟨0, fun _ => 0⟩) s ∧
      s.entries.length < 65536 ∧ ¬StackLaw s.memory s.entries := by
  have hrun : run step (start (n := 128) (w := 64) ⟨0, fun _ => 0⟩) [.push 16 0] =
      some (final _ _ _) := run_eq_final (by decide)
  refine ⟨_, reaches_of_run _ hrun, by decide, fun hstack => ?_⟩
  exact absurd hstack.depth (by decide)

/-! ### The header the threads share

`Libuzi.SList` follows the threads that push and pop on one header, for pointers of 64 bits, and
has the header as three fields of which the exchange touches the first. -/

/-- The fields of a header. -/
def fields (h : BitVec 128) : SList.Header (BitVec 64) :=
  ⟨pointer (next 64 h), ⟨depth 64 h⟩, ⟨sequence 64 h⟩⟩

theorem pointer_inj {p q : BitVec w} : pointer p = pointer q ↔ p = q := by
  constructor
  · intro h
    by_cases hp : p = 0
    · have hq := pointer_eq_none.mp (h.symm.trans (pointer_eq_none.mpr hp))
      rw [hp, hq]
    · rw [pointer_of_ne hp] at h
      exact (pointer_eq_some h.symm).1.symm
  · exact congrArg pointer

/-- **The exchange of the word is the exchange of the first field.** -/
theorem fields_compareExchange64 (h : BitVec 128) (exchange comperand : BitVec 64) :
    fields (compareExchange64 h exchange comperand).1 =
      (SList.compareExchange64 (fields h) (pointer exchange) (pointer comperand)).1 := by
  have hnext : ∀ v : BitVec 64, next 64 (setAlignment h v) = v :=
    fun v => read_write_self (by omega)
  have hsequence : ∀ v : BitVec 64, sequence 64 (setAlignment h v) = sequence 64 h :=
    fun v => read_write_apart (by omega) (.inr (by omega))
  -- `Alignment` and `Next` are the same bits
  have hword : (fields h).alignment = pointer (alignment h) := rfl
  by_cases heq : alignment h = comperand
  · rw [SList.compareExchange64_of_eq (by rw [hword, heq]), ← heq, compareExchange64_self, fields,
      hnext, depth_setAlignment, hsequence]
    rfl
  · rw [SList.compareExchange64_of_ne (by rwa [hword, ne_eq, pointer_inj]), compareExchange64,
      interlockedCompareExchange, if_neg heq]
    simp only
    rw [fields, hnext, depth_setAlignment, hsequence]
    rfl

/-! ### Pointers of 32 bits -/

/-- With pointers of 32 bits, `Depth` is part of the word. -/
theorem depth_setAlignment_alignment (h h' : BitVec 64) :
    depth 32 (setAlignment h (alignment h')) = depth 32 h' :=
  read_write_read (by omega) (by omega) (by omega)

theorem depth_setAlignment_zero (h : BitVec 64) : depth 32 (setAlignment h 0) = 0 := by
  rw [depth, setAlignment, read_write_inside (by omega) (by omega) (by omega)]
  exact BitVec.extractLsb'_zero

/-- **`Depth` is the number of entries**, modulo 65536. -/
def CountsEntries (s : State 64 32) : Prop :=
  queryDepthSList s.memory = BitVec.ofNat 16 s.entries.length

/-- One call keeps the count. -/
theorem step_counts {s s' : State 64 32} {a : Call 64 32} (h : IsChain s.memory s.entries)
    (hd : CountsEntries s) (hs : step s a = some s') : CountsEntries s' := by
  have hdepth : depth 32 s.memory.header = BitVec.ofNat 16 s.entries.length := hd
  cases a with
  | push e uninit =>
    rw [step] at hs
    split_ifs at hs
    obtain rfl := Option.some.inj hs
    rw [CountsEntries, queryDepthSList, push_eq, depth_setAlignment_alignment,
      depth_filled (by omega), hdepth, List.length_cons, BitVec.ofNat_add]
    rfl
  | pop uninit =>
    obtain rfl := Option.some.inj hs
    by_cases h0 : next 32 s.memory.header = 0
    · rw [pop_eq_of_empty h0]
      exact hd
    · rw [CountsEntries, queryDepthSList, pop_eq h0]
      simp only
      rw [if_neg h0, depth_setAlignment_alignment, depth_filled (by omega), hdepth]
      -- the list is not empty
      have hne : s.entries ≠ [] := fun hnil => h0 (h.next_eq.trans (h.first_eq_zero.mpr hnil))
      obtain ⟨x, xs, hxs⟩ := List.exists_cons_of_ne_nil hne
      rw [hxs, List.tail_cons, List.length_cons, BitVec.ofNat_add]
      exact BitVec.add_sub_cancel ..
  | flush uninit =>
    obtain rfl := Option.some.inj hs
    by_cases hd0 : queryDepthSList s.memory = 0
    · rw [flush_eq_of_depth hd0]
      exact hd
    · -- a list that is counted as other than 0 is not empty
      have hne : next 32 s.memory.header ≠ 0 := by
        intro h0
        rw [h.next_eq, h.first_eq_zero] at h0
        rw [CountsEntries, h0] at hd
        exact hd0 hd
      rw [CountsEntries, queryDepthSList, flush_eq hd0]
      simp only
      rw [if_neg hne, depth_setAlignment_alignment, depth_setSequence (by omega),
        depth_setAlignment_zero]
      rfl

theorem reaches_counts {m : Memory 64 32} {s : State 64 32} (h : Reaches step (start m) s) :
    CountsEntries s := by
  have hboth : IsChain s.memory s.entries ∧ CountsEntries s := by
    refine h.invariant (P := fun s => IsChain s.memory s.entries ∧ CountsEntries s)
      ⟨start_chain (by omega) (by omega) m, depth_setAlignment_zero m.header⟩
      fun t t' a ht _ hs => ⟨?_, step_counts ht.1 ht.2 hs⟩
    exact step_chain (by omega) (by omega) (by omega) ht.1 hs
  exact hboth.2

/-- The count is 0 for a multiple of 65536 entries. -/
theorem CountsEntries.eq_zero_iff {s : State 64 32} (h : CountsEntries s) :
    queryDepthSList s.memory = 0 ↔ s.entries.length % 65536 = 0 := by
  rw [h, ← BitVec.toNat_inj, BitVec.toNat_ofNat]
  exact Iff.rfl

/-- **With pointers of 32 bits**, in every run: pushes and pops are those of a stack; `Depth` is
the number of entries modulo 65536; and a flush takes the whole chain if and only if the number
of entries is not a multiple of 65536, or there is nothing to take. -/
theorem flush_complete_iff (m : Memory 64 32) {s : State 64 32} (h : Reaches step (start m) s) :
    PushPopLaw s.memory s.entries ∧
      (queryDepthSList s.memory).toNat = s.entries.length % 65536 ∧
      (FlushLaw s.memory s.entries ↔ s.entries.length % 65536 ≠ 0 ∨ s.entries = []) := by
  have hchain : IsChain s.memory s.entries :=
    reaches_chain (by omega) (by omega) (by omega) h
  have hcounts := reaches_counts h
  refine ⟨pushPop_law (by omega) (by omega) (by omega) hchain, ?_, ?_⟩
  · rw [hcounts, BitVec.toNat_ofNat]
  · rw [flushLaw_iff (by omega) (by omega) (by omega) hchain, ne_eq, ne_eq, hcounts.eq_zero_iff]

/-- Two entries are pushed, one is popped, and the list is flushed. -/
theorem flush_complete_iff_one :
    ∃ s, Reaches step (start (n := 64) (w := 32) ⟨7, fun _ => 0⟩) s ∧
      s.entries = [16] ∧ FlushLaw s.memory s.entries := by
  have hrun : run step (start (n := 64) (w := 32) ⟨7, fun _ => 0⟩)
      [.push 16 0, .push 32 0, .pop 0] = some (final _ _ _) := run_eq_final (by decide)
  have hreach := reaches_of_run _ hrun
  exact ⟨_, hreach, by decide, (flush_complete_iff _ hreach).2.2.mpr (by decide)⟩

/-- Entries at different addresses can be pushed one after the other. -/
theorem reaches_pushed (m : Memory n w) {es : List (BitVec w)} (hnodup : es.Nodup)
    (h0 : ∀ e ∈ es, e ≠ 0) : ∃ s, Reaches step (start m) s ∧ s.entries = es := by
  induction es with
  | nil => exact ⟨start m, .refl, rfl⟩
  | cons e es ih =>
    obtain ⟨he, hnodup⟩ := List.nodup_cons.mp hnodup
    obtain ⟨s, hs, hentries⟩ := ih hnodup fun e' he' => h0 e' (List.mem_cons_of_mem e he')
    have hcond : e ≠ 0 ∧ e ∉ s.entries :=
      ⟨h0 e List.mem_cons_self, by rwa [hentries]⟩
    refine ⟨_, hs.tail (e := .push e 0) trivial (if_pos hcond), ?_⟩
    rw [hentries]

/-- The addresses of 65536 entries, 16 bytes apart. -/
def manyEntries : List (BitVec 32) :=
  (List.range 65536).map fun i => BitVec.ofNat 32 (16 * (i + 1))

theorem toNat_manyEntries {i : ℕ} (hi : i < 65536) :
    (BitVec.ofNat 32 (16 * (i + 1))).toNat = 16 * (i + 1) := by
  rw [BitVec.toNat_ofNat]
  exact Nat.mod_eq_of_lt (by omega)

/-- **A flush of 65536 entries does nothing.** -/
theorem flush_not_complete :
    ∃ s, Reaches step (start (n := 64) (w := 32) ⟨0, fun _ => 0⟩) s ∧
      s.entries ≠ [] ∧ ¬FlushLaw s.memory s.entries := by
  have hnodup : manyEntries.Nodup := by
    refine List.Nodup.map_on (fun i hi j hj hij => ?_) List.nodup_range
    have h := congrArg BitVec.toNat hij
    rw [toNat_manyEntries (List.mem_range.mp hi), toNat_manyEntries (List.mem_range.mp hj)] at h
    omega
  have hne : ∀ e ∈ manyEntries, e ≠ 0 := by
    intro e he h0
    obtain ⟨i, hi, rfl⟩ := List.mem_map.mp he
    have h := congrArg BitVec.toNat h0
    rw [toNat_manyEntries (List.mem_range.mp hi)] at h
    exact absurd h (by simp)
  have hlength : manyEntries.length = 65536 := by
    rw [manyEntries, List.length_map, List.length_range]
  obtain ⟨s, hs, hentries⟩ := reaches_pushed (n := 64) ⟨0, fun _ => 0⟩ hnodup hne
  have hchain : IsChain s.memory s.entries :=
    reaches_chain (by omega) (by omega) (by omega) hs
  have hsome : s.entries ≠ [] := by
    rw [hentries, ← List.length_pos_iff_ne_nil, hlength]
    omega
  refine ⟨s, hs, hsome, fun hflush => ?_⟩
  -- the count has come back to 0
  have hd : queryDepthSList s.memory = 0 := by
    rw [(reaches_counts hs).eq_zero_iff, hentries, hlength]
  rcases (flushLaw_iff (n := 64) (w := 32) (by omega) (by omega) (by omega) hchain).mp hflush
    with h | h
  · exact h hd
  · exact hsome h

end SListUnion

end Libuzi
