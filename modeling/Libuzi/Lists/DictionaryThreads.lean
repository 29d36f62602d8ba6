import Libuzi.Monitor
import Libuzi.Lists.DictionaryRefinement
import Libuzi.Synch.CriticalExclusion

/-!
# A list dictionary shared by several threads

A dictionary of `libuzi/dictionary.c` that is `synchronized`, used by any number of threads.
Every function enters the critical section `lock` first and leaves it last, and both are made of
the steps of `libuzi/critical.c` (`Critical.enterCriticalSection`,
`Critical.leaveCriticalSection`). In between, every load and store of a field, `malloc`, `free`
and every call of one of the functions of the objects is a step of its own, except that the fields
of a new item, which nobody else has yet, are filled in together with `malloc`:

| in the source | here |
|---|---|
| a walk that stops at a key | `Pc.searchKey`, `Pc.searchNext` |
| a walk to the last item | `Pc.lastNext`, `Pc.lastGo` |
| a walk that counts | `Pc.countItem` |
| the walk that frees | `Pc.clearItem`, `Pc.clearKey`, `Pc.clearValue`, `Pc.clearFree` |
| `head`, loaded three times | `Pc.removeHead`, `Pc.firstItem`, `Pc.firstHead` |

The critical section lets one thread in at a time, whatever its owner does to the dictionary
(`Dictionary.inside_unique`): no function enters it twice, so its counters, which are `LONG`s, do
not come round as long as there are fewer than 2³² threads. And alone the steps of a function come
to an end and do what the function does (`Dictionary.ends_of_exec`). So the functions are those of
an atomic object, the ordered sequence of keys and values (`Dictionary.dictionary_linearizable`).
-/

namespace Libuzi

open Runs Threads Linear Monitor

namespace Dictionary

variable {κ υ : Type}

/-! ### The functions, access by access -/

/-- A call, with its arguments and whether `malloc` finds memory for it. -/
inductive Call (κ υ : Type)
  /-- `ListDictionary_Add`. -/
  | add (key : κ) (value : υ) (mallocOk : Bool)
  /-- `ListDictionary_Remove`. -/
  | remove (key : κ)
  /-- `ListDictionary_Remove_Head`. -/
  | removeHead
  /-- `ListDictionary_SetItemValue`. -/
  | setItemValue (key : κ) (value : υ)
  /-- `ListDictionary_Clear`. -/
  | clear
  /-- `ListDictionary_Contains`. -/
  | contains (key : κ)
  /-- `ListDictionary_GetItemValue`. -/
  | getItemValue (key : κ)
  /-- `ListDictionary_Count`. -/
  | count
  deriving DecidableEq

/-- What an item is looked for. -/
inductive Goal (υ : Type)
  /-- To see whether there is one. -/
  | contains
  /-- To take it off the list. -/
  | remove
  /-- To return its value. -/
  | getItemValue
  /-- To give it another value. -/
  | setItemValue (value : υ)
  deriving DecidableEq

/-- Where a thread stands in a function, with what it has in its registers. -/
inductive Pc (κ υ : Type)
  /-- At `malloc`, and the stores into the memory it returns, which no other thread knows. -/
  | malloc (key : κ) (value : υ) (mallocOk : Bool)
  /-- At `if (!listDictionary->head)`, with the new item `a`. -/
  | addHead (a : Addr)
  /-- At `listDictionary->head = item`. -/
  | setHead (a : Addr)
  /-- At `lastItem = listDictionary->head`. -/
  | lastHead (a : Addr)
  /-- At `while (lastItem->next)`. -/
  | lastNext (lastItem a : Addr)
  /-- At `lastItem = lastItem->next`. -/
  | lastGo (lastItem a : Addr)
  /-- At `lastItem->next = item`. -/
  | link (lastItem a : Addr)
  /-- At `item = listDictionary->head`. -/
  | search (goal : Goal υ) (key : κ)
  /-- At `while (item)`, and the comparison of its key. -/
  | searchKey (goal : Goal υ) (key : κ) (prevItem item : Option Addr)
  /-- At `item = item->next`. -/
  | searchNext (goal : Goal υ) (key : κ) (a : Addr)
  /-- At the load of `item->next` that takes the item off the list. -/
  | unlink (prevItem : Option Addr) (a : Addr)
  /-- At `listDictionary->head = item->next`. -/
  | storeHead (p : Option Addr) (a : Addr)
  /-- At `prevItem->next = item->next`. -/
  | storeNext (prevItem : Addr) (p : Option Addr) (a : Addr)
  /-- At `value = item->value`, before the item is freed. -/
  | take (a : Addr)
  /-- At `free(item)`. -/
  | free (a : Addr) (value : υ)
  /-- At `value = item->value`. -/
  | value (a : Addr)
  /-- At `objectValue.fnObjectFree(item->value)`, if there is one. -/
  | freeValue (a : Addr) (value : υ)
  /-- At `item->value = value`. -/
  | storeValue (a : Addr) (value : υ)
  /-- At `if (listDictionary->head)` of `ListDictionary_Remove_Head`. -/
  | removeHead
  /-- At `item = listDictionary->head` of `ListDictionary_Remove_Head`. -/
  | firstItem
  /-- At the load of `listDictionary->head` for its `next`, the item being `a`. -/
  | firstHead (a : Addr)
  /-- At the load of `next`, `head` having been `b`. -/
  | firstNext (b a : Addr)
  /-- At `if (listDictionary->head)` of `ListDictionary_Clear`. -/
  | clear
  /-- At `item = listDictionary->head` of `ListDictionary_Clear`. -/
  | clearHead
  /-- At `while (item)`, and `nextItem = item->next`. -/
  | clearItem (item : Option Addr)
  /-- At `objectKey.fnObjectFree(item->key)`, if there is one. -/
  | clearKey (a : Addr) (nextItem : Option Addr)
  /-- At `objectValue.fnObjectFree(item->value)`, if there is one. -/
  | clearValue (a : Addr) (nextItem : Option Addr)
  /-- At `free(item)` of `ListDictionary_Clear`. -/
  | clearFree (a : Addr) (nextItem : Option Addr)
  /-- At `item = listDictionary->head` of `ListDictionary_Count`. -/
  | count
  /-- At `while (item)`, and `item = item->next`. -/
  | countItem (item : Option Addr) (count : ℤ)
  deriving DecidableEq

/-- The call of one of the functions as a whole that a call is, if `malloc` finds memory at `a`. -/
def Call.op (a : Addr) : Call κ υ → Op κ υ
  | .add key value mallocOk => .add key value (if mallocOk then some a else none)
  | .remove key => .remove key
  | .removeHead => .removeHead
  | .setItemValue key value => .setItemValue key value
  | .clear => .clear
  | .contains key => .contains key
  | .getItemValue key => .getItemValue key
  | .count => .count

/-- The place of a function behind `EnterCriticalSection`. -/
def Call.entry : Call κ υ → Pc κ υ
  | .add key value mallocOk => .malloc key value mallocOk
  | .remove key => .search .remove key
  | .removeHead => .removeHead
  | .setItemValue key value => .search (.setItemValue value) key
  | .clear => .clear
  | .contains key => .search .contains key
  | .getItemValue key => .search .getItemValue key
  | .count => .count

/-- What is returned where no item has the key. -/
def Goal.missing (o : Objects κ υ) : Goal υ → Ret κ υ
  | .contains | .setItemValue _ => .bool false
  | .remove | .getItemValue => .value o.null

/-- What is done with the item `a` that has the key, `prevItem` coming before it. -/
def Goal.found (prevItem : Option Addr) (a : Addr) : Goal υ → Pc κ υ ⊕ Ret κ υ
  | .contains => .inr (.bool true)
  | .remove => .inl (.unlink prevItem a)
  | .getItemValue => .inl (.value a)
  | .setItemValue value => .inl (.freeValue a value)

/-- **One access of a function**; where `malloc` finds memory is up to the allocator, as long as
there is no item. An access to memory without an item cannot be made. -/
def access (o : Objects κ υ) : Code Addr (Pc κ υ) (ListDictionary κ υ) (Ret κ υ)
  | _, .malloc _ _ false, d => some (d, .inr (.bool false))
  | a, .malloc key value true, d =>
    if (d.items a).isNone then
      some ({ d with
        items := d.items.store a { key, value, next := none }
        allocated := d.allocated + 1 }, .inl (.addHead a))
    else none
  | _, .addHead a, d => some (d, .inl (if d.head.isNone then .setHead a else .lastHead a))
  | _, .setHead a, d => some ({ d with head := some a }, .inr (.bool true))
  | _, .lastHead a, d => d.head.map fun first => (d, .inl (.lastNext first a))
  | _, .lastNext lastItem a, d => (d.items lastItem).map fun item =>
    (d, .inl (if item.next.isNone then .link lastItem a else .lastGo lastItem a))
  | _, .lastGo lastItem a, d => (d.items lastItem).bind fun item =>
    item.next.map fun b => (d, .inl (.lastNext b a))
  | _, .link lastItem a, d => (d.items lastItem).map fun _ =>
    ({ d with items := d.items.setNext lastItem (some a) }, .inr (.bool true))
  | _, .search goal key, d => some (d, .inl (.searchKey goal key none d.head))
  | _, .searchKey goal _ _ none, d => some (d, .inr (goal.missing o))
  | _, .searchKey goal key prevItem (some a), d => (d.items a).map fun item =>
    (d, if o.keyEquals item.key key then goal.found prevItem a else .inl (.searchNext goal key a))
  | _, .searchNext goal key a, d => (d.items a).map fun item =>
    (d, .inl (.searchKey goal key (some a) item.next))
  | _, .unlink none a, d => (d.items a).map fun item => (d, .inl (.storeHead item.next a))
  | _, .unlink (some prevItem) a, d => (d.items a).map fun item =>
    (d, .inl (.storeNext prevItem item.next a))
  | _, .storeHead p a, d => some ({ d with head := p }, .inl (.take a))
  | _, .storeNext prevItem p a, d => (d.items prevItem).map fun _ =>
    ({ d with items := d.items.setNext prevItem p }, .inl (.take a))
  | _, .take a, d => (d.items a).map fun item => (d, .inl (.free a item.value))
  | _, .free a value, d => (d.items a).map fun _ =>
    ({ d with items := d.items.free a }, .inr (.value value))
  | _, .value a, d => (d.items a).map fun item => (d, .inr (.value item.value))
  | _, .freeValue a value, d => (d.items a).map fun item =>
    ({ d with released := d.released ++ if o.valueFree then [Sum.inr item.value] else [] },
      .inl (.storeValue a value))
  | _, .storeValue a value, d => (d.items a).map fun item =>
    ({ d with items := d.items.store a { item with value } }, .inr (.bool true))
  | _, .removeHead, d =>
    match d.head with
    | none => some (d, .inr (.value o.null))
    | some _ => some (d, .inl .firstItem)
  | _, .firstItem, d => d.head.map fun a => (d, .inl (.firstHead a))
  | _, .firstHead a, d => d.head.map fun b => (d, .inl (.firstNext b a))
  | _, .firstNext b a, d => (d.items b).map fun item => (d, .inl (.storeHead item.next a))
  | _, .clear, d =>
    match d.head with
    | none => some (d, .inr .void)
    | some _ => some (d, .inl .clearHead)
  | _, .clearHead, d => some (d, .inl (.clearItem d.head))
  | _, .clearItem none, d => some ({ d with head := none }, .inr .void)
  | _, .clearItem (some a), d => (d.items a).map fun item => (d, .inl (.clearKey a item.next))
  | _, .clearKey a nextItem, d => (d.items a).map fun item =>
    ({ d with released := d.released ++ if o.keyFree then [Sum.inl item.key] else [] },
      .inl (.clearValue a nextItem))
  | _, .clearValue a nextItem, d => (d.items a).map fun item =>
    ({ d with released := d.released ++ if o.valueFree then [Sum.inr item.value] else [] },
      .inl (.clearFree a nextItem))
  | _, .clearFree a nextItem, d => (d.items a).map fun _ =>
    ({ d with items := d.items.free a }, .inl (.clearItem nextItem))
  | _, .count, d => some (d, .inl (.countItem d.head 0))
  | _, .countItem none count, d => some (d, .inr (.int count))
  | _, .countItem (some a) count, d => (d.items a).map fun item =>
    (d, .inl (.countItem item.next (int (count + 1))))

/-! ### A function alone -/

section Alone

variable {o : Objects κ υ} {d d' e : ListDictionary κ υ} {r : Ret κ υ}
  {post : ListDictionary κ υ → Ret κ υ → Prop} {key : κ} {value : υ} {goal : Goal υ}
  {p q prevItem prevItem' : Option Addr} {a b : Addr} {h h' : Heap κ υ} {item : Item κ υ}
  {fuel : ℕ}

theorem load_eq_ok (ha : h.load a = .ok item) : h a = some item := by
  unfold Heap.load at ha
  split at ha
  case h_1 item' heq => rw [heq, Except.ok.inj ha]
  case h_2 => cases ha

/-- What has succeeded, and what comes after it. -/
theorem bind_eq_ok {ε α β : Type} {x : Except ε α} {f : α → Except ε β} {y : β}
    (hx : x.bind f = .ok y) : ∃ z, x = .ok z ∧ f z = .ok y := by
  cases x with
  | error e => cases hx
  | ok z => exact ⟨z, rfl, hx⟩

theorem map_eq_ok {ε α β : Type} {x : Except ε α} {f : α → β} {y : β}
    (hx : x.map f = .ok y) : ∃ z, x = .ok z ∧ f z = y := by
  cases x with
  | error e => cases hx
  | ok z => exact ⟨z, rfl, Except.ok.inj hx⟩

/-- An access that loads an item, and what comes after it. -/
theorem ends_of_load {pc : Pc κ υ}
    {f : Item κ υ → ListDictionary κ υ × (Pc κ υ ⊕ Ret κ υ)}
    (hpc : ∀ x, access o x pc d = (d.items a).map f) (ha : d.items a = some item)
    (hrest : Ends (access o) post (f item).2 (f item).1) : Ends (access o) post (.inl pc) d :=
  .of_eq (fun x => by rw [hpc, ha]; rfl) hrest

/-- A walk that stops at a key. -/
theorem ends_search
    (hloop : searchLoop d.items (o.keyEquals · key) fuel prevItem p = .ok (prevItem', q))
    (hrest : Ends (access o) post
      (q.elim (.inr (goal.missing o)) fun a => goal.found prevItem' a) d) :
    Ends (access o) post (.inl (.searchKey goal key prevItem p)) d := by
  induction fuel generalizing prevItem p with
  | zero =>
    cases p with
    | none =>
      obtain ⟨rfl, rfl⟩ := Prod.mk.inj (Except.ok.inj hloop)
      exact .of_eq (fun _ => rfl) hrest
    | some a => cases hloop
  | succ fuel ih =>
    cases p with
    | none =>
      obtain ⟨rfl, rfl⟩ := Prod.mk.inj (Except.ok.inj hloop)
      exact .of_eq (fun _ => rfl) hrest
    | some a =>
      obtain ⟨item, hload, hloop⟩ := bind_eq_ok hloop
      refine ends_of_load (fun _ => rfl) (load_eq_ok hload) ?_
      by_cases hkey : o.keyEquals item.key key = true
      · rw [if_pos hkey] at hloop ⊢
        obtain ⟨rfl, rfl⟩ := Prod.mk.inj (Except.ok.inj hloop)
        exact hrest
      · rw [if_neg hkey] at hloop ⊢
        exact ends_of_load (fun _ => rfl) (load_eq_ok hload) (ih hloop)

/-- The item found is an item, and so is the one before it. -/
theorem isSome_prevItem {isKey : κ → Bool}
    (hloop : searchLoop h isKey fuel prevItem p = .ok (prevItem', q)) :
    prevItem' = prevItem ∨ ∃ b item, prevItem' = some b ∧ h b = some item := by
  induction fuel generalizing prevItem p with
  | zero =>
    cases p with
    | none => exact .inl (Prod.mk.inj (Except.ok.inj hloop)).1.symm
    | some a => cases hloop
  | succ fuel ih =>
    cases p with
    | none => exact .inl (Prod.mk.inj (Except.ok.inj hloop)).1.symm
    | some a =>
      obtain ⟨item, hload, hloop⟩ := bind_eq_ok hloop
      split at hloop
      case isTrue => exact .inl (Prod.mk.inj (Except.ok.inj hloop)).1.symm
      case isFalse =>
        rcases ih hloop with rfl | hprev
        · exact .inr ⟨a, item, rfl, load_eq_ok hload⟩
        · exact .inr hprev

/-- A walk to the last item, and the link to the new one. -/
theorem ends_last (hloop : lastLoop d.items fuel a = .ok b) (new : Addr)
    (hpost : post { d with items := d.items.setNext b (some new) } (.bool true)) :
    Ends (access o) post (.inl (.lastNext a new)) d := by
  induction fuel generalizing a with
  | zero => cases hloop
  | succ fuel ih =>
    obtain ⟨item, hload, hloop⟩ := bind_eq_ok hloop
    have ha := load_eq_ok hload
    refine ends_of_load (fun _ => rfl) ha ?_
    cases hnext : item.next with
    | none =>
      rw [hnext] at hloop
      obtain rfl := Except.ok.inj hloop
      exact ends_of_load (fun _ => rfl) ha (.done hpost)
    | some c =>
      rw [hnext] at hloop
      refine .of_eq (y := .inl (.lastNext c new)) (fun x => ?_) (ih hloop)
      simp only [Option.isNone_some, Bool.false_eq_true, if_false, access, ha, Option.bind_some,
        hnext, Option.map_some]

/-- A walk that counts. -/
theorem ends_count {c n : ℤ} (hloop : countLoop d.items fuel p c = .ok n)
    (hpost : post d (.int n)) : Ends (access o) post (.inl (.countItem p c)) d := by
  induction fuel generalizing p c with
  | zero =>
    cases p with
    | none =>
      obtain rfl := Except.ok.inj hloop
      exact .of_eq (fun _ => rfl) (.done hpost)
    | some a => cases hloop
  | succ fuel ih =>
    cases p with
    | none =>
      obtain rfl := Except.ok.inj hloop
      exact .of_eq (fun _ => rfl) (.done hpost)
    | some a =>
      obtain ⟨item, hload, hloop⟩ := bind_eq_ok hloop
      exact ends_of_load (fun _ => rfl) (load_eq_ok hload) (ih hloop)

/-- The walk that frees. -/
theorem ends_clear {rel rel' : List (κ ⊕ υ)}
    (hloop : clearLoop o fuel p h rel = .ok (h', rel'))
    (hpost : post { d with head := none, items := h', released := rel' } .void) :
    Ends (access o) post (.inl (.clearItem p)) { d with items := h, released := rel } := by
  induction fuel generalizing p h rel with
  | zero =>
    cases p with
    | none =>
      obtain ⟨rfl, rfl⟩ := Prod.mk.inj (Except.ok.inj hloop)
      exact .of_eq (fun _ => rfl) (.done hpost)
    | some a => cases hloop
  | succ fuel ih =>
    cases p with
    | none =>
      obtain ⟨rfl, rfl⟩ := Prod.mk.inj (Except.ok.inj hloop)
      exact .of_eq (fun _ => rfl) (.done hpost)
    | some a =>
      obtain ⟨item, hload, hloop⟩ := bind_eq_ok hloop
      have ha := load_eq_ok hload
      refine ends_of_load (fun _ => rfl) ha ?_
      refine ends_of_load (fun _ => rfl) ha ?_
      refine ends_of_load (fun _ => rfl) ha ?_
      exact ends_of_load (fun _ => rfl) ha (ih hloop)

/-- Taking the first item off the list and returning its value, its `next` being loaded. -/
theorem ends_free_head (ha : d.items a = some item)
    (hpost : post { d with head := p, items := d.items.free a } (.value item.value)) :
    Ends (access o) post (.inl (.storeHead p a)) d := by
  refine .of_eq (t := { d with head := p }) (fun _ => rfl) ?_
  refine ends_of_load (fun _ => rfl) ha ?_
  exact ends_of_load (fun _ => rfl) ha (.done hpost)

theorem ends_unlink_head (ha : d.items a = some item)
    (hpost : post { d with head := item.next, items := d.items.free a } (.value item.value)) :
    Ends (access o) post (.inl (.unlink none a)) d :=
  ends_of_load (fun _ => rfl) ha (ends_free_head ha hpost)

/-- Taking an item off the list that is behind another. -/
theorem ends_unlink {item' : Item κ υ} (ha : d.items a = some item) (hb : d.items b = some item')
    (hpost : post { d with items := (d.items.setNext b item.next).free a } (.value item.value)) :
    Ends (access o) post (.inl (.unlink (some b) a)) d := by
  refine ends_of_load (fun _ => rfl) ha ?_
  refine ends_of_load (fun _ => rfl) hb ?_
  -- the store into the item before may be one into the item itself
  obtain ⟨p, hp⟩ : ∃ p, d.items.setNext b item.next a = some { item with next := p } := by
    rcases eq_or_ne a b with rfl | hne
    · exact ⟨_, Heap.setNext_self ha⟩
    · exact ⟨item.next, by rw [Heap.setNext_of_ne hne, ha]⟩
  refine ends_of_load (fun _ => rfl) hp ?_
  exact ends_of_load (fun _ => rfl) hp (.done hpost)

/-! ### The functions alone -/

@[simp] theorem enter_head (d : ListDictionary κ υ) : d.enter.head = d.head := (enter_eq d).1

@[simp] theorem enter_items (d : ListDictionary κ υ) : d.enter.items = d.items := (enter_eq d).2.1

@[simp] theorem enter_allocated (d : ListDictionary κ υ) : d.enter.allocated = d.allocated :=
  (enter_eq d).2.2.1

@[simp] theorem enter_released' (d : ListDictionary κ υ) : d.enter.released = d.released :=
  (enter_eq d).2.2.2.1

/-- **A lock that is entered and left is as it was**, whatever is done in between. -/
theorem leave_enter (d : ListDictionary κ υ) (head : Option Addr) (items : Heap κ υ)
    (allocated : ℕ) (released : List (κ ⊕ υ)) :
    ({ d.enter with head, items, allocated, released } : ListDictionary κ υ).leave =
      { d with head, items, allocated, released } := by
  obtain ⟨synchronized, lock, head', items', allocated', released'⟩ := d
  cases synchronized <;> rfl

theorem leave_enter_self (d : ListDictionary κ υ) : d.enter.leave = d := by
  obtain ⟨synchronized, lock, head, items, allocated, released⟩ := d
  cases synchronized <;> rfl

theorem ends_of_count (hexec : exec o d .count = .ok (d', r)) (hpost : post d' r) :
    Ends (access o) post (.inl .count) d := by
  obtain ⟨⟨e, n⟩, hcount, hr⟩ := map_eq_ok hexec
  obtain ⟨m, hloop, hcount⟩ := bind_eq_ok hcount
  obtain ⟨rfl, rfl⟩ := Prod.mk.inj (Except.ok.inj hcount)
  obtain ⟨rfl, rfl⟩ := Prod.mk.inj hr
  rw [leave_enter_self] at hpost
  rw [enter_head, enter_items, enter_allocated] at hloop
  exact .of_eq (fun _ => rfl) (ends_count hloop hpost)

theorem ends_of_contains (hexec : exec o d (.contains key) = .ok (d', r)) (hpost : post d' r) :
    Ends (access o) post (.inl (.search .contains key)) d := by
  obtain ⟨⟨e, n⟩, hcontains, hr⟩ := map_eq_ok hexec
  obtain ⟨⟨prev, q⟩, hloop, hcontains⟩ := bind_eq_ok hcontains
  obtain ⟨rfl, rfl⟩ := Prod.mk.inj (Except.ok.inj hcontains)
  obtain ⟨rfl, rfl⟩ := Prod.mk.inj hr
  rw [leave_enter_self] at hpost
  rw [enter_head, enter_items, enter_allocated] at hloop
  refine .of_eq (fun _ => rfl) (ends_search hloop ?_)
  cases q with
  | none => exact .done hpost
  | some a => exact .done hpost

theorem ends_of_getItemValue (hexec : exec o d (.getItemValue key) = .ok (d', r))
    (hpost : post d' r) : Ends (access o) post (.inl (.search .getItemValue key)) d := by
  obtain ⟨⟨e, n⟩, hget, hr⟩ := map_eq_ok hexec
  obtain ⟨⟨prev, q⟩, hloop, hget⟩ := bind_eq_ok hget
  rw [enter_head, enter_items, enter_allocated] at hloop
  refine .of_eq (fun _ => rfl) (ends_search hloop ?_)
  cases q with
  | none =>
    obtain ⟨rfl, rfl⟩ := Prod.mk.inj (Except.ok.inj hget)
    obtain ⟨rfl, rfl⟩ := Prod.mk.inj hr
    rw [leave_enter_self] at hpost
    exact .done hpost
  | some a =>
    obtain ⟨item, hload, hget⟩ := bind_eq_ok hget
    obtain ⟨rfl, rfl⟩ := Prod.mk.inj (Except.ok.inj hget)
    obtain ⟨rfl, rfl⟩ := Prod.mk.inj hr
    rw [leave_enter_self] at hpost
    rw [enter_items] at hload
    exact ends_of_load (fun _ => rfl) (load_eq_ok hload) (.done hpost)

theorem ends_of_setItemValue (hexec : exec o d (.setItemValue key value) = .ok (d', r))
    (hpost : post d' r) : Ends (access o) post (.inl (.search (.setItemValue value) key)) d := by
  obtain ⟨⟨e, n⟩, hset, hr⟩ := map_eq_ok hexec
  obtain ⟨⟨prev, q⟩, hloop, hset⟩ := bind_eq_ok hset
  rw [enter_head, enter_items, enter_allocated] at hloop
  refine .of_eq (fun _ => rfl) (ends_search hloop ?_)
  cases q with
  | none =>
    obtain ⟨rfl, rfl⟩ := Prod.mk.inj (Except.ok.inj hset)
    obtain ⟨rfl, rfl⟩ := Prod.mk.inj hr
    rw [leave_enter_self] at hpost
    exact .done hpost
  | some a =>
    obtain ⟨item, hload, hset⟩ := bind_eq_ok hset
    obtain ⟨rfl, rfl⟩ := Prod.mk.inj (Except.ok.inj hset)
    obtain ⟨rfl, rfl⟩ := Prod.mk.inj hr
    rw [leave_enter, enter_head, enter_items, enter_allocated, enter_released'] at hpost
    rw [enter_items] at hload
    refine ends_of_load (fun _ => rfl) (load_eq_ok hload) ?_
    exact ends_of_load (fun _ => rfl) (load_eq_ok hload) (.done hpost)

theorem ends_of_remove (hexec : exec o d (.remove key) = .ok (d', r)) (hpost : post d' r) :
    Ends (access o) post (.inl (.search .remove key)) d := by
  obtain ⟨⟨e, n⟩, hremove, hr⟩ := map_eq_ok hexec
  obtain ⟨⟨prev, q⟩, hloop, hremove⟩ := bind_eq_ok hremove
  rw [enter_head, enter_items, enter_allocated] at hloop
  refine .of_eq (fun _ => rfl) (ends_search hloop ?_)
  cases q with
  | none =>
    obtain ⟨rfl, rfl⟩ := Prod.mk.inj (Except.ok.inj hremove)
    obtain ⟨rfl, rfl⟩ := Prod.mk.inj hr
    rw [leave_enter_self] at hpost
    exact .done hpost
  | some a =>
    cases prev with
    | none =>
      obtain ⟨item, hload, hremove⟩ := bind_eq_ok hremove
      obtain ⟨rfl, rfl⟩ := Prod.mk.inj (Except.ok.inj hremove)
      obtain ⟨rfl, rfl⟩ := Prod.mk.inj hr
      rw [leave_enter, enter_items, enter_allocated, enter_released'] at hpost
      rw [enter_items] at hload
      exact ends_unlink_head (load_eq_ok hload) hpost
    | some b =>
      obtain ⟨item, hload, hremove⟩ := bind_eq_ok hremove
      obtain ⟨rfl, rfl⟩ := Prod.mk.inj (Except.ok.inj hremove)
      obtain ⟨rfl, rfl⟩ := Prod.mk.inj hr
      rw [leave_enter, enter_head, enter_items, enter_allocated, enter_released'] at hpost
      rw [enter_items] at hload
      obtain hprev | ⟨c, item', hprev, hc⟩ := isSome_prevItem hloop
      · cases hprev
      · obtain rfl := Option.some.inj hprev
        exact ends_unlink (load_eq_ok hload) hc hpost

theorem ends_of_removeHead (hexec : exec o d .removeHead = .ok (d', r)) (hpost : post d' r) :
    Ends (access o) post (.inl .removeHead) d := by
  obtain ⟨⟨e, n⟩, hremove, hr⟩ := map_eq_ok hexec
  unfold listDictionaryRemoveHead at hremove
  simp only [enter_head, enter_items] at hremove
  cases hhead : d.head with
  | none =>
    rw [hhead] at hremove
    obtain ⟨rfl, rfl⟩ := Prod.mk.inj (Except.ok.inj hremove)
    obtain ⟨rfl, rfl⟩ := Prod.mk.inj hr
    rw [leave_enter_self] at hpost
    exact .of_eq (t := d) (fun x => by simp only [access, hhead]) (.done hpost)
  | some a =>
    rw [hhead] at hremove
    obtain ⟨item, hload, hremove⟩ := bind_eq_ok hremove
    obtain ⟨rfl, rfl⟩ := Prod.mk.inj (Except.ok.inj hremove)
    obtain ⟨rfl, rfl⟩ := Prod.mk.inj hr
    rw [leave_enter, enter_allocated, enter_released'] at hpost
    refine .of_eq (t := d) (y := .inl .firstItem) (fun x => by simp only [access, hhead]) ?_
    refine .of_eq (t := d) (y := .inl (.firstHead a)) (fun x => by rw [access, hhead]; rfl) ?_
    refine .of_eq (t := d) (y := .inl (.firstNext a a)) (fun x => by rw [access, hhead]; rfl) ?_
    refine ends_of_load (fun x => rfl) (load_eq_ok hload) ?_
    exact ends_free_head (load_eq_ok hload) hpost

theorem ends_of_clear (hexec : exec o d .clear = .ok (d', r)) (hpost : post d' r) :
    Ends (access o) post (.inl .clear) d := by
  obtain ⟨e, hclear, hr⟩ := map_eq_ok hexec
  obtain ⟨⟨items, rel⟩, hloop, hclear⟩ := bind_eq_ok hclear
  obtain rfl := Except.ok.inj hclear
  obtain ⟨rfl, rfl⟩ := Prod.mk.inj hr
  rw [leave_enter, enter_allocated] at hpost
  rw [enter_head, enter_items, enter_allocated, enter_released'] at hloop
  cases hhead : d.head with
  | none =>
    -- there is nothing to walk along, and `head` is not written
    rw [hhead] at hloop
    obtain ⟨rfl, rfl⟩ : d.items = items ∧ d.released = rel := by
      cases hfuel : d.allocated <;> rw [hfuel] at hloop <;>
        exact Prod.mk.inj (Except.ok.inj hloop)
    rw [← hhead] at hpost
    exact .of_eq (t := d) (fun x => by simp only [access, hhead]) (.done hpost)
  | some a =>
    rw [hhead] at hloop
    refine .of_eq (t := d) (y := .inl .clearHead) (fun x => by simp only [access, hhead]) ?_
    refine .of_eq (t := d) (y := .inl (.clearItem (some a))) (fun x => by rw [access, hhead]) ?_
    exact ends_clear hloop hpost

theorem ends_of_add_none (hexec : exec o d (.add key value none) = .ok (d', r))
    (hpost : post d' r) : Ends (access o) post (.inl (.malloc key value false)) d := by
  rw [exec] at hexec
  obtain ⟨⟨e, n⟩, hadd, hr⟩ := map_eq_ok hexec
  obtain ⟨rfl, rfl⟩ := Prod.mk.inj (Except.ok.inj hadd)
  obtain ⟨rfl, rfl⟩ := Prod.mk.inj hr
  rw [leave_enter_self] at hpost
  exact .of_eq (fun _ => rfl) (.done hpost)

/-- What `ListDictionary_Add` does with the memory it has got. -/
theorem ends_of_add (hexec : exec o d (.add key value (some a)) = .ok (d', r))
    (hpost : post d' r) : Ends (access o) post (.inl (.addHead a))
      { d with items := d.items.store a ⟨key, value, none⟩, allocated := d.allocated + 1 } := by
  rw [exec] at hexec
  obtain ⟨⟨e, n⟩, hadd, hr⟩ := map_eq_ok hexec
  unfold listDictionaryAdd at hadd
  simp only [enter_head, enter_items, enter_allocated] at hadd
  cases hhead : d.head with
  | none =>
    rw [hhead] at hadd
    obtain ⟨rfl, rfl⟩ := Prod.mk.inj (Except.ok.inj hadd)
    obtain ⟨rfl, rfl⟩ := Prod.mk.inj hr
    rw [leave_enter, enter_released'] at hpost
    refine .of_eq (y := .inl (.setHead a)) (fun _ => rfl) ?_
    exact .of_eq (fun _ => rfl) (.done hpost)
  | some first =>
    rw [hhead] at hadd
    obtain ⟨b, hloop, hadd⟩ := bind_eq_ok hadd
    obtain ⟨rfl, rfl⟩ := Prod.mk.inj (Except.ok.inj hadd)
    obtain ⟨rfl, rfl⟩ := Prod.mk.inj hr
    rw [leave_enter, enter_released'] at hpost
    refine .of_eq (y := .inl (.lastHead a)) (fun _ => rfl) ?_
    refine .of_eq (y := .inl (.lastNext first a)) (fun _ => rfl) ?_
    exact ends_last hloop a hpost

/-- **A function that nobody interferes with** comes to an end, access by access, where the
function of `libuzi/dictionary.c` comes to an end, whatever memory `malloc` finds. -/
theorem ends_of_exec (call : Call κ υ) (hroom : ∃ a, d.items a = none)
    (hexec : ∀ a, d.items a = none →
      ∃ d' r, exec o d (call.op a) = .ok (d', r) ∧ post d' r) :
    Ends (access o) post (.inl call.entry) d := by
  obtain ⟨a, ha⟩ := hroom
  obtain ⟨d', r, hcall, hpost⟩ := hexec a ha
  cases call with
  | add key value mallocOk =>
    cases mallocOk with
    | false => exact ends_of_add_none hcall hpost
    | true =>
      refine .access ⟨a, ?_⟩ fun x s y hx => ?_
      · simp only [Call.entry, access, ha, Option.isNone_none, if_true, Option.isSome_some]
      · simp only [Call.entry, access, Option.isNone_iff_eq_none, Option.ite_none_right_eq_some,
          Option.some.injEq, Prod.mk.injEq] at hx
        obtain ⟨hfree, rfl, rfl⟩ := hx
        obtain ⟨d'', r', hcall', hpost'⟩ := hexec x hfree
        exact ends_of_add hcall' hpost'
  | remove key => exact ends_of_remove hcall hpost
  | removeHead => exact ends_of_removeHead hcall hpost
  | setItemValue key value => exact ends_of_setItemValue hcall hpost
  | clear => exact ends_of_clear hcall hpost
  | contains key => exact ends_of_contains hcall hpost
  | getItemValue key => exact ends_of_getItemValue hcall hpost
  | count => exact ends_of_count hcall hpost

end Alone

/-! ### The atomic object -/

/-- What a dictionary stands for: its keys and values in order, and what has been released. -/
abbrev Contents (κ υ : Type) := List (κ × υ) × List (κ ⊕ υ)

/-- **A call, all at once**: the contents afterwards, and what it returns. Where the memory of an
item comes from is of no concern here. -/
def atomically (o : Objects κ υ) (call : Call κ υ) (c : Contents κ υ) : Contents κ υ × Ret κ υ :=
  ((after o c.1 (call.op 0), c.2 ++ releasedBy o c.1 (call.op 0)),
    match call with
    | .count => .int (int c.1.length)
    | call => ret o c.1 (call.op 0))

/-- The items in memory are those of the contents, and the same has been released. -/
def Holds (d : ListDictionary κ υ) (c : Contents κ υ) : Prop := Represents d c.1 ∧ d.released = c.2

section Atomic

variable {o : Objects κ υ} {d : ListDictionary κ υ} {c : Contents κ υ} {a : Addr}

/-- There is always memory without an item. -/
theorem Represents.exists_unused {xs : List (κ × υ)} (h : Represents d xs) :
    ∃ a, d.items a = none := by
  obtain ⟨ns, hst, -⟩ := h.stores
  obtain ⟨a, ha⟩ := Infinite.exists_notMem_finset (ns.map Prod.fst).toFinset
  exact ⟨a, hst.only a fun hmem => ha (List.mem_toFinset.mpr hmem)⟩

/-- **A function does what the call does to the contents**, wherever `malloc` finds memory. -/
theorem exec_atomically (call : Call κ υ) (h : Holds d c) (ha : d.items a = none) :
    ∃ d' r, exec o d (call.op a) = .ok (d', r) ∧
      r = (atomically o call c).2 ∧ Holds d' (atomically o call c).1 := by
  obtain ⟨hrep, hrel⟩ := h
  have hspec : ∀ op : Op κ υ, Unused d op → Countable c.1 op →
      ∃ d', exec o d op = .ok (d', ret o c.1 op) ∧
      Holds d' (after o c.1 op, c.2 ++ releasedBy o c.1 op) := by
    intro op hunused hcount
    obtain ⟨d', hexec, hrep', hrel'⟩ := exec_spec (o := o) hrep hunused hcount
    exact ⟨d', hexec, hrep', by rw [hrel', hrel]⟩
  cases call with
  | add key value mallocOk =>
    cases mallocOk with
    | false =>
      obtain ⟨d', hexec, hd'⟩ := hspec (.add key value none) trivial trivial
      exact ⟨d', _, hexec, rfl, hd'⟩
    | true =>
      obtain ⟨d', hexec, hd'⟩ := hspec (.add key value (some a)) ha trivial
      exact ⟨d', _, hexec, rfl, hd'⟩
  | remove key =>
    obtain ⟨d', hexec, hd'⟩ := hspec (.remove key) trivial trivial
    exact ⟨d', _, hexec, rfl, hd'⟩
  | removeHead =>
    obtain ⟨d', hexec, hd'⟩ := hspec .removeHead trivial trivial
    exact ⟨d', _, hexec, rfl, hd'⟩
  | setItemValue key value =>
    obtain ⟨d', hexec, hd'⟩ := hspec (.setItemValue key value) trivial trivial
    exact ⟨d', _, hexec, rfl, hd'⟩
  | clear =>
    obtain ⟨d', hexec, hd'⟩ := hspec .clear trivial trivial
    exact ⟨d', _, hexec, rfl, hd'⟩
  | contains key =>
    obtain ⟨d', hexec, hd'⟩ := hspec (.contains key) trivial trivial
    exact ⟨d', _, hexec, rfl, hd'⟩
  | getItemValue key =>
    obtain ⟨d', hexec, hd'⟩ := hspec (.getItemValue key) trivial trivial
    exact ⟨d', _, hexec, rfl, hd'⟩
  | count =>
    -- what is counted need not fit an `int`
    obtain ⟨ns, hst, hns⟩ := hrep.stores
    obtain ⟨d', hexec, hst', hlock, hrel'⟩ := exec_count o hst
    refine ⟨d', _, hexec, ?_, ⟨⟨ns, hst', hns⟩, hlock.trans hrep.lock⟩, ?_⟩
    · rw [atomically, ← hns, List.length_map]
    · rw [hrel', hrel]
      rfl

/-- **The functions, access by access, implement the calls.** -/
theorem implements_atomically (o : Objects κ υ) :
    Implements (access o) Call.entry (atomically o) Holds := by
  intro call d c h
  exact ends_of_exec call h.1.exists_unused fun a ha => exec_atomically call h ha

end Atomic

/-! ### The threads -/

/-- What the threads share. -/
structure Shared (κ υ : Type) where
  /-- `lock`. -/
  lock : CriticalSection
  /-- The dictionary, and the calls and returns so far. -/
  object : Object (ListDictionary κ υ) (Call κ υ) (Ret κ υ)

/-- Where a thread stands. -/
inductive Local (κ υ : Type)
  /-- In none of the functions. -/
  | idle
  /-- In `EnterCriticalSection`. -/
  | entering (start : ℕ) (call : Call κ υ) (p : Critical.EnterPc)
  /-- Behind it. -/
  | working (start : ℕ) (call : Call κ υ) (pc : Pc κ υ)
  /-- In `LeaveCriticalSection`. -/
  | leaving (start : ℕ) (result : Ret κ υ) (p : Critical.LeavePc)
  /-- At the `return`. -/
  | returning (start : ℕ) (result : Ret κ υ)
  deriving DecidableEq

/-- What a thread does next. -/
inductive Choice (κ υ : Type)
  /-- Call one of the functions. -/
  | call (call : Call κ υ)
  /-- Go on with it, `malloc` finding memory at `a` if it is called. -/
  | go (a : Addr)

variable {ι : Type*}

/-- **One step of thread `i`.** -/
def next (o : Objects κ υ) (tid : ι → ℕ) (i : ι) (x : Choice κ υ) (s : Shared κ υ)
    (l : Local κ υ) : Option (Shared κ υ × Local κ υ) :=
  match l, x with
  | .idle, .call call =>
    some ({ s with object := { s.object with history := s.object.history ++ [.call call] } },
      if s.object.state.synchronized then .entering s.object.history.length call .loadSpin
      else .working s.object.history.length call call.entry)
  | .entering k call p, .go _ =>
    match Critical.enterCriticalSection long (tid i) s.lock p with
    | none => none
    | some (lock, some p') => some ({ s with lock }, .entering k call p')
    | some (lock, none) => some ({ s with lock }, .working k call call.entry)
  | .working k call pc, .go a =>
    match access o a pc s.object.state with
    | none => none
    | some (d, .inl pc') =>
      some ({ s with object := { s.object with state := d } }, .working k call pc')
    | some (d, .inr r) =>
      some ({ s with object := { s.object with state := d } },
        if d.synchronized then .leaving k r .loadRecursion else .returning k r)
  | .leaving k r p, .go _ =>
    match Critical.leaveCriticalSection long s.lock p with
    | (lock, some p') => some ({ s with lock }, .leaving k r p')
    | (lock, none) => some ({ s with lock }, .returning k r)
  | .returning k r, .go _ =>
    some ({ s with object := { s.object with history := s.object.history ++ [.ret k r] } }, .idle)
  | _, _ => none

/-- A dictionary that `ListDictionary_New` has just made, and every thread outside. -/
def start (ι : Type*) (synchronized : Bool) (cs : CriticalSection) :
    Config ι (Shared κ υ) (Local κ υ) where
  shared := { lock := cs, object := { state := listDictionaryNew synchronized, history := [] } }
  locals := fun _ => .idle

/-- The stage of a call that a thread is at. -/
def Local.stage : Local κ υ → Stage (Call κ υ) (Ret κ υ) (Pc κ υ)
  | .idle => .idle
  | .entering k call _ => .waiting k call
  | .working k call pc => .inside k call pc
  | .leaving k r _ | .returning k r => .done k r

/-- A thread as the critical section sees it. -/
def Local.critical : Local κ υ → Critical.Local
  | .idle | .returning _ _ => { pc := .idle, depth := 0 }
  | .entering _ _ p => { pc := .entering p, depth := 0 }
  | .working _ _ _ => { pc := .idle, depth := 1 }
  | .leaving _ _ p => { pc := .leaving p, depth := 1 }

section Threads

variable {o : Objects κ υ} {tid : ι → ℕ} {i : ι} {x : Choice κ υ} {s s' : Shared κ υ}
  {l l' : Local κ υ} {d d' : ListDictionary κ υ}

/-- No access changes whether a dictionary is synchronized. -/
theorem synchronized_access {a : Addr} {pc : Pc κ υ} {y : Pc κ υ ⊕ Ret κ υ}
    (h : access o a pc d = some (d', y)) : d'.synchronized = d.synchronized := by
  unfold access at h
  split at h <;> grind [Option.map_eq_some_iff, Option.bind_eq_some_iff]

/-- Nor does any step. -/
theorem synchronized_next (h : next o tid i x s l = some (s', l')) :
    s'.object.state.synchronized = s.object.state.synchronized := by
  unfold next at h
  split at h
  case h_1 =>
    obtain ⟨rfl, rfl⟩ := Prod.mk.inj (Option.some.inj h)
    rfl
  case h_2 =>
    split at h <;> cases h <;> rfl
  case h_3 =>
    split at h
    case h_1 => cases h
    case h_2 hacc =>
      obtain ⟨rfl, rfl⟩ := Prod.mk.inj (Option.some.inj h)
      exact synchronized_access hacc
    case h_3 hacc =>
      obtain ⟨rfl, rfl⟩ := Prod.mk.inj (Option.some.inj h)
      exact synchronized_access hacc
  case h_4 =>
    split at h <;> cases h <;> rfl
  case h_5 =>
    obtain ⟨rfl, rfl⟩ := Prod.mk.inj (Option.some.inj h)
    rfl
  case h_6 => cases h

/-- **What a step of a synchronized dictionary is** to the memory and the history. -/
theorem move_of_next (hsync : s.object.state.synchronized = true)
    (h : next o tid i x s l = some (s', l')) :
    Move (access o) Call.entry s.object l.stage s'.object l'.stage := by
  unfold next at h
  split at h
  case h_1 call =>
    rw [if_pos hsync] at h
    obtain ⟨rfl, rfl⟩ := Prod.mk.inj (Option.some.inj h)
    exact .call s.object call
  case h_2 k call p a =>
    split at h
    case h_1 => cases h
    case h_2 =>
      obtain ⟨rfl, rfl⟩ := Prod.mk.inj (Option.some.inj h)
      exact .other s.object _
    case h_3 =>
      obtain ⟨rfl, rfl⟩ := Prod.mk.inj (Option.some.inj h)
      exact .enter s.object k call
  case h_3 k call pc a =>
    split at h
    case h_1 => cases h
    case h_2 hacc =>
      obtain ⟨rfl, rfl⟩ := Prod.mk.inj (Option.some.inj h)
      exact .access s.object k call hacc
    case h_3 hacc =>
      rw [if_pos ((synchronized_access hacc).trans hsync)] at h
      obtain ⟨rfl, rfl⟩ := Prod.mk.inj (Option.some.inj h)
      exact .last s.object k call hacc
  case h_4 k r p a =>
    split at h <;>
      obtain ⟨rfl, rfl⟩ := Prod.mk.inj (Option.some.inj h) <;>
      exact .other s.object (.done k r)
  case h_5 k r a =>
    obtain ⟨rfl, rfl⟩ := Prod.mk.inj (Option.some.inj h)
    exact .ret s.object k r
  case h_6 => cases h

/-- **What it is to the critical section**: a step of its owner or of who wants to be, or none. -/
theorem critical_of_next (hsync : s.object.state.synchronized = true)
    (h : next o tid i x s l = some (s', l')) :
    (∃ b, Critical.next long tid i b s.lock l.critical = some (s'.lock, l'.critical)) ∨
      s'.lock = s.lock ∧ l'.critical = l.critical := by
  unfold next at h
  split at h
  case h_1 call =>
    rw [if_pos hsync] at h
    obtain ⟨rfl, rfl⟩ := Prod.mk.inj (Option.some.inj h)
    exact .inl ⟨.enter, rfl⟩
  case h_2 k call p a =>
    refine .inl ⟨.go, ?_⟩
    split at h
    case h_1 => cases h
    case h_2 hlock =>
      obtain ⟨rfl, rfl⟩ := Prod.mk.inj (Option.some.inj h)
      simp only [Critical.next, Local.critical, hlock]
    case h_3 hlock =>
      obtain ⟨rfl, rfl⟩ := Prod.mk.inj (Option.some.inj h)
      simp only [Critical.next, Local.critical, hlock, Nat.zero_add]
  case h_3 k call pc a =>
    split at h
    case h_1 => cases h
    case h_2 =>
      obtain ⟨rfl, rfl⟩ := Prod.mk.inj (Option.some.inj h)
      exact .inr ⟨rfl, rfl⟩
    case h_3 hacc =>
      rw [if_pos ((synchronized_access hacc).trans hsync)] at h
      obtain ⟨rfl, rfl⟩ := Prod.mk.inj (Option.some.inj h)
      exact .inl ⟨.leave, rfl⟩
  case h_4 k r p a =>
    refine .inl ⟨.go, ?_⟩
    split at h
    case h_1 hlock =>
      obtain ⟨rfl, rfl⟩ := Prod.mk.inj (Option.some.inj h)
      simp only [Critical.next, Local.critical, hlock]
    case h_2 hlock =>
      obtain ⟨rfl, rfl⟩ := Prod.mk.inj (Option.some.inj h)
      simp only [Critical.next, Local.critical, hlock, Nat.sub_self]
  case h_5 k r a =>
    obtain ⟨rfl, rfl⟩ := Prod.mk.inj (Option.some.inj h)
    exact .inr ⟨rfl, rfl⟩
  case h_6 => cases h

variable [DecidableEq ι] {cs : CriticalSection} {c : Config ι (Shared κ υ) (Local κ υ)}

/-- A step that is taken with a synchronized dictionary. -/
abbrev Synchronized (c : Config ι (Shared κ υ) (Local κ υ)) (_ : ι × Choice κ υ) : Prop :=
  c.shared.object.state.synchronized = true

/-- A synchronized dictionary stays one. -/
theorem synchronized_of_reaches
    (h : Reaches (threadStep (next o tid)) (start ι true cs) c) :
    ReachesIf (threadStep (next o tid)) Synchronized (start ι true cs) c := by
  refine (h.and_invariant (P := fun c => c.shared.object.state.synchronized = true) rfl ?_).1.mono
    fun t e hok => hok.2
  rintro t t' e ht - hstep
  obtain ⟨s, l, hn, rfl⟩ := threadStep_eq_some.mp hstep
  exact (synchronized_next hn).trans ht

variable [Fintype ι]

/-- Nobody counts in twice. -/
theorem lockWeight_critical_le (l : Local κ υ) : l.critical.view.lockWeight ≤ 1 := by
  cases l with
  | idle | returning k r => exact zero_le_one
  | working k call pc => exact le_rfl
  | entering k call p =>
    change Critical.View.lockWeight ⟨p.stage, 0⟩ ≤ 1
    cases p with
    | tryEnter n p => cases p <;> simp [Critical.View.lockWeight, Critical.EnterPc.stage,
        Critical.TryPc.stage]
    | _ => simp [Critical.View.lockWeight, Critical.EnterPc.stage]
  | leaving k r p =>
    change Critical.View.lockWeight ⟨p.stage, 1⟩ ≤ 1
    cases p <;> simp [Critical.View.lockWeight, Critical.LeavePc.stage]

omit [DecidableEq ι] in
/-- **The counters do not come round** with fewer than 2³² threads: a thread that enters holds
nothing yet, and no thread enters twice. -/
theorem fits_of_inv (hcard : Fintype.card ι < 2 ^ 32)
    {t : Config ι CriticalSection Critical.Local} (h : Critical.Inv long tid (Critical.views t))
    (hone : ∀ j, ((Critical.views t).locals j).lockWeight ≤ 1)
    (hl : ∃ l : Local κ υ, t.locals i = l.critical) (b : Critical.Choice) :
    Critical.Fits long t (i, b) := by
  -- nobody who is about to count in has done so
  have hroom : ((Critical.views t).locals i).lockWeight < 1 →
      long (t.shared.lockCount + 1) ≠ -1 := by
    intro hi
    have hlt := total_lt_card hone hi
    exact h.lockCount_add_one_ne (by omega)
  have hrecursion := (h.place i).recursion
  obtain ⟨l, hl⟩ := hl
  have hview : (Critical.views t).locals i = l.critical.view :=
    congrArg Critical.Local.view hl
  rw [hview] at hroom hrecursion
  change (t.locals i).pc.Fits long t.shared
  rw [hl]
  cases l with
  | idle | returning k r | working k call pc | leaving k r p => trivial
  | entering k call p =>
    -- a recursion would have the thread hold the section
    have hno : ¬0 < (Local.entering k call p : Local κ υ).critical.depth := lt_irrefl 0
    cases p with
    | tryEnter n p =>
      cases p with
      | storeRecursion v => exact absurd hrecursion.1 hno
      | increment => exact absurd hrecursion.1 hno
      | _ => trivial
    | storeRecursion v => exact absurd hrecursion.1 hno
    | increment => exact hroom zero_lt_one
    | _ => trivial

/-- **The critical section lets one thread in**, whatever its owner does to the dictionary. -/
theorem inside_unique (htid : Function.Injective tid) (hnull : ∀ i, tid i ≠ 0)
    (hcard : Fintype.card ι < 2 ^ 32) {mallocOk semInitOk : Bool} {p n flags : ℕ}
    (hcs : initializeCriticalSectionEx mallocOk semInitOk p n flags = some cs)
    (h : ReachesIf (threadStep (next o tid)) Synchronized (start ι true cs) c) {i j : ι}
    (hi : (c.locals i).stage.Inside) (hj : (c.locals j).stage.Inside) : i = j := by
  have hreach : ReachesIf (threadStep (Critical.next long tid)) (Critical.Fits long)
      (Critical.start ι cs) (c.map Shared.lock Local.critical) := by
    refine reachesIf_map (f := Shared.lock) (g := Local.critical) h fun d i a s l hd hok hn => ?_
    have hinv := Critical.inv_of_reaches counter_long htid hnull hcs hd
    exact (critical_of_next hok hn).imp_left fun ⟨b, hb⟩ =>
      ⟨b, fits_of_inv hcard hinv (fun j => lockWeight_critical_le _) ⟨d.locals i, rfl⟩ b, hb⟩
  have hinv := Critical.inv_of_reaches counter_long htid hnull hcs hreach
  have hholds : ∀ i, (c.locals i).stage.Inside →
      ((Critical.views (c.map Shared.lock Local.critical)).locals i).Holds := by
    intro i hi
    refine Or.inl ?_
    change 0 < (c.locals i).critical.depth
    cases hl : c.locals i <;> rw [hl] at hi
    case working => exact Nat.one_pos
    all_goals exact hi.elim
  exact hinv.holds_unique (hholds i hi) (hholds j hj)

/-- **A synchronized dictionary is linearizable**: however many threads call its functions, up to
2³² - 1 with distinct ids, however their loads and stores are interleaved and wherever `malloc`
finds memory, the calls are those of the ordered sequence of keys and values, one after the other;
with nobody inside the items in memory are the sequence, and a thread inside is never stuck and
comes to an end. -/
theorem dictionary_linearizable (o : Objects κ υ) (htid : Function.Injective tid)
    (hnull : ∀ i, tid i ≠ 0) (hcard : Fintype.card ι < 2 ^ 32) {mallocOk semInitOk : Bool}
    {p n flags : ℕ} (hcs : initializeCriticalSectionEx mallocOk semInitOk p n flags = some cs)
    (h : Reaches (threadStep (next o tid)) (start ι true cs) c) :
    Sound (access o) (atomically o) Holds ([], []) c.shared.object
      fun i => (c.locals i).stage := by
  refine linearizable (implements_atomically o) (synchronized_of_reaches h) rfl
    ⟨represents_new true, rfl⟩ (fun _ => rfl) ?_ ?_
  · exact fun d hd i j hi hj => inside_unique htid hnull hcard hcs hd hi hj
  · exact fun d i a s l hok hn => move_of_next hok hn

end Threads

/-! ### Two threads -/

/-- Thread `0` adds an item while thread `1`, which is to add another under the same key, spins and
then waits. -/
def addWhileWaiting : List (Fin 2 × Choice ℕ ℕ) :=
  [[(0, .call (.add 7 1 true))], List.replicate 4 (0, .go 100), [(1, .call (.add 7 2 true))],
    List.replicate 9 (1, .go 200), List.replicate 9 (0, .go 100),
    List.replicate 13 (1, .go 200)].flatten

theorem dictionary_linearizable_addWhileWaiting :
    ∃ c, run (threadStep (next numbers Critical.twoIds)) (start (Fin 2) true Critical.twoProcessors)
        addWhileWaiting = some c ∧
      c.shared.object.history = [.call (.add 7 1 true), .call (.add 7 2 true),
        .ret 0 (.bool true), .ret 1 (.bool true)] ∧
      Sound (access numbers) (atomically numbers) Holds ([], []) c.shared.object
        fun i => (c.locals i).stage := by
  refine ⟨_, run_eq_final (by decide +kernel), by decide +kernel, ?_⟩
  exact dictionary_linearizable numbers (fun i j h => Fin.ext (Nat.succ.inj h))
    (fun i => Nat.succ_ne_zero _) (by decide)
    (show initializeCriticalSectionEx true true 2 1 0 = some Critical.twoProcessors from rfl)
    (reaches_of_run addWhileWaiting (run_eq_final (by decide +kernel)))

end Dictionary

end Libuzi
