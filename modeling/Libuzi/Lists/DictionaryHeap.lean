import Libuzi.Chain
import Libuzi.Lists.ListDictionary
import Libuzi.Runs
import Mathlib.Algebra.Group.Int.Defs
import Mathlib.Algebra.Group.Nat.Defs
import Mathlib.Data.Int.Basic
import Mathlib.Logic.Function.Basic

/-!
# List dictionaries, pointer by pointer

The functions of `libuzi/dictionary.c` on the items in memory. An item is a node of a
singly linked list, `head` points to the first one, and every function walks from there:

| in the source | here |
|---|---|
| a walk that stops at a key | `Dictionary.searchLoop` |
| a walk to the last item | `Dictionary.lastLoop` |
| a walk that counts | `Dictionary.countLoop` |
| the walk that fills the array | `Dictionary.keysLoop` |
| the walk that frees | `Dictionary.clearLoop` |

A pointer to memory without an item is not followed: that is `Dictionary.Fault.freed`. A
walk that has met more items than were ever allocated goes round in circles
(`Dictionary.Fault.hung`), and a key that is stored behind the end of its array is
`Dictionary.Fault.outOfBounds`. The lock is the number of times the dictionary has been
entered and not left.

A counter of the source is an `int`, which goes round after `2 ^ 31 - 1`. The test of
`head` before a walk is the test of the walk itself.
-/

namespace Libuzi

namespace Dictionary

variable {κ υ : Type}

/-- The address of an item. -/
abbrev Addr := ℕ

/-- `wListDictionaryItem`. -/
structure Item (κ υ : Type) where
  /-- `key`. -/
  key : κ
  /-- `value`. -/
  value : υ
  /-- `next`. -/
  next : Option Addr
  deriving DecidableEq

/-- The items in memory. -/
abbrev Heap (κ υ : Type) := Addr → Option (Item κ υ)

/-- What the owner of a dictionary has installed in `objectKey` and `objectValue`. -/
structure Objects (κ υ : Type) where
  /-- `objectKey.fnObjectEquals`, given the stored key and the one that is looked for. -/
  keyEquals : κ → κ → Bool
  /-- Whether there is an `objectKey.fnObjectFree`. -/
  keyFree : Bool
  /-- Whether there is an `objectValue.fnObjectFree`. -/
  valueFree : Bool
  /-- The value `NULL`. -/
  null : υ

/-- `wListDictionary`, and the memory it lives in. -/
structure ListDictionary (κ υ : Type) where
  /-- `synchronized`. -/
  synchronized : Bool
  /-- How many times `lock` has been entered and not left. -/
  lock : ℕ
  /-- `head`. -/
  head : Option Addr
  /-- The items in memory. -/
  items : Heap κ υ
  /-- How many items have ever been allocated. -/
  allocated : ℕ
  /-- What the functions `fnObjectFree` have been called with, in order. -/
  released : List (κ ⊕ υ)

/-- Why a function does not return. -/
inductive Fault
  /-- It follows a pointer to this address, where there is no item. -/
  | freed (a : Addr)
  /-- It walks for ever. -/
  | hung
  /-- It writes behind the end of an array. -/
  | outOfBounds
  deriving DecidableEq

/-- The value of an `int`. -/
def int (n : ℤ) : ℤ := Int.bmod n (2 ^ 32)

/-- Dereference a pointer. -/
def Heap.load (h : Heap κ υ) (a : Addr) : Except Fault (Item κ υ) :=
  match h a with
  | some item => .ok item
  | none => .error (.freed a)

/-- Store an item. -/
def Heap.store (h : Heap κ υ) (a : Addr) (item : Item κ υ) : Heap κ υ :=
  Function.update h a (some item)

/-- `a->next = p`. -/
def Heap.setNext (h : Heap κ υ) (a : Addr) (p : Option Addr) : Heap κ υ :=
  Function.update h a ((h a).map fun item => { item with next := p })

/-- `free`. -/
def Heap.free (h : Heap κ υ) (a : Addr) : Heap κ υ := Function.update h a none

/-- `if (listDictionary->synchronized) EnterCriticalSection(&listDictionary->lock)`. -/
def ListDictionary.enter (d : ListDictionary κ υ) : ListDictionary κ υ :=
  if d.synchronized then { d with lock := d.lock + 1 } else d

/-- `if (listDictionary->synchronized) LeaveCriticalSection(&listDictionary->lock)`. -/
def ListDictionary.leave (d : ListDictionary κ υ) : ListDictionary κ υ :=
  if d.synchronized then { d with lock := d.lock - 1 } else d

/-! ### The walks -/

/-- `count++` for every item from `p` on. -/
def countLoop (h : Heap κ υ) : ℕ → Option Addr → ℤ → Except Fault ℤ
  | _, none, count => .ok count
  | 0, some _, _ => .error .hung
  | n + 1, some a, count => do
    let item ← h.load a
    countLoop h n item.next (int (count + 1))

/-- `pKeys[index++] = item->key` for every item from `p` on: the array has `count`
entries, and `keys` are those filled. -/
def keysLoop (h : Heap κ υ) (count : ℤ) : ℕ → Option Addr → List κ → Except Fault (List κ)
  | _, none, keys => .ok keys
  | 0, some _, _ => .error .hung
  | n + 1, some a, keys => do
    let item ← h.load a
    if (keys.length : ℤ) < count then
      keysLoop h count n item.next (keys ++ [item.key])
    else .error .outOfBounds

/-- Go on to the item whose `next` is null. -/
def lastLoop (h : Heap κ υ) : ℕ → Addr → Except Fault Addr
  | 0, _ => .error .hung
  | n + 1, a => do
    let item ← h.load a
    match item.next with
    | none => .ok a
    | some b => lastLoop h n b

/-- Go on to the first item whose key is the one that is looked for: the item before it and
the item itself. Only `ListDictionary_Remove` keeps the item before it. -/
def searchLoop (h : Heap κ υ) (isKey : κ → Bool) :
    ℕ → Option Addr → Option Addr → Except Fault (Option Addr × Option Addr)
  | _, prevItem, none => .ok (prevItem, none)
  | 0, _, some _ => .error .hung
  | n + 1, prevItem, some a => do
    let item ← h.load a
    if isKey item.key then .ok (prevItem, some a)
    else searchLoop h isKey n (some a) item.next

/-- Release the key, the value and the item, for every item from `p` on. -/
def clearLoop (o : Objects κ υ) :
    ℕ → Option Addr → Heap κ υ → List (κ ⊕ υ) → Except Fault (Heap κ υ × List (κ ⊕ υ))
  | _, none, h, released => .ok (h, released)
  | 0, some _, _, _ => .error .hung
  | n + 1, some a, h, released => do
    let item ← h.load a
    clearLoop o n item.next (h.free a)
      (released ++ (if o.keyFree then [.inl item.key] else []) ++
        if o.valueFree then [.inr item.value] else [])

/-! ### The functions -/

/-- `ListDictionary_New`, when nothing fails. -/
def listDictionaryNew (synchronized : Bool) : ListDictionary κ υ where
  synchronized := synchronized
  lock := 0
  head := none
  items := fun _ => none
  allocated := 0
  released := []

/-- `ListDictionary_Count`. -/
def listDictionaryCount (d : ListDictionary κ υ) : Except Fault (ListDictionary κ υ × ℤ) := do
  let d := d.enter
  let count ← countLoop d.items d.allocated d.head 0
  return (d.leave, count)

/-- `ListDictionary_GetKeys`, given whether `ppKeys` is a pointer and whether there is memory:
the value returned, and what is stored at `ppKeys`. An array of negative size is more than
there is. -/
def listDictionaryGetKeys (ppKeys callocOk : Bool) (d : ListDictionary κ υ) :
    Except Fault (ListDictionary κ υ × ℤ × Option (List κ)) :=
  if !ppKeys then .ok (d, -1, none)
  else do
    let d := d.enter
    let count ← countLoop d.items d.allocated d.head 0
    if count ≠ 0 ∧ ¬(callocOk ∧ 0 ≤ count) then
      return (d.leave, -1, none)
    else
      let keys ← keysLoop d.items count d.allocated d.head []
      return (d.leave, count, some keys)

/-- `ListDictionary_Add`, given what `malloc` returns. -/
def listDictionaryAdd (key : κ) (value : υ) (malloc : Option Addr) (d : ListDictionary κ υ) :
    Except Fault (ListDictionary κ υ × Bool) := do
  let d := d.enter
  match malloc with
  | none => return (d.leave, false)
  | some a =>
    let items := d.items.store a { key, value, next := none }
    let allocated := d.allocated + 1
    match d.head with
    | none => return ({ d with head := some a, items, allocated }.leave, true)
    | some first =>
      let lastItem ← lastLoop items allocated first
      return ({ d with items := items.setNext lastItem (some a), allocated }.leave, true)

/-- `ListDictionary_Clear`. -/
def listDictionaryClear (o : Objects κ υ) (d : ListDictionary κ υ) :
    Except Fault (ListDictionary κ υ) := do
  let d := d.enter
  let (items, released) ← clearLoop o d.allocated d.head d.items d.released
  return { d with head := none, items, released }.leave

/-- `ListDictionary_Contains`. -/
def listDictionaryContains (o : Objects κ υ) (key : κ) (d : ListDictionary κ υ) :
    Except Fault (ListDictionary κ υ × Bool) := do
  let d := d.enter
  let (_, item) ← searchLoop d.items (o.keyEquals · key) d.allocated none d.head
  return (d.leave, item.isSome)

/-- `ListDictionary_Remove`. -/
def listDictionaryRemove (o : Objects κ υ) (key : κ) (d : ListDictionary κ υ) :
    Except Fault (ListDictionary κ υ × υ) := do
  let d := d.enter
  match ← searchLoop d.items (o.keyEquals · key) d.allocated none d.head with
  | (_, none) => return (d.leave, o.null)
  | (none, some a) =>
    let item ← d.items.load a
    return ({ d with head := item.next, items := d.items.free a }.leave, item.value)
  | (some prevItem, some a) =>
    let item ← d.items.load a
    return ({ d with items := (d.items.setNext prevItem item.next).free a }.leave, item.value)

/-- `ListDictionary_Remove_Head`. -/
def listDictionaryRemoveHead (o : Objects κ υ) (d : ListDictionary κ υ) :
    Except Fault (ListDictionary κ υ × υ) := do
  let d := d.enter
  match d.head with
  | none => return (d.leave, o.null)
  | some a =>
    let item ← d.items.load a
    return ({ d with head := item.next, items := d.items.free a }.leave, item.value)

/-- `ListDictionary_GetItemValue`. -/
def listDictionaryGetItemValue (o : Objects κ υ) (key : κ) (d : ListDictionary κ υ) :
    Except Fault (ListDictionary κ υ × υ) := do
  let d := d.enter
  match ← searchLoop d.items (o.keyEquals · key) d.allocated none d.head with
  | (_, none) => return (d.leave, o.null)
  | (_, some a) =>
    let item ← d.items.load a
    return (d.leave, item.value)

/-- `ListDictionary_SetItemValue`. -/
def listDictionarySetItemValue (o : Objects κ υ) (key : κ) (value : υ)
    (d : ListDictionary κ υ) : Except Fault (ListDictionary κ υ × Bool) := do
  let d := d.enter
  match ← searchLoop d.items (o.keyEquals · key) d.allocated none d.head with
  | (_, none) => return (d.leave, false)
  | (_, some a) =>
    let item ← d.items.load a
    return ({ d with
      items := d.items.store a { item with value }
      released := d.released ++ if o.valueFree then [Sum.inr item.value] else [] }.leave, true)

/-! ### Calls -/

/-- A call of one of the functions, with what the allocator answers. -/
inductive Op (κ υ : Type)
  /-- `ListDictionary_Add`. -/
  | add (key : κ) (value : υ) (malloc : Option Addr)
  /-- `ListDictionary_Remove`. -/
  | remove (key : κ)
  /-- `ListDictionary_Remove_Head`. -/
  | removeHead
  /-- `ListDictionary_SetItemValue`. -/
  | setItemValue (key : κ) (value : υ)
  /-- `ListDictionary_Clear`. -/
  | clear
  /-- `ListDictionary_Contains`. -/
  | contains (key : κ)
  /-- `ListDictionary_GetItemValue`. -/
  | getItemValue (key : κ)
  /-- `ListDictionary_Count`. -/
  | count
  /-- `ListDictionary_GetKeys`. -/
  | getKeys (ppKeys callocOk : Bool)

/-- What a call returns. -/
inductive Ret (κ υ : Type)
  | void
  | bool (b : Bool)
  | value (v : υ)
  | int (n : ℤ)
  | keys (n : ℤ) (keys : Option (List κ))
  deriving DecidableEq

/-- The dictionary after a call, and what it returns. -/
def exec (o : Objects κ υ) (d : ListDictionary κ υ) :
    Op κ υ → Except Fault (ListDictionary κ υ × Ret κ υ)
  | .add key value malloc =>
    (listDictionaryAdd key value malloc d).map fun r => (r.1, .bool r.2)
  | .remove key => (listDictionaryRemove o key d).map fun r => (r.1, .value r.2)
  | .removeHead => (listDictionaryRemoveHead o d).map fun r => (r.1, .value r.2)
  | .setItemValue key value =>
    (listDictionarySetItemValue o key value d).map fun r => (r.1, .bool r.2)
  | .clear => (listDictionaryClear o d).map fun d => (d, .void)
  | .contains key => (listDictionaryContains o key d).map fun r => (r.1, .bool r.2)
  | .getItemValue key => (listDictionaryGetItemValue o key d).map fun r => (r.1, .value r.2)
  | .count => (listDictionaryCount d).map fun r => (r.1, .int r.2)
  | .getKeys ppKeys callocOk =>
    (listDictionaryGetKeys ppKeys callocOk d).map fun r => (r.1, .keys r.2.1 r.2.2)

end Dictionary

end Libuzi
