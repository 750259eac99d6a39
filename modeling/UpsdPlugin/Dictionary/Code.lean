import UpsdPlugin.Lib.LinkedList
import UpsdPlugin.Charts

/-! The dictionaries of libnetdata.

An item is found through the index, a hash table from names to items, and is linked into
the list of all items, which is what a traversal follows. Items are reference counted:
deleting an item takes it out of the index at once, but as long as it is referenced it is
only marked, and stays linked until the garbage collector finds it without references.

This is the code as it runs in a dictionary with `DICT_OPTION_SINGLE_THREADED`, as the plugin
creates all of its own, that is not a view of another one and has no callbacks: locks do nothing,
a compare and exchange succeeds at the first attempt, and the shared part of an item has one
owner. (In a dictionary with locks, `dictionary_set` and `dictionary_flush` wait for the writer's
lock that a read traversal of the same thread does not let go of.) What the code does to memory is
kept. Items are cells of a heap, and using one that has been freed is a fault, as is every
`fatal`. The counters are integers without bounds here. -/
namespace UpsdPlugin
open LinkedList

/-- `DICTIONARY_ITEM` with its shared part. -/
structure Item (ν : Type) where
  name : CStr
  value : ν
  refcount : Int
  /-- `ITEM_FLAG_DELETED` -/
  deleted : Bool := false
  /-- `ITEM_FLAG_BEING_CREATED` -/
  beingCreated : Bool := false

structure Dictionary (ν : Type) where
  memory : Memory (Item ν) := {}
  /-- The hash table. -/
  index : CStr → Option Nat := fun _ => none
  /-- `items.list` -/
  list : Option Nat := none
  version : Nat := 0
  entries : Int := 0
  referencedItems : Int := 0
  pendingDeletionItems : Int := 0
  /-- `DICT_FLAG_DESTROYED` -/
  destroyed : Bool := false
  /-- `DICT_OPTION_ADD_IN_FRONT` -/
  addInFront : Bool := false
  /-- `DICT_OPTION_DONT_OVERWRITE_VALUE` -/
  dontOverwriteValue : Bool := false

/-- `RC_ITEM_…` -/
inductive RcItem where
  | ok | markedForDeletion | isCurrentlyBeingDeleted | isCurrentlyBeingCreated | isReferenced
  deriving DecidableEq

/-- `REFCOUNT_DELETED` -/
def refcountDeleted : Int := -2 * 1000 * 1000 * 1000

namespace Dictionary
variable {ν : Type}

def read (d : Dictionary ν) (item : Nat) : Except Fault (Node (Item ν)) := d.memory.read item

def write (d : Dictionary ν) (item : Nat) (f : Item ν → Item ν) : Except Fault (Dictionary ν) := do
  let memory ← d.memory.update item (Node.mapData f)
  return {d with memory}

/-! ### Reference counters -/

def itemRelease (d : Dictionary ν) (item : Nat) : Except Fault (Dictionary ν) := do
  let n ← d.read item
  let refcount := n.data.refcount - 1
  let d ← d.write item ({· with refcount})
  if refcount < 0 then
    throw (.fatal "DICTIONARY: attempted to release item without references")
  else if refcount = 0 then
    return {d with
      pendingDeletionItems := d.pendingDeletionItems + (if n.data.deleted then 1 else 0)
      referencedItems := d.referencedItems - 1}
  else
    return d

def itemCheckAndAcquireAdvanced (d : Dictionary ν) (item : Nat) : Except Fault (RcItem × Dictionary ν) := do
  let n ← d.read item
  if n.data.refcount < 0 then
    return (.isCurrentlyBeingDeleted, d)
  else if n.data.deleted then
    return (.markedForDeletion, d)
  else
    let desired := n.data.refcount + 1
    let d ← d.write item ({· with refcount := desired})
    return (.ok, {d with referencedItems := d.referencedItems + (if desired = 1 then 1 else 0)})

def itemIsNotReferencedAndCanBeRemovedAdvanced (d : Dictionary ν) (item : Nat) :
    Except Fault (RcItem × Dictionary ν) := do
  let n ← d.read item
  if n.data.refcount < 0 then
    return (.isCurrentlyBeingDeleted, d)
  else if n.data.refcount > 0 then
    return (.isReferenced, d)
  else if n.data.beingCreated then
    return (.isCurrentlyBeingCreated, d)
  else
    let d ← d.write item ({· with refcount := refcountDeleted})
    return (.ok, d)

/-! ### Items -/

/-- `DICTIONARY_ENTRIES_PLUS1` -/
def entriesPlus1 (d : Dictionary ν) : Dictionary ν :=
  {d with version := d.version + 1, entries := d.entries + 1, referencedItems := d.referencedItems + 1}

/-- `DICTIONARY_ENTRIES_MINUS1` -/
def entriesMinus1 (d : Dictionary ν) : Dictionary ν :=
  {d with version := d.version + 1, entries := d.entries - 1}

/-- `DICTIONARY_PENDING_DELETES_MINUS1` -/
def pendingDeletesMinus1 (d : Dictionary ν) : Dictionary ν :=
  {d with pendingDeletionItems := d.pendingDeletionItems - 1}

def dictItemCreateWithHooks (d : Dictionary ν) (name : CStr) (value : ν) : Nat × Dictionary ν :=
  let item : Item ν := {name, value, refcount := 1, beingCreated := true}
  (d.memory.next, {d with memory := d.memory.alloc {data := item}}.entriesPlus1)

def dictItemResetValueWithHooks (d : Dictionary ν) (item : Nat) (value : ν) : Except Fault (Dictionary ν) :=
  {d with version := d.version + 1}.write item ({· with value})

def dictItemFreeWithHooks (d : Dictionary ν) (item : Nat) : Except Fault (Dictionary ν) := do
  let n ← d.read item
  let d := if n.data.deleted then d else d.entriesMinus1
  let memory ← d.memory.free item
  return {d with memory}

/-- `DOUBLE_LINKED_LIST_REMOVE_ITEM_UNSAFE` on the list of items. -/
def unlink (d : Dictionary ν) (item : Nat) : Except Fault (Dictionary ν) := do
  let (memory, list) ← LinkedList.remove d.memory d.list item
  return {d with memory, list}

/-- Appended, or put in front. -/
def link (d : Dictionary ν) (item : Nat) : Except Fault (Dictionary ν) := do
  let (memory, list) ←
    if d.addInFront then LinkedList.prepend d.memory d.list item
    else LinkedList.append d.memory d.list item
  return {d with memory, list}

/-! ### The garbage collector -/

/-- The loop over the items from `item` on. -/
def collectFrom : Nat → Option Nat → Dictionary ν → Except Fault (Dictionary ν)
  | _, none, d => return d
  | 0, some _, _ => throw .endless
  | fuel + 1, some item, d => do
    let n ← d.read item
    let (rc, d) ← d.itemCheckAndAcquireAdvanced item
    match rc with
    | .markedForDeletion =>
      let (rc, d) ← d.itemIsNotReferencedAndCanBeRemovedAdvanced item
      if rc = .ok then
        let d ← d.unlink item
        let d ← d.dictItemFreeWithHooks item
        let d := d.pendingDeletesMinus1
        if d.pendingDeletionItems = 0 then return d
        else collectFrom fuel n.next d
      else collectFrom fuel n.next d
    | .ok =>
      let d ← d.itemRelease item
      collectFrom fuel n.next d
    | _ => collectFrom fuel n.next d

/-- No more cells have been allocated than this. -/
def bound (d : Dictionary ν) : Nat := d.memory.next

def garbageCollectPendingDeletes (d : Dictionary ν) : Except Fault (Dictionary ν) :=
  if d.pendingDeletionItems > 0 then collectFrom d.bound d.list d else return d

/-! ### Adding and deleting -/

def itemLinkedListAdd (d : Dictionary ν) (item : Nat) : Except Fault (Dictionary ν) := do
  let d ← d.link item
  let d ← d.write item ({· with beingCreated := false})
  d.garbageCollectPendingDeletes

def itemLinkedListRemove (d : Dictionary ν) (item : Nat) : Except Fault (Dictionary ν) := do
  let d ← d.unlink item
  d.garbageCollectPendingDeletes

def dictItemSetDeleted (d : Dictionary ν) (item : Nat) : Except Fault (Dictionary ν) := do
  let n ← d.read item
  if n.data.deleted then
    return d
  else
    let d ← d.write item ({· with deleted := true})
    return d.entriesMinus1

def dictItemFreeOrMarkDeleted (d : Dictionary ν) (item : Nat) : Except Fault (Dictionary ν) := do
  let (rc, d) ← d.itemIsNotReferencedAndCanBeRemovedAdvanced item
  match rc with
  | .ok =>
    let d ← d.itemLinkedListRemove item
    d.dictItemFreeWithHooks item
  | .isReferenced | .isCurrentlyBeingCreated => d.dictItemSetDeleted item
  | _ => return d

def dictItemDel (d : Dictionary ν) (name : CStr) : Except Fault (Bool × Dictionary ν) := do
  match d.index name with
  | none => return (false, d)
  | some item =>
    let d ← {d with index := Function.update d.index name none}.dictItemFreeOrMarkDeleted item
    return (true, d)

def dictItemAddOrResetValueAndAcquire (d : Dictionary ν) (name : CStr) (value : ν) :
    Except Fault (Option Nat × Dictionary ν) := do
  if name = [] then return (none, d)
  else if d.destroyed then return (none, d)
  else
    match d.index name with
    | none =>
      let (item, d) := d.dictItemCreateWithHooks name value
      let d ← {d with index := Function.update d.index name (some item)}.itemLinkedListAdd item
      return (some item, d)
    | some item =>
      let (rc, d) ← d.itemCheckAndAcquireAdvanced item
      if rc = .ok then
        let d ← if d.dontOverwriteValue then pure d else d.dictItemResetValueWithHooks item value
        return (some item, d)
      else
        -- `continue` goes to the condition of the loop, which is false: the item is returned.
        return (some item, d)

def dictItemFindAndAcquire (d : Dictionary ν) (name : CStr) : Except Fault (Option Nat × Dictionary ν) := do
  if name = [] then return (none, d)
  else if d.destroyed then return (none, d)
  else
    match d.index name with
    | none => return (none, d)
    | some item =>
      let (rc, d) ← d.itemCheckAndAcquireAdvanced item
      if rc = .ok then return (some item, d) else return (none, d)

/-! ### The interface -/

/-- The item whose value is returned, and which the caller may write to. -/
def dictionarySetAdvanced (d : Dictionary ν) (name : CStr) (value : ν) :
    Except Fault (Option Nat × Dictionary ν) := do
  if name = [] then return (none, d)
  else
    match ← d.dictItemAddOrResetValueAndAcquire name value with
    | (none, d) => return (none, d)
    | (some item, d) =>
      let _ ← d.read item
      let d ← d.itemRelease item
      return (some item, d)

def dictionaryGetAdvanced (d : Dictionary ν) (name : CStr) : Except Fault (Option ν × Dictionary ν) := do
  if name = [] then return (none, d)
  else
    match ← d.dictItemFindAndAcquire name with
    | (none, d) => return (none, d)
    | (some item, d) =>
      let n ← d.read item
      let d ← d.itemRelease item
      return (some n.data.value, d)

def dictionaryDelAdvanced (d : Dictionary ν) (name : CStr) : Except Fault (Bool × Dictionary ν) :=
  if name = [] then return (false, d)
  else if d.destroyed then return (false, d)
  else d.dictItemDel name

/-! ### Traversal -/

/-- `DICTFE`: the item the traversal is at, and whether it was started for writing. -/
structure Dictfe where
  item : Option Nat
  write : Bool

/-- `while(item && !item_check_and_acquire(dict, item)) item = item->next;` -/
def acquireFrom : Nat → Option Nat → Dictionary ν → Except Fault (Option Nat × Dictionary ν)
  | _, none, d => return (none, d)
  | 0, some _, _ => throw .endless
  | fuel + 1, some item, d => do
    let (rc, d) ← d.itemCheckAndAcquireAdvanced item
    if rc = .ok then return (some item, d)
    else
      let n ← d.read item
      acquireFrom fuel n.next d

/-- `dict_item_release_and_check_if_it_is_deleted_and_can_be_removed_under_this_lock_mode` -/
def dictItemReleaseAndCheck (d : Dictionary ν) (item : Nat) (write : Bool) : Except Fault (Dictionary ν) := do
  if write then
    let n ← d.read item
    let d ← d.itemRelease item
    if n.data.deleted then
      let (rc, d) ← d.itemIsNotReferencedAndCanBeRemovedAdvanced item
      if rc = .ok then
        let d ← d.pendingDeletesMinus1.itemLinkedListRemove item
        d.dictItemFreeWithHooks item
      else return d
    else return d
  else d.itemRelease item

/-- The name and the value of the item a traversal has come to. -/
def current (d : Dictionary ν) : Option Nat → Except Fault (Option (CStr × ν))
  | none => return none
  | some item => do
    let n ← d.read item
    return some (n.data.name, n.data.value)

def dictionaryForeachStartRw (d : Dictionary ν) (write : Bool) :
    Except Fault (Option (CStr × ν) × Dictfe × Dictionary ν) := do
  if d.destroyed then return (none, ⟨none, write⟩, d)
  else
    let (item, d) ← acquireFrom d.bound d.list d
    return (← d.current item, ⟨item, write⟩, d)

def dictionaryForeachDone (d : Dictionary ν) (dfe : Dictfe) : Except Fault (Dictfe × Dictionary ν) := do
  match dfe.item with
  | none => return (⟨none, dfe.write⟩, d)
  | some item =>
    let d ← d.dictItemReleaseAndCheck item dfe.write
    return (⟨none, dfe.write⟩, d)

def dictionaryForeachNext (d : Dictionary ν) (dfe : Dictfe) :
    Except Fault (Option (CStr × ν) × Dictfe × Dictionary ν) := do
  if d.destroyed then
    let (dfe, d) ← d.dictionaryForeachDone dfe
    return (none, dfe, d)
  else
    match dfe.item with
    | none => return (none, ⟨none, dfe.write⟩, d)
    | some item =>
      let n ← d.read item
      -- The next item is acquired before the current one is released.
      let (next, d) ← acquireFrom d.bound n.next d
      let d ← d.dictItemReleaseAndCheck item dfe.write
      return (← d.current next, ⟨next, dfe.write⟩, d)

/-! ### Flushing and destroying -/

def flushFrom : Nat → Option Nat → Dictionary ν → Except Fault (Dictionary ν)
  | _, none, d => return d
  | 0, some _, _ => throw .endless
  | fuel + 1, some item, d => do
    let n ← d.read item
    let (_, d) ← d.dictItemDel n.data.name
    flushFrom fuel n.next d

def dictionaryFlush (d : Dictionary ν) : Except Fault (Dictionary ν) := do
  let d ← flushFrom d.bound d.list d
  d.garbageCollectPendingDeletes

/-- The items are freed and not unlinked. -/
def freeFrom : Nat → Option Nat → Dictionary ν → Except Fault (Dictionary ν)
  | _, none, d => return d
  | 0, some _, _ => throw .endless
  | fuel + 1, some item, d => do
    let n ← d.read item
    let d ← d.dictItemFreeWithHooks item
    freeFrom fuel n.next d

/-- With `force`, as `dictionary_destroy` calls it. -/
def dictionaryFreeAllResources (d : Dictionary ν) : Except Fault (Dictionary ν) := do
  let d ← freeFrom d.bound d.list {d with index := fun _ => none}
  return {d with list := none}

def dictionaryReferencedItems (d : Dictionary ν) : Except Fault Int :=
  if d.referencedItems < 0 then throw (.fatal "DICTIONARY: referenced items is negative")
  else return d.referencedItems

/-- Whether the dictionary has been freed; otherwise it is flushed and waits for its
references to be released. -/
def dictionaryDestroy (d : Dictionary ν) : Except Fault (Bool × Dictionary ν) := do
  let referenced ← d.dictionaryReferencedItems
  if referenced = 0 then
    let d ← d.dictionaryFreeAllResources
    return (true, d)
  else
    let d ← d.dictionaryFlush
    return (false, {d with destroyed := true})

end Dictionary
end UpsdPlugin
