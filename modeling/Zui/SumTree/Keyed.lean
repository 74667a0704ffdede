/-
The operations of a tree whose items have keys.

`insertOrReplace` and `remove` cut the tree in two at a key with a cursor and put the
parts together again; `edit` does so once for each key of a batch, in order.

Design notes:

* the key of an item is a dimension of the tree, and the keys are linearly ordered;
* a function that changes the tree in place returns the changed tree first;
* `edit` sorts its batch with `sort_unstable_by_key`, which leaves the order of equal
  keys open: the sort is an argument, a `SortByKey`.
-/
import Mathlib
import Zui.SumTree.Cursor

namespace Zui

/-- `KeyedItem`. -/
class KeyedItem (T : Type) (K : outParam Type) where
  key : T → K

/-- `Edit`. -/
inductive Edit (T K : Type)
  | insert (item : T)
  | remove (key : K)

namespace Edit

variable {T K : Type} [KeyedItem T K]

/-- `Edit::key`. -/
def key : Edit T K → K
  | insert item => KeyedItem.key item
  | remove key => key

end Edit

/-- A function that sorts edits by key. -/
structure SortByKey (T K : Type) [KeyedItem T K] [LinearOrder K] where
  sort : List (Edit T K) → List (Edit T K)
  perm : ∀ edits, (sort edits).Perm edits
  sorted : ∀ edits, ((sort edits).map Edit.key).Pairwise (· ≤ ·)

/-- A location of an ordered dimension, as a seek target. -/
def SeekTarget.of {D : Type} [LinearOrder D] (self : D) : SeekTarget D :=
  fun cursorLocation => compare self cursorLocation

namespace Cursor

variable {T S K : Type} [Dimension K S] [KeyedItem T K] [LinearOrder K]

/-- The item at the cursor, if its key is `key`; the cursor then moves on. -/
def takeKey (key : K) (self : Cursor T S K) : Result (Cursor T S K × Option T) := do
  match ← self.item with
  | some cursorItem =>
    if KeyedItem.key cursorItem = key then do
      let self ← self.next
      .ok (self, some cursorItem)
    else .ok (self, none)
  | none => .ok (self, none)

end Cursor

namespace SumTree

variable {T S K : Type} [Zero S] [Add S] [Item T S] [Dimension K S] [KeyedItem T K] [LinearOrder K]

/-- `insert_or_replace`. -/
def insertOrReplace (self : SumTree T S) (item : T) : Result (SumTree T S × Option T) := do
  let cursor : Cursor T S K := .new self
  let (cursor, newTree) ← cursor.slice (.of (KeyedItem.key item)) .left
  let (cursor, replaced) ← cursor.takeKey (KeyedItem.key item)
  let newTree ← newTree.pushItem item
  let (_, suffix) ← cursor.suffix
  let newTree ← newTree.append suffix
  .ok (newTree, replaced)

/-- `remove`. -/
def remove (self : SumTree T S) (key : K) : Result (SumTree T S × Option T) := do
  let cursor : Cursor T S K := .new self
  let (cursor, newTree) ← cursor.slice (.of key) .left
  let (cursor, removed) ← cursor.takeKey key
  let (_, suffix) ← cursor.suffix
  let newTree ← newTree.append suffix
  .ok (newTree, removed)

/-- What the loop of `edit` works on. -/
structure Editing (T S K : Type) where
  cursor : Cursor T S K
  newTree : SumTree T S
  bufferedItems : List T
  removed : List T

namespace Editing

/-- The first `if` of the loop of `edit`: items with smaller keys go to the new tree. -/
def advance (newKey : K) (self : Editing T S K) (oldItem : Option T) :
    Result (Editing T S K × Option T) :=
  if oldItem.any fun oldItem => KeyedItem.key oldItem < newKey then do
    let newTree ← self.newTree.extendIter self.bufferedItems
    let (cursor, slice) ← self.cursor.slice (.of newKey) .left
    let newTree ← newTree.append slice
    let oldItem ← cursor.item
    .ok ({ self with cursor, newTree, bufferedItems := [] }, oldItem)
  else .ok (self, oldItem)

/-- The second `if` of the loop of `edit`: an item with the same key is removed. -/
def removeOld (newKey : K) (self : Editing T S K) (oldItem : Option T) :
    Result (Editing T S K) :=
  match oldItem with
  | some oldItem =>
    if KeyedItem.key oldItem = newKey then do
      let cursor ← self.cursor.next
      .ok { self with cursor, removed := self.removed ++ [oldItem] }
    else .ok self
  | none => .ok self

/-- One pass of the loop of `edit`. -/
def apply (self : Editing T S K) (edit : Edit T K) : Result (Editing T S K) := do
  let oldItem ← self.cursor.item
  let (self, oldItem) ← self.advance edit.key oldItem
  let self ← self.removeOld edit.key oldItem
  match edit with
  | .insert item => .ok { self with bufferedItems := self.bufferedItems ++ [item] }
  | .remove _ => .ok self

end Editing

/-- `edit`. -/
def edit (sortByKey : SortByKey T K) (self : SumTree T S) (edits : List (Edit T K)) :
    Result (SumTree T S × List T) :=
  if edits.isEmpty then .ok (self, [])
  else do
    let (cursor, _) ← (Cursor.new self : Cursor T S K).seek (.of (Dimension.zero S)) .left
    let self ← (sortByKey.sort edits).foldlM Editing.apply ⟨cursor, .new, [], []⟩
    let newTree ← self.newTree.extendIter self.bufferedItems
    let (_, suffix) ← self.cursor.suffix
    let newTree ← newTree.append suffix
    .ok (newTree, self.removed)

end SumTree

end Zui
