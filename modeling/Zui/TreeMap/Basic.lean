/-
The ordered map over a sum tree.

A `TreeMap` is a sum tree of entries, summarised by the key of the last entry.  A key
is looked up by a seek to it in that dimension, and an entry is changed by cutting the
tree in two at its key and putting the parts together again.

Design notes:

* `MapKey` and `MapKeyRef` wrap an optional key; `None` is the position before the
  first entry and smaller than every key;
* the summaries of a map are not a monoid: adding a summary replaces it, so zero is
  only a left unit;
* a method that changes the map in place returns the changed map first; the closure
  that `update` calls returns the changed value and the result.
-/
import Mathlib
import Zui.SumTree.Find
import Zui.SumTree.Keyed

namespace Zui

/-- `MapEntry`. -/
structure MapEntry (K V : Type) where
  key : K
  value : V

/-- `MapKey`. -/
structure MapKey (K : Type) where
  key : Option K

/-- `MapKeyRef`. -/
structure MapKeyRef (K : Type) where
  key : Option K

/-- `MapSeekTarget`, as its `cmp_cursor`. -/
abbrev MapSeekTarget (K : Type) : Type := K → Ordering

section Keys

variable {K V : Type}

/-- `MapSeekTargetAdaptor`. -/
def MapSeekTarget.adaptor (self : MapSeekTarget K) : SeekTarget (MapKeyRef K) :=
  fun cursorLocation =>
    match cursorLocation.key with
    | some key => self key
    | none => .gt

/-- An optional key in the derived order of `Option`, in which `None` comes first. -/
def ordKey (key : Option K) : WithBot K := key

instance : Zero (MapKey K) where
  zero := ⟨none⟩

instance : Add (MapKey K) where
  add _ summary := summary

instance : Dimension (MapKeyRef K) (MapKey K) where
  zero := ⟨none⟩
  addSummary _ summary := ⟨summary.key⟩

instance : Item (MapEntry K V) (MapKey K) where
  summary entry := ⟨some entry.key⟩

instance : KeyedItem (MapEntry K V) (MapKey K) where
  key entry := ⟨some entry.key⟩

variable [LinearOrder K]

/-- A key, as a `MapSeekTarget`. -/
def MapSeekTarget.of (self : K) : MapSeekTarget K :=
  fun cursorLocation => compare self cursorLocation

/-- The derived order of `MapKey`. -/
instance : LinearOrder (MapKey K) :=
  LinearOrder.lift' (fun self => ordKey self.key) fun a b h => by
    cases a
    cases b
    exact congrArg MapKey.mk h

/-- `MapKeyRef` as a seek target. -/
def MapKeyRef.target (self : MapKeyRef K) : SeekTarget (MapKeyRef K) :=
  fun cursorLocation => compare (ordKey self.key) (ordKey cursorLocation.key)

end Keys

/-- `TreeMap`. -/
structure TreeMap (K V : Type) where
  tree : SumTree (MapEntry K V) (MapKey K)

namespace TreeMap

variable {K V : Type}

/-- `default`. -/
def empty : TreeMap K V := ⟨.new⟩

/-- `from_ordered_entries`. -/
def fromOrderedEntries (entries : List (K × V)) : Result (TreeMap K V) := do
  let tree ← SumTree.fromIter (entries.map fun (key, value) => ⟨key, value⟩)
  .ok ⟨tree⟩

/-- `clear`. -/
def clear (_ : TreeMap K V) : TreeMap K V := ⟨.new⟩

/-- `iter`, with everything that it yields. -/
def iter (self : TreeMap K V) : Result (List (K × V)) := do
  let entries ← collectIter Iter.next self.tree (.new self.tree)
  .ok (entries.map fun entry => (entry.key, entry.value))

/-- The body of the loop of `retain`. -/
def retainEntry (predicate : K → V → Bool) (newMap : SumTree (MapEntry K V) (MapKey K))
    (item : MapEntry K V) : Result (SumTree (MapEntry K V) (MapKey K)) :=
  if predicate item.key item.value then newMap.pushItem item else .ok newMap

/-- `remove_range`. -/
def removeRange (self : TreeMap K V) (start end_ : MapSeekTarget K) : Result (TreeMap K V) := do
  let cursor : Cursor _ _ (MapKeyRef K) := .new self.tree
  let (cursor, newTree) ← cursor.slice start.adaptor .left
  let (cursor, _) ← cursor.seek end_.adaptor .left
  let (_, suffix) ← cursor.suffix
  let newTree ← newTree.append suffix
  .ok ⟨newTree⟩

/-- `retain`. -/
def retain (predicate : K → V → Bool) (self : TreeMap K V) : Result (TreeMap K V) := do
  let cursor ← (Cursor.new self.tree : Cursor _ _ (MapKeyRef K)).next
  let newMap ← cursor.forEach (retainEntry predicate) .new
  .ok ⟨newMap⟩

variable [LinearOrder K]

/-- `get`. -/
def get (self : TreeMap K V) (key : K) : Option V :=
  match (self.tree.find (MapKeyRef.target ⟨some key⟩) .left).2.2 with
  | some item => if some key = (KeyedItem.key item).key then some item.value else none
  | none => none

/-- `contains_key`. -/
def containsKey (self : TreeMap K V) (key : K) : Bool := (self.get key).isSome

/-- `insert_or_replace`. -/
def insertOrReplace (self : TreeMap K V) (key : K) (value : V) :
    Result (TreeMap K V × Option V) := do
  let (tree, replaced) ← self.tree.insertOrReplace ⟨key, value⟩
  .ok (⟨tree⟩, replaced.map MapEntry.value)

/-- `insert`. -/
def insert (self : TreeMap K V) (key : K) (value : V) : Result (TreeMap K V) := do
  let (tree, _) ← self.tree.insertOrReplace ⟨key, value⟩
  .ok ⟨tree⟩

/-- `extend`. -/
def extend (sortByKey : SortByKey (MapEntry K V) (MapKey K)) (self : TreeMap K V)
    (iter : List (K × V)) : Result (TreeMap K V) := do
  let edits := iter.map fun (key, value) => Edit.insert (⟨key, value⟩ : MapEntry K V)
  let (tree, _) ← self.tree.edit sortByKey edits
  .ok ⟨tree⟩

/-- `insert_tree`. -/
def insertTree (sortByKey : SortByKey (MapEntry K V) (MapKey K)) (self other : TreeMap K V) :
    Result (TreeMap K V) := do
  let entries ← other.iter
  let edits := entries.map fun (key, value) => Edit.insert (⟨key, value⟩ : MapEntry K V)
  let (tree, _) ← self.tree.edit sortByKey edits
  .ok ⟨tree⟩

/-- The `if` of `remove`: the entry at the cursor is taken when it is the one that is
looked for. -/
def removeEntry (key : MapKeyRef K) (cursor : Cursor (MapEntry K V) (MapKey K) (MapKeyRef K)) :
    Result (Cursor (MapEntry K V) (MapKey K) (MapKeyRef K) × Option V) := do
  let end_ ← cursor.endPosition
  if key.target end_ = .eq then do
    let item ← cursor.item
    let item ← unwrap item
    let cursor ← cursor.next
    .ok (cursor, some item.value)
  else .ok (cursor, none)

/-- `remove`. -/
def remove (self : TreeMap K V) (key : K) : Result (TreeMap K V × Option V) := do
  let key : MapKeyRef K := ⟨some key⟩
  let (cursor, newTree) ← (Cursor.new self.tree : Cursor _ _ (MapKeyRef K)).slice key.target .left
  let (cursor, removed) ← removeEntry key cursor
  let (_, suffix) ← cursor.suffix
  let newTree ← newTree.append suffix
  .ok (⟨newTree⟩, removed)

/-- The `if` of `update`: the entry at the cursor is changed when it is the one that is
looked for. -/
def updateEntry {R : Type} (key : MapKeyRef K) (f : V → V × R)
    (cursor : Cursor (MapEntry K V) (MapKey K) (MapKeyRef K))
    (newTree : SumTree (MapEntry K V) (MapKey K)) :
    Result (Cursor (MapEntry K V) (MapKey K) (MapKeyRef K) × SumTree (MapEntry K V) (MapKey K) ×
      Option R) := do
  let end_ ← cursor.endPosition
  if key.target end_ = .eq then do
    let updated ← cursor.item
    let updated ← unwrap updated
    let (value, result) := f updated.value
    let newTree ← newTree.pushItem { updated with value }
    let cursor ← cursor.next
    .ok (cursor, newTree, some result)
  else .ok (cursor, newTree, none)

/-- `update`. -/
def update {R : Type} (self : TreeMap K V) (key : K) (f : V → V × R) :
    Result (TreeMap K V × Option R) := do
  let key : MapKeyRef K := ⟨some key⟩
  let (cursor, newTree) ← (Cursor.new self.tree : Cursor _ _ (MapKeyRef K)).slice key.target .left
  let (cursor, newTree, result) ← updateEntry key f cursor newTree
  let (_, suffix) ← cursor.suffix
  let newTree ← newTree.append suffix
  .ok (⟨newTree⟩, result)

/-- `closest`. -/
def closest (self : TreeMap K V) (key : K) : Result (Option (K × V)) := do
  let key : MapKeyRef K := ⟨some key⟩
  let (cursor, _) ← (Cursor.new self.tree : Cursor _ _ (MapKeyRef K)).seek key.target .right
  let cursor ← cursor.prev
  let item ← cursor.item
  .ok (item.map fun item => (item.key, item.value))

/-- `iter_from`, with everything that it yields. -/
def iterFrom (self : TreeMap K V) (key : K) : Result (List (K × V)) := do
  let fromKey : MapKeyRef K := ⟨some key⟩
  let (cursor, _) ← (Cursor.new self.tree : Cursor _ _ (MapKeyRef K)).seek fromKey.target .left
  let entries ← collectIter Cursor.iterNext self.tree cursor
  .ok (entries.map fun entry => (entry.key, entry.value))

end TreeMap

/-- `TreeSet`. -/
structure TreeSet (K : Type) where
  map : TreeMap K Unit

namespace TreeSet

variable {K : Type}

/-- `iter`, with everything that it yields. -/
def iter (self : TreeSet K) : Result (List K) := do
  let entries ← self.map.iter
  .ok (entries.map fun (key, _) => key)

variable [LinearOrder K]

/-- `extend`. -/
def extend (sortByKey : SortByKey (MapEntry K Unit) (MapKey K)) (self : TreeSet K)
    (iter : List K) : Result (TreeSet K) := do
  let map ← self.map.extend sortByKey (iter.map fun key => (key, ()))
  .ok ⟨map⟩

end TreeSet

end Zui
