/-
The map of tab stops.

A `TabStopMap` is filled while a frame is drawn: `insert` for each focus handle, with
`beginGroup` and `endGroup` around the handles of a group.  A node has the path of its groups
and of its handle, and its place in the history of the insertions; a sum tree holds the nodes
in the order of the two.  `next` and `prev` seek to the node of a handle and skip what is not a
tab stop.

Design notes:

* the key of a node is the node itself, whose `cmp` leaves `tab_stop` out, and so is the
  dimension of the tree, which never sets `tab_stop`: both are a `TabStopOrder` here, a node
  without `tab_stop`.  The `==` of two keys does compare `tab_stop`, but two nodes of a tree
  never have the same insertion index;
* `by_id` is a function to options, which an insertion updates at one id;
* the loops of `next_inner` and `prev_inner` are `loop`s over `skipPass`, with the weight of the
  tree as fuel.
-/
import Mathlib
import Zui.SumTree.Keyed

namespace Zui

namespace TabStop

/-- `FocusId`, a key of a slot map: the index of its slot.  The history of the insertions keeps
its handles alive, so two ids in it that differ have different slots. -/
abbrev FocusId : Type := Fin (2 ^ 32)

/-- `TabIndex`. -/
abbrev TabIndex : Type := ℤ

/-- `FocusHandle`, as far as the map reads it. -/
structure FocusHandle where
  id : FocusId
  tabIndex : TabIndex
  tabStop : Bool
  deriving DecidableEq, Repr

/-- `TabStopOperation`. -/
inductive TabStopOperation
  | insert (focusHandle : FocusHandle)
  | group (tabIndex : TabIndex)
  | groupEnd
  deriving DecidableEq, Repr

/-- `TabStopOperation::focus_handle`. -/
def TabStopOperation.focusHandle : TabStopOperation → Option FocusHandle
  | insert focusHandle => some focusHandle
  | _ => none

/-- `TabStopPath`. -/
abbrev TabStopPath : Type := List TabIndex

/-- What `TabStopNode::cmp` compares. -/
@[ext] structure TabStopOrder where
  path : TabStopPath
  nodeInsertionIndex : ℕ
  deriving DecidableEq, Repr

/-- The path first, then the insertion index. -/
instance : LinearOrder TabStopOrder :=
  LinearOrder.lift' (fun order => toLex (order.path, order.nodeInsertionIndex)) fun a b h => by
    have hpair := congrArg ofLex h
    exact TabStopOrder.ext (congrArg Prod.fst hpair) (congrArg Prod.snd hpair)

/-- `TabStopNode`. -/
structure TabStopNode where
  path : TabStopPath
  nodeInsertionIndex : ℕ
  tabStop : Bool
  deriving DecidableEq, Repr

/-- `TabStopOrderNodeSummary`. -/
@[ext] structure TabStopOrderNodeSummary where
  maxIndex : ℕ
  maxPath : TabStopPath
  tabStops : ℕ

namespace TabStopOrderNodeSummary

instance : Zero TabStopOrderNodeSummary := ⟨⟨0, [], 0⟩⟩

/-- `add_summary`. -/
instance : Add TabStopOrderNodeSummary :=
  ⟨fun self summary => ⟨summary.maxIndex, summary.maxPath, self.tabStops + summary.tabStops⟩⟩

end TabStopOrderNodeSummary

namespace TabStopNode

/-- `key`. -/
instance : KeyedItem TabStopNode TabStopOrder where
  key self := ⟨self.path, self.nodeInsertionIndex⟩

instance : Item TabStopNode TabStopOrderNodeSummary where
  summary self := ⟨self.nodeInsertionIndex, self.path, if self.tabStop then 1 else 0⟩

instance : Dimension TabStopOrder TabStopOrderNodeSummary where
  zero := ⟨[], 0⟩
  addSummary _ summary := ⟨summary.maxPath, summary.maxIndex⟩

end TabStopNode

/-- `TabStopMap`. -/
structure TabStopMap where
  currentPath : TabStopPath
  insertionHistory : List TabStopOperation
  byId : FocusId → Option TabStopNode
  order : SumTree TabStopNode TabStopOrderNodeSummary

/-- The cursor of `next_inner` and `prev_inner`. -/
abbrev NodeCursor : Type := Cursor TabStopNode TabStopOrderNodeSummary TabStopOrder

/-- One pass of the loops that skip what is not a tab stop. -/
def skipPass (move : NodeCursor → Result NodeCursor) (cursor : NodeCursor) :
    Result (Pass NodeCursor (Option TabStopNode)) := do
  match ← cursor.item with
  | some item =>
    if item.tabStop then .ok (.done (some item))
    else do
      let cursor ← move cursor
      .ok (.next cursor)
  | none => .ok (.done none)

namespace TabStopMap

/-- `default`. -/
def default : TabStopMap where
  currentPath := []
  insertionHistory := []
  byId _ := none
  order := .new

/-- `insert`. -/
def insert (focusHandle : FocusHandle) (self : TabStopMap) : Result TabStopMap := do
  let insertionHistory := self.insertionHistory ++ [.insert focusHandle]
  let path := self.currentPath ++ [focusHandle.tabIndex]
  let order : TabStopNode := ⟨path, insertionHistory.length - 1, focusHandle.tabStop⟩
  let byId := Function.update self.byId focusHandle.id (some order)
  let (tree, _) ← self.order.insertOrReplace order
  .ok { self with insertionHistory, byId, order := tree }

/-- `begin_group`. -/
def beginGroup (tabIndex : TabIndex) (self : TabStopMap) : TabStopMap :=
  { self with
    insertionHistory := self.insertionHistory ++ [.group tabIndex],
    currentPath := self.currentPath ++ [tabIndex] }

/-- `end_group`. -/
def endGroup (self : TabStopMap) : TabStopMap :=
  { self with
    insertionHistory := self.insertionHistory ++ [.groupEnd],
    currentPath := self.currentPath.dropLast }

/-- One operation of `replay`. -/
def apply (self : TabStopMap) : TabStopOperation → Result TabStopMap
  | .insert focusHandle => self.insert focusHandle
  | .group tabIndex => .ok (self.beginGroup tabIndex)
  | .groupEnd => .ok self.endGroup

/-- `replay`. -/
def replay (nodes : List TabStopOperation) (self : TabStopMap) : Result TabStopMap :=
  nodes.foldlM apply self

/-- `focus_handle_for_order`. -/
def focusHandleForOrder (order : TabStopNode) (self : TabStopMap) :
    Result (Option FocusHandle) := do
  let operation ← index self.insertionHistory order.nodeInsertionIndex
  .ok operation.focusHandle

/-- `tab_node_for_focus_id`. -/
def tabNodeForFocusId (focusedId : FocusId) (self : TabStopMap) : Option TabStopNode :=
  self.byId focusedId

/-- `next_inner`. -/
def nextInner (node : TabStopNode) (self : TabStopMap) : Result (Option TabStopNode) := do
  let cursor : NodeCursor := .new self.order
  let (cursor, _) ← cursor.seek (.of (KeyedItem.key node)) .left
  let cursor ← cursor.next
  loop .outOfFuel (skipPass Cursor.next) (self.order.weight + 1) cursor

/-- `prev_inner`. -/
def prevInner (node : TabStopNode) (self : TabStopMap) : Result (Option TabStopNode) := do
  let cursor : NodeCursor := .new self.order
  let (cursor, _) ← cursor.seek (.of (KeyedItem.key node)) .left
  let cursor ← cursor.prev
  loop .outOfFuel (skipPass Cursor.prev) (self.order.weight + 1) cursor

/-- `and_then(|order| self.focus_handle_for_order(order))`. -/
def handleOf (order : Option TabStopNode) (self : TabStopMap) : Result (Option FocusHandle) :=
  match order with
  | some order => self.focusHandleForOrder order
  | none => .ok none

/-- `next(None)`. -/
def nextFromStart (self : TabStopMap) : Result (Option FocusHandle) := do
  match ← self.order.first with
  | none => .ok none
  | some first =>
    if first.tabStop then self.focusHandleForOrder first
    else do
      let order ← self.nextInner first
      self.handleOf order

/-- `next`. -/
def next (focusedId : Option FocusId) (self : TabStopMap) : Result (Option FocusHandle) :=
  match focusedId with
  | none => self.nextFromStart
  | some focusedId =>
    match self.tabNodeForFocusId focusedId with
    | none => self.nextFromStart
    | some node => do
      match ← self.nextInner node with
      | some item => self.focusHandleForOrder item
      | none => self.nextFromStart

/-- `prev(None)`. -/
def prevFromEnd (self : TabStopMap) : Result (Option FocusHandle) := do
  match ← self.order.last with
  | none => .ok none
  | some last =>
    if last.tabStop then self.focusHandleForOrder last
    else do
      let order ← self.prevInner last
      self.handleOf order

/-- `prev`. -/
def prev (focusedId : Option FocusId) (self : TabStopMap) : Result (Option FocusHandle) :=
  match focusedId with
  | none => self.prevFromEnd
  | some focusedId =>
    match self.tabNodeForFocusId focusedId with
    | none => self.prevFromEnd
    | some node => do
      match ← self.prevInner node with
      | some item => self.focusHandleForOrder item
      | none => self.prevFromEnd

end TabStopMap

end TabStop

end Zui
