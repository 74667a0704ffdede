/-
The dispatch tree.

Elements push a node to the tree of the next frame and pop it, and while it is active they give it
a key context, a focus id and a view id, and listeners.  Contexts and views are on stacks besides,
which `pop_node` takes from as the node says.  A subtree of the last frame is reused by pushing and
popping its nodes again, as their parents say.

Design notes:

* nodes are numbered in the order in which they were pushed;
* a function that changes the tree in place returns the changed tree;
* listeners are numbers: nothing looks inside them, and the keymap and the actions are left out;
* `source_stack` has its top in front.
-/
import Zui.Gpui.Basic
import Zui.Keys.Context

namespace Zui.KeyDispatch

open Keys (KeyContext)

/-- `FocusId`. -/
abbrev FocusId : Type := ℕ

/-- `EntityId`. -/
abbrev EntityId : Type := ℕ

/-- `KeyListener`. -/
abbrev KeyListener : Type := ℕ

/-- `ModifiersChangedListener`. -/
abbrev ModifiersChangedListener : Type := ℕ

/-- `DispatchActionListener`. -/
structure DispatchActionListener where
  actionType : ℕ
  listener : ℕ
  deriving DecidableEq, Repr

/-- `DispatchNode`. -/
structure DispatchNode where
  keyListeners : List KeyListener
  actionListeners : List DispatchActionListener
  modifiersChangedListeners : List ModifiersChangedListener
  context : Option KeyContext
  focusId : Option FocusId
  viewId : Option EntityId
  parent : Option ℕ
  deriving DecidableEq, Repr

namespace DispatchNode

/-- `default`, with a parent. -/
def new (parent : Option ℕ) : DispatchNode :=
  ⟨[], [], [], none, none, none, parent⟩

/-- The listeners are taken. -/
def takeListeners (self : DispatchNode) : DispatchNode :=
  { self with keyListeners := [], actionListeners := [], modifiersChangedListeners := [] }

end DispatchNode

/-- `DispatchTree`. -/
structure DispatchTree where
  nodeStack : List ℕ
  contextStack : List KeyContext
  viewStack : List EntityId
  nodes : List DispatchNode
  focusableNodeIds : FocusId → Option ℕ
  viewNodeIds : EntityId → Option ℕ

/-- `ReusedSubtree`. -/
structure ReusedSubtree where
  oldRange : ℕ × ℕ
  newRange : ℕ × ℕ
  containsFocus : Bool
  deriving DecidableEq, Repr

namespace DispatchTree

/-- `new`. -/
def new : DispatchTree where
  nodeStack := []
  contextStack := []
  viewStack := []
  nodes := []
  focusableNodeIds _ := none
  viewNodeIds _ := none

/-- `self.active_node_id().unwrap()`. -/
def activeNodeId (self : DispatchTree) : Gpui.Result ℕ :=
  match self.nodeStack.getLast? with
  | some nodeId => .ok nodeId
  | none => .error .unwrapNone

/-- `active_node`, which is changed. -/
def modifyActive (self : DispatchTree) (change : DispatchNode → DispatchNode) :
    Gpui.Result DispatchTree := do
  let nodeId ← self.activeNodeId
  let node ← Gpui.index self.nodes nodeId
  return { self with nodes := self.nodes.set nodeId (change node) }

/-- `push_node`. -/
def pushNode (self : DispatchTree) : DispatchTree :=
  { self with
    nodes := self.nodes ++ [.new self.nodeStack.getLast?]
    nodeStack := self.nodeStack ++ [self.nodes.length] }

/-- `pop_node`. -/
def popNode (self : DispatchTree) : Gpui.Result DispatchTree := do
  let nodeId ← self.activeNodeId
  let node ← Gpui.index self.nodes nodeId
  return { self with
    contextStack :=
      if node.context.isSome then self.contextStack.dropLast else self.contextStack
    viewStack := if node.viewId.isSome then self.viewStack.dropLast else self.viewStack
    nodeStack := self.nodeStack.dropLast }

/-- `set_key_context`. -/
def setKeyContext (context : KeyContext) (self : DispatchTree) : Gpui.Result DispatchTree := do
  let self ← self.modifyActive fun node => { node with context := some context }
  return { self with contextStack := self.contextStack ++ [context] }

/-- `set_focus_id`. -/
def setFocusId (focusId : FocusId) (self : DispatchTree) : Gpui.Result DispatchTree := do
  let nodeId ← self.activeNodeId
  let self ← self.modifyActive fun node => { node with focusId := some focusId }
  return { self with
    focusableNodeIds := Function.update self.focusableNodeIds focusId (some nodeId) }

/-- `set_view_id`. -/
def setViewId (viewId : EntityId) (self : DispatchTree) : Gpui.Result DispatchTree :=
  if self.viewStack.getLast? ≠ some viewId then do
    let nodeId ← self.activeNodeId
    let self ← self.modifyActive fun node => { node with viewId := some viewId }
    return { self with
      viewNodeIds := Function.update self.viewNodeIds viewId (some nodeId)
      viewStack := self.viewStack ++ [viewId] }
  else .ok self

/-- `on_key_event`. -/
def onKeyEvent (listener : KeyListener) (self : DispatchTree) : Gpui.Result DispatchTree :=
  self.modifyActive fun node => { node with keyListeners := node.keyListeners ++ [listener] }

/-- `on_modifiers_changed`. -/
def onModifiersChanged (listener : ModifiersChangedListener) (self : DispatchTree) :
    Gpui.Result DispatchTree :=
  self.modifyActive fun node =>
    { node with modifiersChangedListeners := node.modifiersChangedListeners ++ [listener] }

/-- `on_action`. -/
def onAction (actionType listener : ℕ) (self : DispatchTree) : Gpui.Result DispatchTree :=
  self.modifyActive fun node =>
    { node with actionListeners := node.actionListeners ++ [⟨actionType, listener⟩] }

/-! ### Moving to another node -/

/-- Nodes are popped, `fuel` at most, until the parent is active or none is left. -/
def popUntil (parent : Option ℕ) : ℕ → DispatchTree → Gpui.Result DispatchTree
  | 0, self => .ok self
  | fuel + 1, self =>
    if self.nodeStack.getLast? ≠ parent ∧ self.nodeStack ≠ [] then do
      popUntil parent fuel (← self.popNode)
    else .ok self

/-- A pass of the loop that goes from a node to its root. -/
def climbPass (state : Option ℕ × DispatchTree) :
    Gpui.Result (Pass (Option ℕ × DispatchTree) DispatchTree) := do
  let (currentNodeId, self) := state
  match currentNodeId with
  | some nodeId => do
    let node ← Gpui.index self.nodes nodeId
    return .next (node.parent, { self with
      contextStack := self.contextStack ++ node.context.toList
      viewStack := self.viewStack ++ node.viewId.toList
      nodeStack := self.nodeStack ++ [nodeId] })
  | none => return .done self

/-- `set_active_node`. -/
def setActiveNode (nodeId : ℕ) (self : DispatchTree) : Gpui.Result DispatchTree := do
  let node ← Gpui.index self.nodes nodeId
  let self ← popUntil node.parent self.nodeStack.length self
  if self.nodeStack.getLast? = node.parent then
    return { self with
      nodeStack := self.nodeStack ++ [nodeId]
      viewStack := self.viewStack ++ node.viewId.toList
      contextStack := self.contextStack ++ node.context.toList }
  else do
    let self ← loop .outOfFuel climbPass (self.nodes.length + 1) (some nodeId, self)
    return { self with
      contextStack := self.contextStack.reverse
      viewStack := self.viewStack.reverse
      nodeStack := self.nodeStack.reverse }

/-! ### Reusing a subtree -/

/-- An optional call. -/
def whenSome {α : Type} (value : Option α)
    (call : α → DispatchTree → Gpui.Result DispatchTree) (self : DispatchTree) :
    Gpui.Result DispatchTree :=
  match value with
  | some value => call value self
  | none => .ok self

/-- `move_node`, with the node that is left in the source. -/
def moveNode (source : DispatchNode) (self : DispatchTree) :
    Gpui.Result (DispatchTree × DispatchNode) := do
  let self ← whenSome source.context setKeyContext self.pushNode
  let self ← whenSome source.focusId setFocusId self
  let self ← whenSome source.viewId setViewId self
  let self ← self.modifyActive fun target =>
    { target with
      keyListeners := source.keyListeners
      actionListeners := source.actionListeners
      modifiersChangedListeners := source.modifiersChangedListeners }
  return (self, source.takeListeners)

/-- The ancestors of a node stay on the stack of the source, and the others are popped. -/
def popAncestors (parent : Option ℕ) :
    List ℕ → DispatchTree → Gpui.Result (List ℕ × DispatchTree)
  | [], self => .ok ([], self)
  | sourceAncestor :: sourceStack, self =>
    if parent = some sourceAncestor then .ok (sourceAncestor :: sourceStack, self)
    else do popAncestors parent sourceStack (← self.popNode)

/-- What is left on the stack of the source is popped. -/
def popAll : List ℕ → DispatchTree → Gpui.Result DispatchTree
  | [], self => .ok self
  | _ :: sourceStack, self => do popAll sourceStack (← self.popNode)

/-- The variables of `reuse_subtree`. -/
structure Reusing where
  tree : DispatchTree
  sourceNodes : List DispatchNode
  sourceStack : List ℕ
  containsFocus : Bool

/-- The loop of `reuse_subtree`, for a node of the source. -/
def reuseNode (focus : Option FocusId) (self : Reusing) (sourceNodeId : ℕ) :
    Gpui.Result Reusing := do
  let sourceNode ← Gpui.index self.sourceNodes sourceNodeId
  let (sourceStack, tree) ← popAncestors sourceNode.parent self.sourceStack self.tree
  let (tree, left) ← moveNode sourceNode tree
  return {
    tree := tree
    sourceNodes := self.sourceNodes.set sourceNodeId left
    sourceStack := sourceNodeId :: sourceStack
    containsFocus := self.containsFocus ||
      (sourceNode.focusId.isSome && decide (sourceNode.focusId = focus)) }

/-- `reuse_subtree`, with the nodes of the source that are left. -/
def reuseSubtree (oldRange : ℕ × ℕ) (source : DispatchTree) (focus : Option FocusId)
    (self : DispatchTree) : Gpui.Result (DispatchTree × DispatchTree × ReusedSubtree) := do
  let length := oldRange.2 - oldRange.1
  let newRange := (self.nodes.length, self.nodes.length + length)
  let sourceNodeIds := ((List.range source.nodes.length).drop oldRange.1).take length
  let reused ← sourceNodeIds.foldlM (reuseNode focus) ⟨self, source.nodes, [], false⟩
  let tree ← popAll reused.sourceStack reused.tree
  return (tree, { source with nodes := reused.sourceNodes },
    ⟨oldRange, newRange, reused.containsFocus⟩)

end DispatchTree

end Zui.KeyDispatch
