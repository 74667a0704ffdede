/-
Prepainting elements, and transactions.

While elements prepaint, a `Window` collects the hitboxes, tooltips, deferred draws, accessed
element states, dispatch nodes and line layouts of the next frame.  `transact` runs a closure that
prepaints, and when it fails cuts all of them to the lengths from before.

Design notes:

* a closure is a `Script` of the calls that it makes, with the dispatch nodes that it pushes and
  pops and the closures of the transactions inside it;
* a dispatch node has no key context and no listeners before paint, so the context stack is left
  out, and so is the map of element states, of which no length is taken;
* tooltips and elements are numbers: nothing looks inside them;
* a function that changes the window in place returns the changed window.
-/
import Zui.Library.Registry
import Zui.Paint.Scene
import Zui.TextSystem.Cache

namespace Zui

open Gpui

namespace Transact

open TextSystem

/-- `FocusId`. -/
abbrev FocusId : Type := ℕ

/-- Focus ids that are equal are the same. -/
scoped instance lawfulBEq_focusId : LawfulBEq (Option FocusId) := inferInstance

/-- `EntityId`. -/
abbrev EntityId : Type := ℕ

/-- `AnyTooltip`. -/
abbrev AnyTooltip : Type := ℕ

/-- `AnyElement`. -/
abbrev AnyElement : Type := ℕ

/-! ### The dispatch tree -/

/-- `DispatchNode`. -/
@[ext] structure DispatchNode where
  focusId : Option FocusId
  viewId : Option EntityId
  parent : Option ℕ
  deriving DecidableEq

/-- `DispatchTree`. -/
structure DispatchTree where
  nodeStack : List ℕ
  viewStack : List EntityId
  nodes : List DispatchNode
  focusableNodeIds : FocusId → Option ℕ
  viewNodeIds : EntityId → Option ℕ

namespace DispatchTree

/-- `new`. -/
def new : DispatchTree where
  nodeStack := []
  viewStack := []
  nodes := []
  focusableNodeIds _ := none
  viewNodeIds _ := none

/-- `len`. -/
def len (self : DispatchTree) : ℕ := self.nodes.length

/-- `active_node_id`. -/
def activeNodeId (self : DispatchTree) : Option ℕ := self.nodeStack.getLast?

/-- `self.active_node_id().unwrap()`. -/
def activeNode (self : DispatchTree) : Gpui.Result ℕ :=
  match self.activeNodeId with
  | some nodeId => .ok nodeId
  | none => .error .unwrapNone

/-- `push_node`. -/
def pushNode (self : DispatchTree) : DispatchTree :=
  { self with
    nodes := self.nodes ++ [⟨none, none, self.nodeStack.getLast?⟩]
    nodeStack := self.nodeStack ++ [self.nodes.length] }

/-- `set_focus_id`. -/
def setFocusId (focusId : FocusId) (self : DispatchTree) : Gpui.Result DispatchTree := do
  let nodeId ← self.activeNode
  let node ← Gpui.index self.nodes nodeId
  .ok { self with
    nodes := self.nodes.set nodeId { node with focusId := some focusId }
    focusableNodeIds := Function.update self.focusableNodeIds focusId (some nodeId) }

/-- `set_view_id`. -/
def setViewId (viewId : EntityId) (self : DispatchTree) : Gpui.Result DispatchTree :=
  if self.viewStack.getLast? ≠ some viewId then do
    let nodeId ← self.activeNode
    let node ← Gpui.index self.nodes nodeId
    .ok { self with
      nodes := self.nodes.set nodeId { node with viewId := some viewId }
      viewNodeIds := Function.update self.viewNodeIds viewId (some nodeId)
      viewStack := self.viewStack ++ [viewId] }
  else .ok self

/-- `pop_node`. -/
def popNode (self : DispatchTree) : Gpui.Result DispatchTree := do
  let nodeId ← self.activeNode
  let node ← Gpui.index self.nodes nodeId
  .ok { self with
    viewStack := if node.viewId.isSome then self.viewStack.dropLast else self.viewStack
    nodeStack := self.nodeStack.dropLast }

/-- `truncate`. -/
def truncate (length : ℕ) (self : DispatchTree) : Gpui.Result DispatchTree :=
  if length ≤ self.nodes.length then
    let dropped := self.nodes.drop length
    .ok { self with
      nodes := self.nodes.take length
      focusableNodeIds := fun focusId =>
        if some focusId ∈ dropped.map DispatchNode.focusId then none
        else self.focusableNodeIds focusId
      viewNodeIds := fun viewId =>
        if some viewId ∈ dropped.map DispatchNode.viewId then none else self.viewNodeIds viewId }
  else .error .indexOutOfBounds

end DispatchTree

/-! ### Frames -/

/-- `HitboxBehavior`. -/
inductive HitboxBehavior
  | normal
  | blockMouse
  | blockMouseExceptScroll
  deriving DecidableEq, Repr

/-- `Hitbox`. -/
structure Hitbox where
  id : ℕ
  bounds : Bounds ℚ
  contentMask : ContentMask
  behavior : HitboxBehavior
  deriving DecidableEq

/-- `TooltipRequest`. -/
structure TooltipRequest where
  id : ℕ
  tooltip : AnyTooltip
  deriving DecidableEq

/-- `DeferredDraw`. -/
structure DeferredDraw where
  currentView : EntityId
  priority : ℕ
  parentNode : ℕ
  element : Option AnyElement
  contentMask : Option ContentMask
  absoluteOffset : Point ℚ
  deriving DecidableEq

/-- The key of an element state: a global element id and a type id. -/
abbrev ElementStateKey : Type := List ℕ × ℕ

/-- `Frame`. -/
structure Frame where
  focus : Option FocusId
  accessedElementStates : List ElementStateKey
  dispatchTree : DispatchTree
  hitboxes : List Hitbox
  deferredDraws : List DeferredDraw
  tooltipRequests : List (Option TooltipRequest)

/-- `PrepaintStateIndex`. -/
structure PrepaintStateIndex where
  hitboxesIndex : ℕ
  tooltipsIndex : ℕ
  deferredDrawsIndex : ℕ
  dispatchTreeIndex : ℕ
  accessedElementStatesIndex : ℕ
  lineLayoutIndex : LineLayoutIndex

/-- `Window`, with its text system's cache of layouts. -/
structure Window where
  focus : Option FocusId
  nextFrame : Frame
  textSystem : LineLayoutCache
  contentMask : ContentMask
  renderedEntityStack : List EntityId
  nextHitboxId : ℕ
  nextTooltipId : ℕ

/-- The calls of an element that prepaints. -/
inductive Call
  | insertHitbox (bounds : Bounds ℚ) (behavior : HitboxBehavior)
  | setTooltip (tooltip : AnyTooltip)
  | deferDraw (element : AnyElement) (absoluteOffset : Point ℚ) (priority : ℕ)
      (contentMask : Option ContentMask)
  | withElementState (key : ElementStateKey)
  | layoutLine (text : String) (fontSize : Pixels) (runs : List FontRun)
      (forceWidth : Option Pixels)
  | layoutWrappedLine (text : String) (fontSize : Pixels) (runs : List FontRun)
      (wrapWidth : Option Pixels) (maxLines : Option ℕ)
  | layoutLineByHash (textHash textLen : ℕ) (fontSize : Pixels) (runs : List FontRun)
      (forceWidth : Option Pixels) (text : String)
  | setFocusHandle (focusId : FocusId)
  | setViewId (viewId : EntityId)

namespace Window

/-- The dispatch tree of the next frame replaced. -/
def setDispatchTree (dispatchTree : DispatchTree) (self : Window) : Window :=
  { self with nextFrame := { self.nextFrame with dispatchTree } }

/-- `insert_hitbox`. -/
def insertHitbox (bounds : Bounds ℚ) (behavior : HitboxBehavior) (self : Window) : Window :=
  { self with
    nextHitboxId := self.nextHitboxId + 1
    nextFrame :=
      { self.nextFrame with
        hitboxes := self.nextFrame.hitboxes ++
          [⟨self.nextHitboxId, bounds, self.contentMask, behavior⟩] } }

/-- `set_tooltip`. -/
def setTooltip (tooltip : AnyTooltip) (self : Window) : Window :=
  { self with
    nextTooltipId := self.nextTooltipId + 1
    nextFrame :=
      { self.nextFrame with
        tooltipRequests := self.nextFrame.tooltipRequests ++
          [some ⟨self.nextTooltipId, tooltip⟩] } }

/-- `current_view`. -/
def currentView (self : Window) : Gpui.Result EntityId :=
  match self.renderedEntityStack.getLast? with
  | some view => .ok view
  | none => .error .unwrapNone

/-- `defer_draw`. -/
def deferDraw (element : AnyElement) (absoluteOffset : Point ℚ) (priority : ℕ)
    (contentMask : Option ContentMask) (self : Window) : Gpui.Result Window := do
  let parentNode ← self.nextFrame.dispatchTree.activeNode
  let currentView ← self.currentView
  .ok { self with
    nextFrame :=
      { self.nextFrame with
        deferredDraws := self.nextFrame.deferredDraws ++
          [⟨currentView, priority, parentNode, some element, contentMask, absoluteOffset⟩] } }

/-- The access of `with_element_state`. -/
def accessElementState (key : ElementStateKey) (self : Window) : Window :=
  { self with
    nextFrame :=
      { self.nextFrame with
        accessedElementStates := self.nextFrame.accessedElementStates ++ [key] } }

/-- `set_focus_handle`. -/
def setFocusHandle (focusId : FocusId) (self : Window) : Gpui.Result Window := do
  let self := if self.focus = some focusId then
    { self with nextFrame := { self.nextFrame with focus := some focusId } } else self
  let dispatchTree ← self.nextFrame.dispatchTree.setFocusId focusId
  .ok (self.setDispatchTree dispatchTree)

/-- `set_view_id`. -/
def setViewId (viewId : EntityId) (self : Window) : Gpui.Result Window := do
  let dispatchTree ← self.nextFrame.dispatchTree.setViewId viewId
  .ok (self.setDispatchTree dispatchTree)

/-- `prepaint_index`. -/
def prepaintIndex (self : Window) : PrepaintStateIndex where
  hitboxesIndex := self.nextFrame.hitboxes.length
  tooltipsIndex := self.nextFrame.tooltipRequests.length
  deferredDrawsIndex := self.nextFrame.deferredDraws.length
  dispatchTreeIndex := self.nextFrame.dispatchTree.len
  accessedElementStatesIndex := self.nextFrame.accessedElementStates.length
  lineLayoutIndex := self.textSystem.layoutIndex

/-- The `if` of `transact`. -/
def truncate (index : PrepaintStateIndex) (self : Window) : Gpui.Result Window := do
  let dispatchTree ← self.nextFrame.dispatchTree.truncate index.dispatchTreeIndex
  .ok { self with
    nextFrame :=
      { self.nextFrame with
        hitboxes := self.nextFrame.hitboxes.take index.hitboxesIndex
        tooltipRequests := self.nextFrame.tooltipRequests.take index.tooltipsIndex
        deferredDraws := self.nextFrame.deferredDraws.take index.deferredDrawsIndex
        dispatchTree
        accessedElementStates :=
          self.nextFrame.accessedElementStates.take index.accessedElementStatesIndex }
    textSystem := self.textSystem.truncateLayouts index.lineLayoutIndex }

/-- `transact`. -/
def transact {T U : Type} (f : Window → Gpui.Result (Window × Except U T)) (self : Window) :
    Gpui.Result (Window × Except U T) := do
  let index := self.prepaintIndex
  let (self, result) ← f self
  match result with
  | .error error => do
    let self ← self.truncate index
    .ok (self, .error error)
  | .ok value => .ok (self, .ok value)

section Calls

variable (platform : PlatformTextSystem)

/-- A call. -/
def call (self : Window) : Call → Gpui.Result Window
  | .insertHitbox bounds behavior => .ok (self.insertHitbox bounds behavior)
  | .setTooltip tooltip => .ok (self.setTooltip tooltip)
  | .deferDraw element absoluteOffset priority contentMask =>
    self.deferDraw element absoluteOffset priority contentMask
  | .withElementState key => .ok (self.accessElementState key)
  | .layoutLine text fontSize runs forceWidth =>
    let (textSystem, _) := self.textSystem.layoutLine platform text fontSize runs forceWidth
    .ok { self with textSystem }
  | .layoutWrappedLine text fontSize runs wrapWidth maxLines => do
    let (textSystem, _) ←
      self.textSystem.layoutWrappedLine platform text fontSize runs wrapWidth maxLines
    .ok { self with textSystem }
  | .layoutLineByHash textHash textLen fontSize runs forceWidth text =>
    let (textSystem, _) :=
      self.textSystem.layoutLineByHash platform textHash textLen fontSize runs forceWidth text
    .ok { self with textSystem }
  | .setFocusHandle focusId => self.setFocusHandle focusId
  | .setViewId viewId => self.setViewId viewId

/-- The calls of a closure, which returns an error when it is `failed`. -/
def runClosure (failed : Bool) (run : Window → Gpui.Result Window) (self : Window) :
    Gpui.Result (Window × Except Unit Unit) := do
  let self ← run self
  .ok (self, if failed then .error () else .ok ())

/-- The calls of a script. -/
def run : Script Call → Window → Gpui.Result Window
  | .done, self => .ok self
  | .call call rest, self => do
    let self ← self.call platform call
    run rest self
  | .node body rest, self => do
    let self := self.setDispatchTree self.nextFrame.dispatchTree.pushNode
    let self ← run body self
    let dispatchTree ← self.nextFrame.dispatchTree.popNode
    run rest (self.setDispatchTree dispatchTree)
  | .transact body failed rest, self => do
    let (self, _) ← self.transact (runClosure failed (run body))
    run rest self

end Calls

end Window

end Transact

end Zui
