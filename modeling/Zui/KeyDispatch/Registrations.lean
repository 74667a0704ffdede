/-
Registering ids at the nodes of the dispatch tree.

The focus and view maps lead to the node at which an id was registered last.  `lastOf` says this of
a log of registrations, and each call adds what it registers: `set_view_id` nothing for a view that
is on top of the stack, and `move_node` what the node has that it adds (`copy`).

* `lastOf_append_registration` — one more registration;
* `setKeyContext_eq`, `setFocusId_eq`, `setViewId_eq` — what the calls change;
* `moveNode_eq` — what a node is moved as.
-/
import Zui.KeyDispatch.Stacks

namespace Zui.KeyDispatch

open Keys (KeyContext)

section Logs

variable {ι : Type} [DecidableEq ι]

/-- The node at which an id was registered last. -/
def lastOf (log : List (ι × ℕ)) (id : ι) : Option ℕ :=
  (log.filter fun registration => registration.1 = id).getLast?.map Prod.snd

/-- The registration of an id, if there is one. -/
def registration (id : Option ι) (nodeId : ℕ) : List (ι × ℕ) :=
  id.toList.map fun id => (id, nodeId)

/-- What nodes register, which are numbered from `start` on. -/
def registrations (field : DispatchNode → Option ι) (start : ℕ) (nodes : List DispatchNode) :
    List (ι × ℕ) :=
  (nodes.zipIdx start).flatMap fun numbered => registration (field numbered.1) numbered.2

/-- The map after a registration. -/
def register (map : ι → Option ℕ) (id : Option ι) (nodeId : ℕ) : ι → Option ℕ :=
  match id with
  | some id => Function.update map id (some nodeId)
  | none => map

theorem lastOf_concat (log : List (ι × ℕ)) (id : ι) (nodeId : ℕ) :
    lastOf (log ++ [(id, nodeId)]) = Function.update (lastOf log) id (some nodeId) := by
  funext other
  rw [lastOf, List.filter_append]
  by_cases heq : id = other
  · subst heq
    simp
  · rw [Function.update_of_ne (Ne.symm heq)]
    simp [heq, lastOf]

theorem lastOf_append_registration (log : List (ι × ℕ)) (id : Option ι) (nodeId : ℕ) :
    lastOf (log ++ registration id nodeId) = register (lastOf log) id nodeId := by
  cases id with
  | none => exact congrArg lastOf (List.append_nil log)
  | some id => exact lastOf_concat log id nodeId

omit [DecidableEq ι] in
theorem registrations_concat (field : DispatchNode → Option ι) (start : ℕ)
    (nodes : List DispatchNode) (node : DispatchNode) :
    registrations field start (nodes ++ [node])
      = registrations field start nodes ++ registration (field node) (start + nodes.length) := by
  simp [registrations, List.zipIdx_append]

end Logs

namespace DispatchTree

variable {self : DispatchTree} {stack : List ℕ} {nodeId : ℕ} {node : DispatchNode}

/-! ### The calls -/

theorem setKeyContext_eq (context : KeyContext) (hstack : self.nodeStack = stack ++ [nodeId])
    (hnode : self.nodes[nodeId]? = some node) :
    self.setKeyContext context = .ok { self with
      nodes := self.nodes.set nodeId { node with context := some context }
      contextStack := self.contextStack ++ [context] } := by
  rw [setKeyContext, modifyActive_eq _ hstack hnode, ok_bind]
  rfl

theorem setFocusId_eq (focusId : FocusId) (hstack : self.nodeStack = stack ++ [nodeId])
    (hnode : self.nodes[nodeId]? = some node) :
    self.setFocusId focusId = .ok { self with
      nodes := self.nodes.set nodeId { node with focusId := some focusId }
      focusableNodeIds := Function.update self.focusableNodeIds focusId (some nodeId) } := by
  rw [setFocusId, activeNodeId_eq hstack, ok_bind, modifyActive_eq _ hstack hnode, ok_bind]
  rfl

/-- A view that is not on top. -/
theorem setViewId_eq (viewId : EntityId) (hstack : self.nodeStack = stack ++ [nodeId])
    (hnode : self.nodes[nodeId]? = some node) (htop : self.viewStack.getLast? ≠ some viewId) :
    self.setViewId viewId = .ok { self with
      nodes := self.nodes.set nodeId { node with viewId := some viewId }
      viewNodeIds := Function.update self.viewNodeIds viewId (some nodeId)
      viewStack := self.viewStack ++ [viewId] } := by
  rw [setViewId, if_pos htop, activeNodeId_eq hstack, ok_bind, modifyActive_eq _ hstack hnode,
    ok_bind]
  rfl

theorem setViewId_top {viewId : EntityId} (htop : self.viewStack.getLast? = some viewId) :
    self.setViewId viewId = .ok self :=
  if_neg (not_not.mpr htop)

/-! ### Moving a node -/

/-- What a node of the source is moved as: its parent is the active node, and its view is left out
if it is on top of the stack. -/
def copy (self : DispatchTree) (source : DispatchNode) : DispatchNode :=
  { source with
    viewId := source.viewId.filter fun viewId => self.viewStack.getLast? ≠ some viewId
    parent := self.nodeStack.getLast? }

/-- The tree to which a node of the source was moved. -/
def moved (self : DispatchTree) (source : DispatchNode) : DispatchTree where
  nodeStack := self.nodeStack ++ [self.nodes.length]
  contextStack := self.contextStack ++ source.context.toList
  viewStack := self.viewStack ++ (self.copy source).viewId.toList
  nodes := self.nodes ++ [self.copy source]
  focusableNodeIds := register self.focusableNodeIds source.focusId self.nodes.length
  viewNodeIds := register self.viewNodeIds (self.copy source).viewId self.nodes.length

theorem set_last {α : Type} (xs : List α) (x y : α) : (xs ++ [x]).set xs.length y = xs ++ [y] := by
  simp

theorem set_same (hnode : self.nodes[nodeId]? = some node) :
    self.nodes.set nodeId node = self.nodes := by
  obtain ⟨hlt, rfl⟩ := List.getElem?_eq_some_iff.mp hnode
  exact List.set_getElem_self hlt

theorem whenSome_setKeyContext (context : Option KeyContext)
    (hstack : self.nodeStack = stack ++ [nodeId]) (hnode : self.nodes[nodeId]? = some node)
    (hnone : node.context = none) :
    whenSome context setKeyContext self = .ok { self with
      nodes := self.nodes.set nodeId { node with context := context }
      contextStack := self.contextStack ++ context.toList } := by
  cases context with
  | none => rw [whenSome, ← hnone, set_same hnode, hnone, Option.toList_none, List.append_nil]
  | some context => exact setKeyContext_eq context hstack hnode

theorem whenSome_setFocusId (focusId : Option FocusId)
    (hstack : self.nodeStack = stack ++ [nodeId]) (hnode : self.nodes[nodeId]? = some node)
    (hnone : node.focusId = none) :
    whenSome focusId setFocusId self = .ok { self with
      nodes := self.nodes.set nodeId { node with focusId := focusId }
      focusableNodeIds := register self.focusableNodeIds focusId nodeId } := by
  cases focusId with
  | none => rw [whenSome, ← hnone, set_same hnode, hnone, register]
  | some focusId => exact setFocusId_eq focusId hstack hnode

theorem whenSome_setViewId (viewId : Option EntityId)
    (hstack : self.nodeStack = stack ++ [nodeId]) (hnode : self.nodes[nodeId]? = some node)
    (hnone : node.viewId = none) {stored : Option EntityId}
    (hstored : stored = viewId.filter fun viewId => self.viewStack.getLast? ≠ some viewId) :
    whenSome viewId setViewId self = .ok { self with
      nodes := self.nodes.set nodeId { node with viewId := stored }
      viewNodeIds := register self.viewNodeIds stored nodeId
      viewStack := self.viewStack ++ stored.toList } := by
  have hsame : self.nodes.set nodeId { node with viewId := none } = self.nodes := by
    rw [← hnone]
    exact set_same hnode
  cases viewId with
  | none =>
    obtain rfl : stored = none := hstored
    rw [whenSome, hsame, register, Option.toList_none, List.append_nil]
  | some viewId =>
    rw [whenSome]
    by_cases htop : self.viewStack.getLast? = some viewId
    · obtain rfl : stored = none := by simpa [Option.filter, htop] using hstored
      rw [setViewId_top htop, hsame, register, Option.toList_none, List.append_nil]
    · obtain rfl : stored = some viewId := by simpa [Option.filter, htop] using hstored
      exact setViewId_eq viewId hstack hnode htop

/-- **A node is moved.** -/
theorem moveNode_eq (source : DispatchNode) :
    moveNode source self = .ok (self.moved source, source.takeListeners) := by
  have hlast : ∀ node : DispatchNode, (self.nodes ++ [node])[self.nodes.length]? = some node :=
    fun node => List.getElem?_concat_length
  have hstack : self.pushNode.nodeStack = self.nodeStack ++ [self.nodes.length] := rfl
  have hcontext := whenSome_setKeyContext source.context hstack (hlast _) rfl
  rw [pushNode, set_last] at hcontext
  refine bind_eq_ok.mpr ⟨_, hcontext, ?_⟩
  refine bind_eq_ok.mpr ⟨_, whenSome_setFocusId source.focusId rfl (hlast _) rfl, ?_⟩
  rw [set_last]
  refine bind_eq_ok.mpr ⟨_, whenSome_setViewId source.viewId rfl (hlast _) rfl rfl, ?_⟩
  rw [set_last]
  refine bind_eq_ok.mpr ⟨_, modifyActive_eq _ rfl (hlast _), ?_⟩
  rw [set_last]
  rfl

theorem Mirrors.moved (h : Mirrors self) (source : DispatchNode) : Mirrors (self.moved source) := by
  have hnodes : (self.moved source).nodes
      = self.pushNode.nodes.set self.nodes.length (self.copy source) := (set_last _ _ _).symm
  exact h.push.modify rfl List.getElem?_concat_length (self.copy source) rfl rfl rfl hnodes rfl rfl
    rfl

end DispatchTree

end Zui.KeyDispatch
