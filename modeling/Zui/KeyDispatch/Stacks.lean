/-
The stacks of the dispatch tree.

The stack of nodes is the path of parents to the active node, and the contexts and views on the
other two stacks are those of the nodes on this path (`Mirrors`).  So the stacks are known from the
path (`onPath`), and a call that goes to another node is one that goes to another path.

* `popNode_spec` — a node is popped from all three stacks;
* `setActiveNode_spec` — a node becomes active, whether or not its parent is on the stack;
* `Mirrors.push`, `Mirrors.modify` — a node is pushed, and the active one is changed.
-/
import Zui.KeyDispatch.Basic
import Zui.Library.ParentPath

namespace Zui.KeyDispatch

open Keys (KeyContext)

namespace DispatchTree

/-- The parent of a node. -/
def parent (self : DispatchTree) (nodeId : ℕ) : Option ℕ :=
  self.nodes[nodeId]?.bind DispatchNode.parent

/-- The context of a node. -/
def contextOf (self : DispatchTree) (nodeId : ℕ) : Option KeyContext :=
  self.nodes[nodeId]?.bind DispatchNode.context

/-- The view of a node. -/
def viewOf (self : DispatchTree) (nodeId : ℕ) : Option EntityId :=
  self.nodes[nodeId]?.bind DispatchNode.viewId

/-- The tree with the stacks of a path. -/
def onPath (self : DispatchTree) (stack : List ℕ) : DispatchTree :=
  { self with
    nodeStack := stack
    contextStack := stack.filterMap self.contextOf
    viewStack := stack.filterMap self.viewOf }

/-- **The stacks mirror the path to the active node.** -/
structure Mirrors (tree : DispatchTree) : Prop where
  existing : ∀ nodeId ∈ tree.nodeStack, nodeId < tree.nodes.length
  path : IsPath tree.parent tree.nodeStack
  contexts : tree.contextStack = tree.nodeStack.filterMap tree.contextOf
  views : tree.viewStack = tree.nodeStack.filterMap tree.viewOf
  older : Older tree.parent

variable {self next : DispatchTree} {stack : List ℕ} {nodeId : ℕ} {node : DispatchNode}

theorem filterMap_concat {α β : Type} (f : α → Option β) (xs : List α) (x : α) :
    (xs ++ [x]).filterMap f = xs.filterMap f ++ (f x).toList := by
  rw [List.filterMap_append]
  cases h : f x <;> simp [h]

theorem mirrors_new : Mirrors new where
  existing := by simp [new]
  path := isPath_nil
  contexts := rfl
  views := rfl
  older := by simp [Older, parent, new]

theorem Mirrors.eq_onPath (h : Mirrors self) : self = self.onPath self.nodeStack := by
  rw [onPath, ← h.contexts, ← h.views]

/-- Another path of the tree. -/
theorem Mirrors.onPath (h : Mirrors self) (hpath : IsPath self.parent stack)
    (hexisting : ∀ nodeId ∈ stack, nodeId < self.nodes.length) : Mirrors (self.onPath stack) where
  existing := hexisting
  path := hpath
  contexts := rfl
  views := rfl
  older := h.older

theorem getElem?_of_lt (h : nodeId < self.nodes.length) :
    ∃ node, self.nodes[nodeId]? = some node :=
  ⟨_, List.getElem?_eq_getElem h⟩

theorem activeNodeId_eq (hstack : self.nodeStack = stack ++ [nodeId]) :
    self.activeNodeId = .ok nodeId := by
  rw [activeNodeId, hstack, List.getLast?_concat]

theorem popNode_onPath (hexisting : nodeId < self.nodes.length) :
    (self.onPath (stack ++ [nodeId])).popNode = .ok (self.onPath stack) := by
  obtain ⟨node, hnode⟩ := getElem?_of_lt hexisting
  have hactive : (self.onPath (stack ++ [nodeId])).activeNodeId = .ok nodeId :=
    activeNodeId_eq rfl
  have hindex : Gpui.index (self.onPath (stack ++ [nodeId])).nodes nodeId = .ok node :=
    Gpui.index_ok hnode
  rw [popNode, hactive, ok_bind, hindex, ok_bind]
  have hcontext : self.contextOf nodeId = node.context := by rw [contextOf, hnode]; rfl
  have hview : self.viewOf nodeId = node.viewId := by rw [viewOf, hnode]; rfl
  rw [onPath, onPath, filterMap_concat, filterMap_concat, hcontext, hview]
  cases node.context <;> cases node.viewId <;> simp [pure, Except.pure]

theorem popNode_spec (h : Mirrors self) (hstack : self.nodeStack = stack ++ [nodeId]) :
    self.popNode = .ok (self.onPath stack) := by
  have hexisting := h.existing nodeId (by simp [hstack])
  conv_lhs => rw [h.eq_onPath, hstack]
  exact popNode_onPath hexisting

/-! ### Going to another node -/

/-- The nodes that are popped leave a path that ends with the parent, or none at all. -/
theorem popUntil_onPath (target : Option ℕ)
    (hexisting : ∀ nodeId ∈ stack, nodeId < self.nodes.length) :
    ∃ left, left <+: stack ∧ popUntil target stack.length (self.onPath stack)
        = .ok (self.onPath left) ∧ (left.getLast? = target ∨ left = []) := by
  induction stack using List.reverseRecOn with
  | nil => exact ⟨[], List.prefix_refl _, rfl, .inr rfl⟩
  | append_singleton stack nodeId ih =>
    rw [List.length_append, List.length_singleton, popUntil]
    by_cases hlast : (stack ++ [nodeId]).getLast? = target
    · refine ⟨stack ++ [nodeId], List.prefix_refl _, ?_, .inl hlast⟩
      exact if_neg fun hpop => hpop.1 hlast
    · obtain ⟨left, hleft, hpop, hend⟩ :=
        ih fun nodeId hmem => hexisting nodeId (List.mem_append_left _ hmem)
      refine ⟨left, hleft.trans (List.prefix_append _ _), ?_, hend⟩
      have hcond : (self.onPath (stack ++ [nodeId])).nodeStack.getLast? ≠ target ∧
          (self.onPath (stack ++ [nodeId])).nodeStack ≠ [] := ⟨hlast, by simp [onPath]⟩
      rw [if_pos hcond, popNode_onPath (hexisting nodeId (by simp)), ok_bind]
      exact hpop

theorem climbPass_some {tree : DispatchTree} (hnodes : tree.nodes = self.nodes)
    (hexisting : nodeId < self.nodes.length) :
    climbPass (some nodeId, tree) = .ok (.next (self.parent nodeId, { tree with
      contextStack := tree.contextStack ++ (self.contextOf nodeId).toList
      viewStack := tree.viewStack ++ (self.viewOf nodeId).toList
      nodeStack := tree.nodeStack ++ [nodeId] })) := by
  obtain ⟨node, hnode⟩ := getElem?_of_lt hexisting
  have hindex : Gpui.index tree.nodes nodeId = .ok node := by
    rw [hnodes]
    exact Gpui.index_ok hnode
  rw [climbPass, hindex, ok_bind, parent, contextOf, viewOf, hnode]
  rfl

/-- The way from a node to its root is the path of the node, turned around. -/
theorem climb_spec (hpath : IsPath self.parent (stack ++ [nodeId]))
    (hexisting : ∀ other ∈ stack ++ [nodeId], other < self.nodes.length) :
    ∀ (fuel : ℕ) (tree : DispatchTree), tree.nodes = self.nodes → stack.length + 1 < fuel →
      loop .outOfFuel climbPass fuel (some nodeId, tree)
        = .ok { tree with
          contextStack := tree.contextStack ++ (stack ++ [nodeId]).reverse.filterMap self.contextOf
          viewStack := tree.viewStack ++ (stack ++ [nodeId]).reverse.filterMap self.viewOf
          nodeStack := tree.nodeStack ++ (stack ++ [nodeId]).reverse } := by
  induction stack using List.reverseRecOn generalizing nodeId with
  | nil =>
    intro fuel tree hnodes hfuel
    obtain ⟨fuel, rfl⟩ : ∃ n, fuel = n + 2 := ⟨fuel - 2, by
      rw [List.length_nil] at hfuel
      omega⟩
    have hroot : self.parent nodeId = none := (isPath_concat.mp hpath).2
    rw [loop_next (climbPass_some hnodes (hexisting nodeId (by simp))), hroot, loop_done rfl]
    cases hcontext : self.contextOf nodeId <;> cases hview : self.viewOf nodeId <;>
      simp [hcontext, hview]
  | append_singleton stack ancestor ih =>
    intro fuel tree hnodes hfuel
    obtain ⟨hstack, hparent⟩ := isPath_concat.mp hpath
    rw [List.getLast?_concat] at hparent
    rw [List.length_append, List.length_singleton] at hfuel
    obtain ⟨fuel, rfl⟩ : ∃ n, fuel = n + 1 := ⟨fuel - 1, by omega⟩
    have hrest := ih hstack fun other hmem => hexisting other (List.mem_append_left _ hmem)
    rw [loop_next (climbPass_some hnodes (hexisting nodeId (by simp))), hparent]
    rw [hrest]
    · cases hcontext : self.contextOf nodeId <;> cases hview : self.viewOf nodeId <;>
        simp [hcontext, hview]
    · exact hnodes
    · omega

/-- **A node becomes active**, and the stacks are those of the path to it. -/
theorem setActiveNode_spec (h : Mirrors self) (hexisting : nodeId < self.nodes.length) :
    ∃ stack, self.setActiveNode nodeId = .ok (self.onPath (stack ++ [nodeId])) ∧
      Mirrors (self.onPath (stack ++ [nodeId])) := by
  obtain ⟨node, hnode⟩ := getElem?_of_lt hexisting
  have hparent : self.parent nodeId = node.parent := by rw [parent, hnode]; rfl
  have hcontext : self.contextOf nodeId = node.context := by rw [contextOf, hnode]; rfl
  have hview : self.viewOf nodeId = node.viewId := by rw [viewOf, hnode]; rfl
  obtain ⟨left, hleft, hpop, hend⟩ := popUntil_onPath node.parent h.existing
  rw [← h.eq_onPath] at hpop
  rw [setActiveNode, Gpui.index_ok hnode, ok_bind, hpop, ok_bind]
  have hleftPath : IsPath self.parent left := h.path.front hleft
  by_cases hlast : left.getLast? = node.parent
  · -- the parent is on the stack, or there is none
    refine ⟨left, ?_, h.onPath (isPath_concat.mpr ⟨hleftPath, hparent.trans hlast.symm⟩) ?_⟩
    · have hcond : (self.onPath left).nodeStack.getLast? = node.parent := hlast
      rw [if_pos hcond, onPath, onPath, filterMap_concat, filterMap_concat, hcontext, hview]
      rfl
    · intro ancestor hmem
      rcases List.mem_append.mp hmem with hmem | hmem
      · exact h.existing ancestor (hleft.subset hmem)
      · rw [List.mem_singleton.mp hmem]
        exact hexisting
  · -- it is not, and all nodes have been popped
    obtain rfl := hend.resolve_left hlast
    obtain ⟨stack, hpath⟩ := exists_path h.older nodeId
    have hbelow : ∀ ancestor ∈ stack ++ [nodeId], ancestor < self.nodes.length := by
      intro ancestor hmem
      have hle := hpath.le h.older ancestor hmem
      omega
    have hlength := hpath.length_le h.older
    refine ⟨stack, ?_, h.onPath hpath hbelow⟩
    have hcond : ¬ (self.onPath []).nodeStack.getLast? = node.parent := hlast
    have hfuel : stack.length + 1 < (self.onPath []).nodes.length + 1 := by
      show stack.length + 1 < self.nodes.length + 1
      omega
    rw [if_neg hcond, climb_spec hpath hbelow _ (self.onPath []) rfl hfuel, ok_bind]
    simp only [onPath, List.filterMap_nil, List.nil_append, List.filterMap_reverse,
      List.reverse_reverse]
    rfl

/-! ### Changing the active node -/

theorem modifyActive_eq (change : DispatchNode → DispatchNode)
    (hstack : self.nodeStack = stack ++ [nodeId]) (hnode : self.nodes[nodeId]? = some node) :
    self.modifyActive change
      = .ok { self with nodes := self.nodes.set nodeId (change node) } := by
  rw [modifyActive, activeNodeId_eq hstack, ok_bind, Gpui.index_ok hnode, ok_bind]
  rfl

theorem bind_set {α : Type} (field : DispatchNode → Option α) {node' : DispatchNode}
    (hnode : self.nodes[nodeId]? = some node) (hnodes : next.nodes = self.nodes.set nodeId node')
    (other : ℕ) : next.nodes[other]?.bind field
      = if other = nodeId then field node' else self.nodes[other]?.bind field := by
  obtain ⟨hlt, -⟩ := List.getElem?_eq_some_iff.mp hnode
  rw [hnodes]
  split_ifs with heq
  · subst heq
    rw [List.getElem?_set_self hlt]
    rfl
  · rw [List.getElem?_set_ne (Ne.symm heq)]

/-- **The active node is changed**: it may get a context or a view, which goes on top. -/
theorem Mirrors.modify (h : Mirrors self) (hstack : self.nodeStack = stack ++ [nodeId])
    (hnode : self.nodes[nodeId]? = some node) (node' : DispatchNode)
    {contexts : List KeyContext} {views : List EntityId}
    (hparent : node'.parent = node.parent)
    (hcontext : node'.context.toList = node.context.toList ++ contexts)
    (hview : node'.viewId.toList = node.viewId.toList ++ views)
    (hnodes : next.nodes = self.nodes.set nodeId node')
    (hnodeStack : next.nodeStack = self.nodeStack)
    (hcontextStack : next.contextStack = self.contextStack ++ contexts)
    (hviewStack : next.viewStack = self.viewStack ++ views) : Mirrors next := by
  have hpath := h.path
  rw [hstack] at hpath
  have hbelow : ∀ other ∈ stack, other ≠ nodeId :=
    fun other hmem => ne_of_lt (hpath.lt h.older other hmem)
  have hparents : next.parent = self.parent := by
    funext other
    rw [parent, bind_set _ hnode hnodes, parent]
    split_ifs with heq
    · rw [heq, hnode, hparent]
      rfl
    · rfl
  -- below the active node nothing changes
  have hstacks : ∀ {α : Type} (field : DispatchNode → Option α) (added : List α),
      (field node').toList = (field node).toList ++ added →
      (stack ++ [nodeId]).filterMap (fun other => next.nodes[other]?.bind field)
        = (stack ++ [nodeId]).filterMap (fun other => self.nodes[other]?.bind field)
          ++ added := by
    intro α field added hfield
    have hsame : stack.filterMap (fun other => next.nodes[other]?.bind field)
        = stack.filterMap (fun other => self.nodes[other]?.bind field) := by
      refine List.filterMap_congr ?_
      intro other hmem
      rw [bind_set field hnode hnodes, if_neg (hbelow other hmem)]
    rw [filterMap_concat, filterMap_concat, hsame, List.append_assoc, bind_set field hnode hnodes,
      if_pos rfl, hnode, hfield]
    rfl
  refine ⟨?_, ?_, ?_, ?_, ?_⟩
  · rw [hnodeStack, hnodes, List.length_set]
    exact h.existing
  · rw [hnodeStack, hparents]
    exact h.path
  · rw [hcontextStack, hnodeStack, h.contexts, hstack]
    exact (hstacks DispatchNode.context contexts hcontext).symm
  · rw [hviewStack, hnodeStack, h.views, hstack]
    exact (hstacks DispatchNode.viewId views hview).symm
  · rw [hparents]
    exact h.older

theorem bind_push {α : Type} (field : DispatchNode → Option α) (other : ℕ) :
    self.pushNode.nodes[other]?.bind field
      = if other = self.nodes.length then field (.new self.nodeStack.getLast?)
        else self.nodes[other]?.bind field := by
  rw [pushNode]
  split_ifs with heq
  · rw [heq, List.getElem?_concat_length]
    rfl
  · rw [List.getElem?_append]
    split_ifs with hlt
    · rfl
    · rw [List.getElem?_eq_none (by simp; omega), List.getElem?_eq_none (by omega)]

/-- **A node is pushed.** -/
theorem Mirrors.push (h : Mirrors self) : Mirrors self.pushNode := by
  have hbelow : ∀ other ∈ self.nodeStack, other ≠ self.nodes.length :=
    fun other hmem => ne_of_lt (h.existing other hmem)
  have hparent : self.pushNode.parent self.nodes.length = self.nodeStack.getLast? := by
    rw [parent, bind_push, if_pos rfl]
    rfl
  have hparents : ∀ other, other ≠ self.nodes.length →
      self.pushNode.parent other = self.parent other := by
    intro other hne
    rw [parent, bind_push, if_neg hne, parent]
  have hstacks : ∀ {α : Type} (field : DispatchNode → Option α),
      field (.new self.nodeStack.getLast?) = none →
      (self.nodeStack ++ [self.nodes.length]).filterMap
          (fun other => self.pushNode.nodes[other]?.bind field)
        = self.nodeStack.filterMap (fun other => self.nodes[other]?.bind field) := by
    intro α field hfield
    rw [filterMap_concat, bind_push, if_pos rfl, hfield, Option.toList_none, List.append_nil]
    refine List.filterMap_congr ?_
    intro other hmem
    rw [bind_push, if_neg (hbelow other hmem)]
  refine ⟨?_, ?_, ?_, ?_, ?_⟩
  · intro other hmem
    show other < (self.nodes ++ [_]).length
    rw [List.length_append, List.length_singleton]
    rcases List.mem_append.mp hmem with hmem | hmem
    · exact Nat.lt_succ_of_lt (h.existing other hmem)
    · rw [List.mem_singleton.mp hmem]
      exact Nat.lt_succ_self _
  · refine isPath_concat.mpr ⟨h.path.congr ?_, hparent⟩
    intro other hmem
    exact hparents other (hbelow other hmem)
  · exact h.contexts.trans (hstacks DispatchNode.context rfl).symm
  · exact h.views.trans (hstacks DispatchNode.viewId rfl).symm
  · intro other ancestor hancestor
    by_cases heq : other = self.nodes.length
    · rw [heq, hparent] at hancestor
      rw [heq]
      exact h.existing ancestor (List.mem_of_getLast? hancestor)
    · rw [hparents other heq] at hancestor
      exact h.older other ancestor hancestor

end DispatchTree

end Zui.KeyDispatch
