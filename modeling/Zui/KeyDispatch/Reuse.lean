/-
Reusing a subtree of the dispatch tree.

`reuse_subtree` goes through the nodes of a range of the source, and pushes and pops as their
parents say.  Where the range is a list of subtrees in preorder (`SubtreeList`), the parent of each
node is on the stack of the source when its turn comes, so that the nodes come under their parents
again, and the roots under the active node.

A view that is on top of the view stack is not stored once more, so that a node that is moved under
one with the same view does without it.

* `popAncestors_spec`, `popAll_spec` — what is popped;
* `Replayed.step` — a node is moved;
* `reuseSubtree_spec` — what is reused, and what is left.
-/
import Zui.KeyDispatch.Registrations

namespace Zui.KeyDispatch

open Keys (KeyContext)

namespace DispatchTree

/-- The parent of a node, if it is in the range. -/
def parentWithin (self : DispatchTree) (range : ℕ × ℕ) (nodeId : ℕ) : Option ℕ :=
  (self.parent nodeId).filter fun parent => range.1 ≤ parent ∧ parent < range.2

/-- The nodes of a range are subtrees in preorder: children are behind their parents, with only
descendants of the parent between them. -/
structure SubtreeList (source : DispatchTree) (range : ℕ × ℕ) : Prop where
  start_le : range.1 ≤ range.2
  end_le : range.2 ≤ source.nodes.length
  older : ∀ child parent, range.1 ≤ child → child < range.2 →
    source.parentWithin range child = some parent → parent < child
  preorder : ∀ child parent, range.1 ≤ child → child < range.2 →
    source.parentWithin range child = some parent → ∀ between, parent < between →
      between < child → ∃ parent', source.parentWithin range between = some parent' ∧
        parent ≤ parent'

/-- Where a node of the range is reused. -/
def shift (before : DispatchTree) (range : ℕ × ℕ) (nodeId : ℕ) : ℕ :=
  nodeId - range.1 + before.nodes.length

/-- The parent of a node that is reused: the parent in the range, or else the active node. -/
def newParent (before source : DispatchTree) (range : ℕ × ℕ) (nodeId : ℕ) : Option ℕ :=
  match source.parentWithin range nodeId with
  | some parent => some (before.shift range parent)
  | none => before.nodeStack.getLast?

/-- A node is copied, except for a view that is the last one on the path to its parent. -/
def Copied (before source : DispatchTree) (range : ℕ × ℕ) (tree : DispatchTree) (nodeId : ℕ) :
    Prop :=
  ∃ node path, source.nodes[nodeId]? = some node ∧
    IsPath tree.parent path ∧ (∀ ancestor ∈ path, ancestor < tree.nodes.length) ∧
    path.getLast? = before.newParent source range nodeId ∧
    tree.nodes[before.shift range nodeId]? = some { node with
      viewId := node.viewId.filter fun viewId =>
        (path.filterMap tree.viewOf).getLast? ≠ some viewId
      parent := before.newParent source range nodeId }

/-- The nodes of a range that hold the focus. -/
def Focused (source : DispatchTree) (focus : Option FocusId) (start stop : ℕ) : Prop :=
  ∃ nodeId node, start ≤ nodeId ∧ nodeId < stop ∧ source.nodes[nodeId]? = some node ∧
    node.focusId.isSome ∧ node.focusId = focus

/-- What reusing a subtree does. -/
structure Reuses (before source : DispatchTree) (range : ℕ × ℕ) (focus : Option FocusId)
    (tree left : DispatchTree) (reused : ReusedSubtree) : Prop where
  nodeStack : tree.nodeStack = before.nodeStack
  contextStack : tree.contextStack = before.contextStack
  viewStack : tree.viewStack = before.viewStack
  kept : before.nodes <+: tree.nodes
  length : tree.nodes.length = before.nodes.length + (range.2 - range.1)
  copied : ∀ nodeId, range.1 ≤ nodeId → nodeId < range.2 → Copied before source range tree nodeId
  /-- The listeners are taken from the source. -/
  left : ∀ nodeId, left.nodes[nodeId]? = source.nodes[nodeId]?.map fun node =>
    if range.1 ≤ nodeId ∧ nodeId < range.2 then node.takeListeners else node
  ranges : reused.oldRange = range ∧
    reused.newRange = (before.nodes.length, before.nodes.length + (range.2 - range.1))
  containsFocus : reused.containsFocus = true ↔ Focused source focus range.1 range.2

variable {self next before source tree : DispatchTree} {range : ℕ × ℕ} {nodeId : ℕ}
  {base stack : List ℕ}

/-! ### Popping -/

theorem Mirrors.front (h : Mirrors self) (hfront : stack <+: self.nodeStack) :
    Mirrors (self.onPath stack) :=
  h.onPath (h.path.front hfront) fun nodeId hmem => h.existing nodeId (hfront.subset hmem)

/-- **The ancestors of a node stay**: what is popped is above the parent, if it is on the stack. -/
theorem popAncestors_spec (f : ℕ → ℕ) (parent : Option ℕ) (h : Mirrors self)
    (hstack : self.nodeStack = base ++ stack.reverse.map f) :
    ∃ left, popAncestors parent stack self
        = .ok (left, self.onPath (base ++ left.reverse.map f)) ∧ left <:+ stack ∧
      ((∃ ancestor, left.head? = some ancestor ∧ parent = some ancestor) ∨
        (left = [] ∧ ∀ ancestor ∈ stack, parent ≠ some ancestor)) := by
  induction stack generalizing self with
  | nil =>
    refine ⟨[], ?_, List.suffix_refl _, .inr ⟨rfl, by simp⟩⟩
    rw [popAncestors]
    conv_lhs => rw [h.eq_onPath, hstack]
  | cons ancestor stack ih =>
    rw [popAncestors]
    split_ifs with hparent
    · refine ⟨ancestor :: stack, ?_, List.suffix_refl _, .inl ⟨ancestor, rfl, hparent⟩⟩
      conv_lhs => rw [h.eq_onPath, hstack]
    · rw [List.reverse_cons, List.map_append, ← List.append_assoc] at hstack
      rw [popNode_spec h hstack, ok_bind]
      have hfront : base ++ stack.reverse.map f <+: self.nodeStack :=
        hstack ▸ List.prefix_append _ _
      obtain ⟨left, hpop, hsuffix, hend⟩ := ih (h.front hfront) rfl
      refine ⟨left, hpop, hsuffix.trans (List.suffix_cons _ _), ?_⟩
      rcases hend with hend | ⟨hnil, hnone⟩
      · exact .inl hend
      · refine .inr ⟨hnil, ?_⟩
        intro other hmem
        rcases List.mem_cons.mp hmem with rfl | hmem
        · exact hparent
        · exact hnone other hmem

/-- In the end everything is popped. -/
theorem popAll_spec (f : ℕ → ℕ) (h : Mirrors self)
    (hstack : self.nodeStack = base ++ stack.reverse.map f) :
    popAll stack self = .ok (self.onPath base) := by
  induction stack generalizing self with
  | nil =>
    rw [popAll]
    conv_lhs => rw [h.eq_onPath, hstack]
    simp
  | cons ancestor stack ih =>
    rw [List.reverse_cons, List.map_append, ← List.append_assoc] at hstack
    rw [popAll, popNode_spec h hstack, ok_bind]
    have hfront : base ++ stack.reverse.map f <+: self.nodeStack :=
      hstack ▸ List.prefix_append _ _
    exact ih (h.front hfront) rfl

/-! ### The loop -/

/-- The state of `reuse_subtree` after some nodes, with logs of what was registered before. -/
structure Replayed (before source : DispatchTree) (range : ℕ × ℕ) (focus : Option FocusId)
    (focused : List (FocusId × ℕ)) (viewed : List (EntityId × ℕ)) (count : ℕ)
    (state : Reusing) : Prop where
  mirrors : Mirrors state.tree
  stack : state.tree.nodeStack
    = before.nodeStack ++ state.sourceStack.reverse.map (before.shift range)
  /-- The stack of the source is a path in the range, to the last node. -/
  path : IsPath (source.parentWithin range) state.sourceStack.reverse
  top : state.sourceStack.head? = if count = 0 then none else some (range.1 + count - 1)
  within : ∀ nodeId ∈ state.sourceStack, range.1 ≤ nodeId ∧ nodeId < range.2
  kept : before.nodes <+: state.tree.nodes
  length : state.tree.nodes.length = before.nodes.length + count
  copied : ∀ nodeId, range.1 ≤ nodeId → nodeId < range.1 + count →
    Copied before source range state.tree nodeId
  left : ∀ nodeId, state.sourceNodes[nodeId]? = source.nodes[nodeId]?.map fun node =>
    if range.1 ≤ nodeId ∧ nodeId < range.1 + count then node.takeListeners else node
  containsFocus : state.containsFocus = true ↔ Focused source focus range.1 (range.1 + count)
  focusable : state.tree.focusableNodeIds = lastOf (focused ++ registrations
    DispatchNode.focusId before.nodes.length (state.tree.nodes.drop before.nodes.length))
  viewable : state.tree.viewNodeIds = lastOf (viewed ++ registrations
    DispatchNode.viewId before.nodes.length (state.tree.nodes.drop before.nodes.length))

section Replaying

variable {focus : Option FocusId} {focused : List (FocusId × ℕ)} {viewed : List (EntityId × ℕ)}
  {count : ℕ} {state : Reusing}

theorem Replayed.start (h : Mirrors before) (hfocus : before.focusableNodeIds = lastOf focused)
    (hview : before.viewNodeIds = lastOf viewed) :
    Replayed before source range focus focused viewed 0 ⟨before, source.nodes, [], false⟩ where
  mirrors := h
  stack := by simp
  path := isPath_nil
  top := rfl
  within := by simp
  kept := List.prefix_refl _
  length := rfl
  copied := by
    intro nodeId hstart hend
    omega
  left := by
    intro nodeId
    have hnot : ¬ (range.1 ≤ nodeId ∧ nodeId < range.1 + 0) := by omega
    simp only [if_neg hnot, Option.map_id']
  containsFocus := by
    constructor
    · intro hfalse
      cases hfalse
    · rintro ⟨nodeId, node, hstart, hend, -⟩
      omega
  focusable := by simp [registrations, hfocus]
  viewable := by simp [registrations, hview]

/-- **The parent of the next node is on the stack**, if it is in the range. -/
theorem Replayed.parent_mem (h : Replayed before source range focus focused viewed count state)
    (hsource : SubtreeList source range) (hlt : range.1 + count < range.2) {parent : ℕ}
    (hparent : source.parentWithin range (range.1 + count) = some parent) :
    parent ∈ state.sourceStack := by
  have hrange : range.1 ≤ parent := by
    obtain ⟨-, hin⟩ := Option.filter_eq_some_iff.mp hparent
    exact (of_decide_eq_true hin).1
  have holder := hsource.older _ _ (Nat.le_add_right _ _) hlt hparent
  have htop := h.top
  rw [if_neg (by omega)] at htop
  obtain ⟨rest, hrest⟩ : ∃ rest, state.sourceStack = (range.1 + count - 1) :: rest := by
    cases hstack : state.sourceStack with
    | nil => rw [hstack] at htop; cases htop
    | cons first rest =>
      rw [hstack, List.head?_cons] at htop
      exact ⟨rest, by rw [Option.some.inj htop]⟩
  have hpath := h.path
  rw [hrest, List.reverse_cons] at hpath
  have hmem := hpath.mem (m := parent) (by omega) (by
    intro between hafter hbefore
    obtain ⟨parent', hparent', hle⟩ :=
      hsource.preorder _ _ (Nat.le_add_right _ _) hlt hparent between hafter (by omega)
    have hyounger := hsource.older between parent' (by omega) (by omega) hparent'
    exact ⟨parent', hparent', hle, hyounger⟩)
  rw [hrest]
  simpa [or_comm] using hmem

theorem focused_succ {node : DispatchNode} (hnode : source.nodes[nodeId]? = some node) {start : ℕ}
    (hle : start ≤ nodeId) : Focused source focus start (nodeId + 1) ↔
      Focused source focus start nodeId ∨ (node.focusId.isSome ∧ node.focusId = focus) := by
  constructor
  · rintro ⟨other, node', hstart, hstop, hnode', hfocus⟩
    rcases Nat.lt_succ_iff_lt_or_eq.mp hstop with hlt | rfl
    · exact .inl ⟨other, node', hstart, hlt, hnode', hfocus⟩
    · obtain rfl := Option.some.inj (hnode.symm.trans hnode')
      exact .inr hfocus
  · rintro (⟨other, node', hstart, hstop, hnode', hfocus⟩ | hfocus)
    · exact ⟨other, node', hstart, Nat.lt_succ_of_lt hstop, hnode', hfocus⟩
    · exact ⟨nodeId, node, hle, Nat.lt_succ_self _, hnode, hfocus⟩

theorem getElem?_of_kept (hnodesKept : self.nodes <+: next.nodes)
    (hlt : nodeId < self.nodes.length) : next.nodes[nodeId]? = self.nodes[nodeId]? := by
  obtain ⟨added, hadded⟩ := hnodesKept
  rw [← hadded, List.getElem?_append_left hlt]

theorem IsPath.of_kept {path : List ℕ} (hpath : IsPath self.parent path)
    (hnodesKept : self.nodes <+: next.nodes)
    (hexisting : ∀ ancestor ∈ path, ancestor < self.nodes.length) : IsPath next.parent path := by
  refine hpath.congr ?_
  intro ancestor hmem
  rw [parent, getElem?_of_kept hnodesKept (hexisting ancestor hmem), parent]

theorem filterMap_of_kept {α : Type} (field : DispatchNode → Option α) {path : List ℕ}
    (hnodesKept : self.nodes <+: next.nodes)
    (hexisting : ∀ ancestor ∈ path, ancestor < self.nodes.length) :
    path.filterMap (fun ancestor => next.nodes[ancestor]?.bind field)
      = path.filterMap (fun ancestor => self.nodes[ancestor]?.bind field) := by
  refine List.filterMap_congr ?_
  intro ancestor hmem
  rw [getElem?_of_kept hnodesKept (hexisting ancestor hmem)]

theorem Copied.mono (h : Copied before source range self nodeId)
    (hnodesKept : self.nodes <+: next.nodes) : Copied before source range next nodeId := by
  obtain ⟨node, path, hnode, hpath, hexisting, hlast, hcopy⟩ := h
  have hlt : before.shift range nodeId < self.nodes.length :=
    (List.getElem?_eq_some_iff.mp hcopy).1
  refine ⟨node, path, hnode, IsPath.of_kept hpath hnodesKept hexisting, ?_, hlast, ?_⟩
  · intro ancestor hmem
    exact lt_of_lt_of_le (hexisting ancestor hmem) hnodesKept.length_le
  · have hviews : path.filterMap next.viewOf = path.filterMap self.viewOf :=
      filterMap_of_kept DispatchNode.viewId hnodesKept hexisting
    rw [getElem?_of_kept hnodesKept hlt, hcopy, hviews]

theorem nodes_kept_moved (node : DispatchNode) : self.nodes <+: (self.moved node).nodes :=
  List.prefix_append _ _

theorem copied_moved (h : Mirrors self) {node : DispatchNode}
    (hnode : source.nodes[nodeId]? = some node)
    (hlast : self.nodeStack.getLast? = before.newParent source range nodeId)
    (hplace : before.shift range nodeId = self.nodes.length) :
    Copied before source range (self.moved node) nodeId := by
  have hnodesKept : self.nodes <+: (self.moved node).nodes := nodes_kept_moved node
  have hviews : self.nodeStack.filterMap (self.moved node).viewOf = self.viewStack :=
    (filterMap_of_kept DispatchNode.viewId hnodesKept h.existing).trans h.views.symm
  refine ⟨node, self.nodeStack, hnode, IsPath.of_kept h.path hnodesKept h.existing, ?_, hlast, ?_⟩
  · intro ancestor hmem
    exact lt_of_lt_of_le (h.existing ancestor hmem) hnodesKept.length_le
  · rw [hviews, hplace, ← hlast]
    exact List.getElem?_concat_length

/-- The stack of the source ends with the parent of the next node, when its turn comes. -/
theorem Replayed.head_left (h : Replayed before source range focus focused viewed count state)
    (hsource : SubtreeList source range) (hlt : range.1 + count < range.2) {node : DispatchNode}
    (hnode : source.nodes[range.1 + count]? = some node) {left : List ℕ}
    (hsuffix : left <:+ state.sourceStack)
    (hend : (∃ ancestor, left.head? = some ancestor ∧ node.parent = some ancestor) ∨
      (left = [] ∧ ∀ ancestor ∈ state.sourceStack, node.parent ≠ some ancestor)) :
    left.head? = source.parentWithin range (range.1 + count) := by
  have hparent : source.parent (range.1 + count) = node.parent := by
    rw [parent, hnode]
    rfl
  rcases hend with ⟨ancestor, hhead, hancestor⟩ | ⟨rfl, hnone⟩
  · have hwithin := h.within ancestor (hsuffix.subset (List.mem_of_head? hhead))
    rw [hhead, parentWithin, hparent, hancestor]
    simp [Option.filter, hwithin]
  · cases hwithin : source.parentWithin range (range.1 + count) with
    | none => rfl
    | some ancestor =>
      have hmem := h.parent_mem hsource hlt hwithin
      obtain ⟨heq, -⟩ := Option.filter_eq_some_iff.mp hwithin
      exact absurd (hparent.symm.trans heq) (hnone ancestor hmem)

/-- **A node is moved** under its parent, or the active node. -/
theorem Replayed.step (h : Replayed before source range focus focused viewed count state)
    (hsource : SubtreeList source range) (hlt : range.1 + count < range.2) :
    ∃ next, reuseNode focus state (range.1 + count) = .ok next ∧
      Replayed before source range focus focused viewed (count + 1) next := by
  have hexisting : range.1 + count < source.nodes.length := lt_of_lt_of_le hlt hsource.end_le
  obtain ⟨node, hnode⟩ : ∃ node, source.nodes[range.1 + count]? = some node :=
    getElem?_of_lt hexisting
  have hsourceNode : state.sourceNodes[range.1 + count]? = some node := by
    rw [h.left, hnode, Option.map_some, if_neg (by omega)]
  obtain ⟨left, hpop, hsuffix, hend⟩ :=
    popAncestors_spec (before.shift range) node.parent h.mirrors h.stack
  have hhead := h.head_left hsource hlt hnode hsuffix hend
  have hfront : before.nodeStack ++ left.reverse.map (before.shift range)
      <+: state.tree.nodeStack := by
    rw [h.stack]
    exact List.prefix_append_right_inj _ |>.mpr ((List.reverse_prefix.mpr hsuffix).map _)
  have hparents := h.mirrors.front hfront
  -- the tree in which the ancestors of the node are left on the stacks
  generalize hleft : state.tree.onPath
    (before.nodeStack ++ left.reverse.map (before.shift range)) = parents at hpop hparents
  have hnodes : parents.nodes = state.tree.nodes := by rw [← hleft]; rfl
  have hparentStack : parents.nodeStack
      = before.nodeStack ++ left.reverse.map (before.shift range) := by
    rw [← hleft]
    rfl
  have hfocusable : parents.focusableNodeIds = state.tree.focusableNodeIds := by rw [← hleft]; rfl
  have hviewable : parents.viewNodeIds = state.tree.viewNodeIds := by rw [← hleft]; rfl
  have hlength : parents.nodes.length = before.nodes.length + count := by rw [hnodes, h.length]
  have hplace : before.shift range (range.1 + count) = parents.nodes.length := by
    rw [hlength, shift]
    omega
  have hnodesKept : parents.nodes <+: (parents.moved node).nodes := nodes_kept_moved node
  have hlast : parents.nodeStack.getLast? = before.newParent source range (range.1 + count) := by
    rw [hparentStack, newParent, ← hhead]
    cases left with
    | nil => simp
    | cons ancestor left => simp
  have hadded : (parents.moved node).nodes.drop before.nodes.length
      = state.tree.nodes.drop before.nodes.length ++ [parents.copy node] := by
    show (parents.nodes ++ [parents.copy node]).drop before.nodes.length = _
    rw [List.drop_append_of_le_length (by omega), hnodes]
  have hcount : before.nodes.length + (state.tree.nodes.drop before.nodes.length).length
      = parents.nodes.length := by
    rw [List.length_drop, h.length, hlength]
    omega
  refine ⟨⟨parents.moved node, state.sourceNodes.set (range.1 + count) node.takeListeners,
    (range.1 + count) :: left,
    state.containsFocus || (node.focusId.isSome && decide (node.focusId = focus))⟩, ?_, ?_⟩
  · rw [reuseNode, Gpui.index_ok hsourceNode, ok_bind, hpop, ok_bind]
    dsimp only
    rw [moveNode_eq, ok_bind]
    rfl
  refine ⟨hparents.moved node, ?_, ?_, ?_, ?_, ?_, ?_, ?_, ?_, ?_, ?_, ?_⟩
  · show parents.nodeStack ++ [parents.nodes.length] = _
    rw [hparentStack, List.reverse_cons, List.map_append, ← List.append_assoc, ← hplace]
    rfl
  · show IsPath _ ((range.1 + count) :: left).reverse
    rw [List.reverse_cons, isPath_concat, List.getLast?_reverse, hhead]
    exact ⟨h.path.front (List.reverse_prefix.mpr hsuffix), rfl⟩
  · simp
  · intro nodeId hmem
    rcases List.mem_cons.mp hmem with rfl | hmem
    · exact ⟨Nat.le_add_right _ _, hlt⟩
    · exact h.within nodeId (hsuffix.subset hmem)
  · exact (hnodes ▸ h.kept).trans hnodesKept
  · show (parents.nodes ++ [parents.copy node]).length = _
    rw [List.length_append, hlength, List.length_singleton]
    omega
  · intro nodeId hstart hstop
    by_cases heq : nodeId = range.1 + count
    · rw [heq]
      exact copied_moved hparents hnode hlast hplace
    · exact (h.copied nodeId hstart (by omega)).mono (hnodes ▸ hnodesKept)
  · intro nodeId
    show (state.sourceNodes.set (range.1 + count) node.takeListeners)[nodeId]? = _
    by_cases heq : nodeId = range.1 + count
    · obtain ⟨hlt', -⟩ := List.getElem?_eq_some_iff.mp hsourceNode
      rw [heq, List.getElem?_set_self hlt', hnode, Option.map_some, if_pos (by omega)]
    · have hsame : (range.1 ≤ nodeId ∧ nodeId < range.1 + (count + 1)) ↔
          (range.1 ≤ nodeId ∧ nodeId < range.1 + count) := by omega
      rw [List.getElem?_set_ne (Ne.symm heq), h.left]
      simp only [hsame]
  · show (state.containsFocus || (node.focusId.isSome && decide (node.focusId = focus))) = true ↔ _
    rw [Bool.or_eq_true, h.containsFocus, ← Nat.add_assoc,
      focused_succ hnode (Nat.le_add_right _ _), Bool.and_eq_true, decide_eq_true_eq]
  · show register parents.focusableNodeIds node.focusId parents.nodes.length = _
    rw [hadded, registrations_concat, ← List.append_assoc, hcount, lastOf_append_registration,
      hfocusable, h.focusable]
    rfl
  · show register parents.viewNodeIds (parents.copy node).viewId parents.nodes.length = _
    rw [hadded, registrations_concat, ← List.append_assoc, hcount, lastOf_append_registration,
      hviewable, h.viewable]

theorem Replayed.run (h : Replayed before source range focus focused viewed count state)
    (hsource : SubtreeList source range) {length : ℕ} (hle : range.1 + count + length ≤ range.2) :
    ∃ next, (List.range' (range.1 + count) length).foldlM (reuseNode focus) state = .ok next ∧
      Replayed before source range focus focused viewed (count + length) next := by
  induction length generalizing count state with
  | zero => exact ⟨state, rfl, h⟩
  | succ length ih =>
    obtain ⟨next, hnext, hreplayed⟩ := h.step hsource (by omega)
    obtain ⟨final, hfinal, hdone⟩ := ih hreplayed (by omega)
    refine ⟨final, ?_, ?_⟩
    · rw [List.range'_succ, List.foldlM_cons, hnext, ok_bind]
      exact hfinal
    · rwa [Nat.add_assoc, Nat.add_comm 1] at hdone

/-- **A subtree is reused.** -/
theorem reuseSubtree_spec (focus : Option FocusId) (h : Mirrors self)
    (hfocus : self.focusableNodeIds = lastOf focused) (hview : self.viewNodeIds = lastOf viewed)
    (hsource : SubtreeList source range) :
    ∃ tree left reused, reuseSubtree range source focus self = .ok (tree, left, reused) ∧
      Reuses self source range focus tree left reused ∧ Mirrors tree ∧
      tree.focusableNodeIds = lastOf (focused ++ registrations
        DispatchNode.focusId self.nodes.length (tree.nodes.drop self.nodes.length)) ∧
      tree.viewNodeIds = lastOf (viewed ++ registrations
        DispatchNode.viewId self.nodes.length (tree.nodes.drop self.nodes.length)) := by
  have hle := hsource.start_le
  have hids : ((List.range source.nodes.length).drop range.1).take (range.2 - range.1)
      = List.range' (range.1 + 0) (range.2 - range.1) := by
    have hend := hsource.end_le
    refine List.ext_getElem ?_ ?_
    · simp
      omega
    · simp
  have hstop : range.1 + (range.2 - range.1) = range.2 := by omega
  have hstart : Replayed self source range focus focused viewed 0
      ⟨self, source.nodes, [], false⟩ := .start h hfocus hview
  obtain ⟨state, hrun, hreplayed⟩ := hstart.run hsource (le_of_eq hstop)
  rw [Nat.zero_add] at hreplayed
  have hpop := popAll_spec (self.shift range) hreplayed.mirrors hreplayed.stack
  have hfront := hreplayed.mirrors.front (hreplayed.stack ▸ List.prefix_append _ _)
  refine ⟨state.tree.onPath self.nodeStack, { source with nodes := state.sourceNodes },
    ⟨range, (self.nodes.length, self.nodes.length + (range.2 - range.1)), state.containsFocus⟩,
    ?_, ?_, hfront, hreplayed.focusable, hreplayed.viewable⟩
  · rw [reuseSubtree, hids, hrun, ok_bind, hpop, ok_bind]
    rfl
  have hcopied := hreplayed.copied
  have hleft := hreplayed.left
  have hcontainsFocus := hreplayed.containsFocus
  rw [hstop] at hcopied hleft hcontainsFocus
  refine ⟨rfl, ?_, ?_, hreplayed.kept, hreplayed.length, hcopied, hleft, ⟨rfl, rfl⟩,
    hcontainsFocus⟩
  · exact (filterMap_of_kept DispatchNode.context hreplayed.kept h.existing).trans
      h.contexts.symm
  · exact (filterMap_of_kept DispatchNode.viewId hreplayed.kept h.existing).trans h.views.symm

end Replaying

end DispatchTree

end Zui.KeyDispatch
