/-
Runs of calls on the dispatch tree.

A `Recorded` tree has logs of which focus and view ids were registered at which nodes.  A call of a
run is one that the elements may make (`Permitted`): they pop nodes that they pushed, and give a
node a context, a focus id and a view id once at most.

* `act_spec` — such a call does not panic and keeps the invariant;
* `dispatchTree_mirrors` — the stacks, the maps and what is reused, in every state of every run;
* `not_reuse_copies` — a view id that is left out.
-/
import Zui.KeyDispatch.Reuse

namespace Zui.KeyDispatch

open Keys (KeyContext)

/-- A call. -/
inductive Call
  | pushNode
  | popNode
  | setActiveNode (nodeId : ℕ)
  | setFocusId (focusId : FocusId)
  | setKeyContext (context : KeyContext)
  | setViewId (viewId : EntityId)
  | onKeyEvent (listener : KeyListener)
  | onModifiersChanged (listener : ModifiersChangedListener)
  | onAction (actionType listener : ℕ)
  | reuseSubtree (oldRange : ℕ × ℕ) (source : DispatchTree) (focus : Option FocusId)

/-- A tree, with the nodes at which ids were registered, one after the other. -/
structure Recorded where
  tree : DispatchTree
  focused : List (FocusId × ℕ)
  viewed : List (EntityId × ℕ)

open DispatchTree

namespace Recorded

/-- A tree without nodes. -/
def start : Recorded := ⟨.new, [], []⟩

/-- A call, with what it registers. -/
def act (self : Recorded) : Call → Gpui.Result Recorded
  | .pushNode => return { self with tree := self.tree.pushNode }
  | .popNode => return { self with tree := ← self.tree.popNode }
  | .setActiveNode nodeId => return { self with tree := ← setActiveNode nodeId self.tree }
  | .setFocusId focusId => do
    let nodeId ← self.tree.activeNodeId
    return { self with
      tree := ← setFocusId focusId self.tree
      focused := self.focused ++ [(focusId, nodeId)] }
  | .setKeyContext context => return { self with tree := ← setKeyContext context self.tree }
  | .setViewId viewId => do
    let nodeId ← self.tree.activeNodeId
    return { self with
      tree := ← setViewId viewId self.tree
      -- a view on top of the stack is not registered
      viewed :=
        if self.tree.viewStack.getLast? = some viewId then self.viewed
        else self.viewed ++ [(viewId, nodeId)] }
  | .onKeyEvent listener => return { self with tree := ← onKeyEvent listener self.tree }
  | .onModifiersChanged listener =>
    return { self with tree := ← onModifiersChanged listener self.tree }
  | .onAction actionType listener =>
    return { self with tree := ← onAction actionType listener self.tree }
  | .reuseSubtree oldRange source focus => do
    let (tree, _, _) ← reuseSubtree oldRange source focus self.tree
    let start := self.tree.nodes.length
    return {
      tree := tree
      focused := self.focused ++ registrations DispatchNode.focusId start (tree.nodes.drop start)
      viewed := self.viewed ++ registrations DispatchNode.viewId start (tree.nodes.drop start) }

end Recorded

/-- The active node, which has nothing in a field. -/
def Lacks {α : Type} (field : DispatchNode → Option α) (tree : DispatchTree) : Prop :=
  ∃ nodeId ∈ tree.nodeStack.getLast?, tree.nodes[nodeId]?.bind field = none

/-- The calls that may be made. -/
def Permitted (tree : DispatchTree) : Call → Prop
  | .pushNode => True
  | .popNode => tree.nodeStack ≠ []
  | .setActiveNode nodeId => nodeId < tree.nodes.length
  | .setFocusId _ => Lacks DispatchNode.focusId tree
  | .setKeyContext _ => Lacks DispatchNode.context tree
  | .setViewId _ => Lacks DispatchNode.viewId tree
  | .onKeyEvent _ => tree.nodeStack ≠ []
  | .onModifiersChanged _ => tree.nodeStack ≠ []
  | .onAction _ _ => tree.nodeStack ≠ []
  | .reuseSubtree oldRange source _ => SubtreeList source oldRange

/-- What permitted calls lead to. -/
inductive Reachable : Recorded → Prop
  | start : Reachable .start
  | act {self next : Recorded} {call : Call} (h : Reachable self)
      (hpermitted : Permitted self.tree call) (hact : self.act call = .ok next) : Reachable next

/-- The invariant: the stacks mirror the path to the active node, and the maps lead to the last
registrations. -/
structure Holds (recorded : Recorded) : Prop where
  mirrors : Mirrors recorded.tree
  focusable : recorded.tree.focusableNodeIds = lastOf recorded.focused
  viewable : recorded.tree.viewNodeIds = lastOf recorded.viewed

variable {self next : Recorded} {call : Call} {nodeId : ℕ} {stack : List ℕ}

theorem exists_active {tree : DispatchTree} (h : Mirrors tree) (hne : tree.nodeStack ≠ []) :
    ∃ stack nodeId node, tree.nodeStack = stack ++ [nodeId] ∧
      tree.nodes[nodeId]? = some node := by
  obtain ⟨stack, nodeId, hstack⟩ := (List.eq_nil_or_concat' tree.nodeStack).resolve_left hne
  obtain ⟨node, hnode⟩ := getElem?_of_lt (h.existing nodeId (by simp [hstack]))
  exact ⟨stack, nodeId, node, hstack, hnode⟩

theorem Lacks.exists_active {α : Type} {field : DispatchNode → Option α} {tree : DispatchTree}
    (h : Mirrors tree) (hlacks : Lacks field tree) :
    ∃ stack nodeId node, tree.nodeStack = stack ++ [nodeId] ∧
      tree.nodes[nodeId]? = some node ∧ field node = none := by
  obtain ⟨nodeId, hlast, hnone⟩ := hlacks
  obtain ⟨stack, hstack⟩ := List.getLast?_eq_some_iff.mp hlast
  obtain ⟨node, hnode⟩ := getElem?_of_lt (h.existing nodeId (by simp [hstack]))
  rw [hnode] at hnone
  exact ⟨stack, nodeId, node, hstack, hnode, hnone⟩

theorem Holds.listen (h : Holds self) (hne : self.tree.nodeStack ≠ [])
    (change : DispatchNode → DispatchNode) (hparent : ∀ node, (change node).parent = node.parent)
    (hcontext : ∀ node, (change node).context = node.context)
    (hview : ∀ node, (change node).viewId = node.viewId) :
    ∃ tree, self.tree.modifyActive change = .ok tree ∧ Holds { self with tree := tree } := by
  obtain ⟨stack, nodeId, node, hstack, hnode⟩ := exists_active h.mirrors hne
  refine ⟨_, modifyActive_eq change hstack hnode, ?_, h.focusable, h.viewable⟩
  refine h.mirrors.modify hstack hnode (change node) (hparent node) ?_ ?_ rfl rfl
    (List.append_nil _).symm (List.append_nil _).symm
  · rw [hcontext, List.append_nil]
  · rw [hview, List.append_nil]

theorem Holds.setViewId (h : Holds self) {viewId : EntityId}
    (hlacks : Lacks DispatchNode.viewId self.tree)
    (htop : self.tree.viewStack.getLast? ≠ some viewId) :
    ∃ next, self.act (.setViewId viewId) = .ok next ∧ Holds next := by
  obtain ⟨stack, nodeId, node, hstack, hnode, hnone⟩ := hlacks.exists_active h.mirrors
  have hact : self.act (.setViewId viewId) = .ok { self with
      tree := { self.tree with
        nodes := self.tree.nodes.set nodeId { node with viewId := some viewId }
        viewNodeIds := Function.update self.tree.viewNodeIds viewId (some nodeId)
        viewStack := self.tree.viewStack ++ [viewId] }
      viewed := self.viewed ++ [(viewId, nodeId)] } := by
    rw [Recorded.act, activeNodeId_eq hstack, ok_bind, setViewId_eq viewId hstack hnode htop,
      ok_bind, if_neg htop]
    rfl
  refine ⟨_, hact, ?_, h.focusable, ?_⟩
  · refine h.mirrors.modify hstack hnode { node with viewId := some viewId } rfl
      (List.append_nil _).symm ?_ rfl rfl (List.append_nil _).symm rfl
    rw [hnone]
    rfl
  · dsimp only
    rw [lastOf_concat, h.viewable]

/-- **A permitted call** does not panic and keeps the invariant. -/
theorem act_spec (h : Holds self) (hpermitted : Permitted self.tree call) :
    ∃ next, self.act call = .ok next ∧ Holds next := by
  cases call with
  | pushNode => exact ⟨_, rfl, h.mirrors.push, h.focusable, h.viewable⟩
  | popNode =>
    obtain ⟨stack, nodeId, node, hstack, -⟩ := exists_active h.mirrors hpermitted
    refine ⟨{ self with tree := self.tree.onPath stack },
      bind_eq_ok.mpr ⟨_, popNode_spec h.mirrors hstack, rfl⟩, ?_, h.focusable, h.viewable⟩
    exact h.mirrors.front (hstack ▸ List.prefix_append _ _)
  | setActiveNode nodeId =>
    obtain ⟨stack, hrun, hmirrors⟩ := setActiveNode_spec h.mirrors hpermitted
    exact ⟨{ self with tree := self.tree.onPath (stack ++ [nodeId]) },
      bind_eq_ok.mpr ⟨_, hrun, rfl⟩, hmirrors, h.focusable, h.viewable⟩
  | setFocusId focusId =>
    obtain ⟨stack, nodeId, node, hstack, hnode, -⟩ := Lacks.exists_active h.mirrors hpermitted
    have hrun := setFocusId_eq focusId hstack hnode
    refine ⟨⟨_, self.focused ++ [(focusId, nodeId)], self.viewed⟩,
      bind_eq_ok.mpr ⟨_, activeNodeId_eq hstack, bind_eq_ok.mpr ⟨_, hrun, rfl⟩⟩, ?_, ?_,
      h.viewable⟩
    · exact h.mirrors.modify hstack hnode { node with focusId := some focusId } rfl
        (List.append_nil _).symm (List.append_nil _).symm rfl rfl (List.append_nil _).symm
        (List.append_nil _).symm
    · -- the node that was given the id last is the one that is focusable
      dsimp only
      rw [lastOf_concat, h.focusable]
  | setKeyContext context =>
    obtain ⟨stack, nodeId, node, hstack, hnode, hnone⟩ := Lacks.exists_active h.mirrors hpermitted
    have hrun := setKeyContext_eq context hstack hnode
    refine ⟨{ self with tree := _ }, bind_eq_ok.mpr ⟨_, hrun, rfl⟩, ?_, h.focusable, h.viewable⟩
    refine h.mirrors.modify hstack hnode { node with context := some context } rfl ?_
      (List.append_nil _).symm rfl rfl rfl (List.append_nil _).symm
    rw [hnone]
    rfl
  | setViewId viewId =>
    by_cases htop : self.tree.viewStack.getLast? = some viewId
    · -- the view is on top already, so nothing is set
      obtain ⟨stack, nodeId, node, hstack, -⟩ := Lacks.exists_active h.mirrors hpermitted
      refine ⟨self, bind_eq_ok.mpr ⟨_, activeNodeId_eq hstack,
        bind_eq_ok.mpr ⟨_, setViewId_top htop, ?_⟩⟩, h⟩
      rw [if_pos htop]
      rfl
    · exact h.setViewId hpermitted htop
  | onKeyEvent listener =>
    obtain ⟨tree, hrun, hholds⟩ := h.listen hpermitted
      (fun node => { node with keyListeners := node.keyListeners ++ [listener] })
      (fun _ => rfl) (fun _ => rfl) fun _ => rfl
    exact ⟨_, bind_eq_ok.mpr ⟨_, hrun, rfl⟩, hholds⟩
  | onModifiersChanged listener =>
    obtain ⟨tree, hrun, hholds⟩ := h.listen hpermitted
      (fun node =>
        { node with modifiersChangedListeners := node.modifiersChangedListeners ++ [listener] })
      (fun _ => rfl) (fun _ => rfl) fun _ => rfl
    exact ⟨_, bind_eq_ok.mpr ⟨_, hrun, rfl⟩, hholds⟩
  | onAction actionType listener =>
    obtain ⟨tree, hrun, hholds⟩ := h.listen hpermitted
      (fun node =>
        { node with actionListeners := node.actionListeners ++ [⟨actionType, listener⟩] })
      (fun _ => rfl) (fun _ => rfl) fun _ => rfl
    exact ⟨_, bind_eq_ok.mpr ⟨_, hrun, rfl⟩, hholds⟩
  | reuseSubtree oldRange source focus =>
    obtain ⟨tree, left, reused, hrun, -, hmirrors, hfocusable, hviewable⟩ :=
      reuseSubtree_spec focus h.mirrors h.focusable h.viewable hpermitted
    exact ⟨⟨tree, _, _⟩, bind_eq_ok.mpr ⟨_, hrun, rfl⟩, hmirrors, hfocusable, hviewable⟩

theorem Reachable.holds (h : Reachable self) : Holds self := by
  induction h with
  | start => exact ⟨mirrors_new, rfl, rfl⟩
  | @act self next call _ hpermitted hact ih =>
    obtain ⟨next', hnext, hholds⟩ := act_spec ih hpermitted
    obtain rfl := Except.ok.inj (hact.symm.trans hnext)
    exact hholds

/-- **The stacks mirror the active path, and subtrees are reused**, in every state of every run: the
stacks are those of the path of parents to the active node, the maps lead to the last
registrations, permitted calls do not panic, and what is reused is copied. -/
theorem dispatchTree_mirrors (self : Recorded) (h : Reachable self) :
    Holds self ∧
      (∀ call, Permitted self.tree call → ∃ next, self.act call = .ok next ∧ Reachable next) ∧
      ∀ range source focus, SubtreeList source range →
        ∃ tree left reused, reuseSubtree range source focus self.tree = .ok (tree, left, reused) ∧
          Reuses self.tree source range focus tree left reused := by
  refine ⟨h.holds, ?_, ?_⟩
  · intro call hpermitted
    obtain ⟨next, hnext, -⟩ := act_spec h.holds hpermitted
    exact ⟨next, hnext, h.act hpermitted hnext⟩
  · intro range source focus hsource
    obtain ⟨tree, left, reused, hrun, hreuses, -⟩ :=
      reuseSubtree_spec focus h.holds.mirrors h.holds.focusable h.holds.viewable hsource
    exact ⟨tree, left, reused, hrun, hreuses⟩

/-! ### A view, with a child -/

/-- A node with a view. -/
def sampleRoot : Recorded where
  tree := {
    nodeStack := [0]
    contextStack := []
    viewStack := [7]
    nodes := [⟨[], [], [], none, none, some 7, none⟩]
    focusableNodeIds := fun _ => none
    viewNodeIds := Function.update (fun _ => none) 7 (some 0) }
  focused := []
  viewed := [(7, 0)]

/-- A child of it. -/
def sample : Recorded := { sampleRoot with tree := sampleRoot.tree.pushNode }

theorem reachable_sampleRoot : Reachable sampleRoot := by
  have hpush : Permitted Recorded.start.tree .pushNode := trivial
  have hpushed : Reachable { Recorded.start with tree := Recorded.start.tree.pushNode } :=
    .act .start hpush rfl
  have hview : Permitted Recorded.start.tree.pushNode (.setViewId 7) := ⟨0, rfl, rfl⟩
  exact .act hpushed hview rfl

theorem subtreeList_sample : SubtreeList sample.tree (0, 2) where
  start_le := by decide
  end_le := by decide
  older := by
    intro child parent _ hlt hparent
    interval_cases child
    · cases hparent
    · obtain rfl : parent = 0 := (Option.some.inj hparent).symm
      decide
  preorder := by
    intro child parent _ hlt hparent between hafter hbefore
    interval_cases child
    · cases hparent
    · obtain rfl : parent = 0 := (Option.some.inj hparent).symm
      omega

/-- The two nodes are reused under a third one. -/
theorem dispatchTree_mirrors_sample : Holds sampleRoot ∧
    ∃ tree left reused,
      reuseSubtree (0, 2) sample.tree none sampleRoot.tree = .ok (tree, left, reused) ∧
        Reuses sampleRoot.tree sample.tree (0, 2) none tree left reused := by
  obtain ⟨hholds, -, hreuses⟩ := dispatchTree_mirrors sampleRoot reachable_sampleRoot
  exact ⟨hholds, hreuses (0, 2) sample.tree none subtreeList_sample⟩

/-- Where the view is already on top of the stack, the copy does without it. -/
theorem not_reuse_copies : Reachable sampleRoot ∧ Reachable sample ∧
    SubtreeList sample.tree (0, 2) ∧ ∃ tree left reused,
      reuseSubtree (0, 2) sample.tree none sampleRoot.tree = .ok (tree, left, reused) ∧
        sample.tree.viewOf 0 = some 7 ∧ tree.viewOf 1 = none := by
  have hpush : Permitted sampleRoot.tree .pushNode := trivial
  exact ⟨reachable_sampleRoot, .act reachable_sampleRoot hpush rfl, subtreeList_sample, _, _, _,
    rfl, rfl, rfl⟩

end Zui.KeyDispatch
