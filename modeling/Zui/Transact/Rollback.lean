/-
What a transaction rolls back.

The focus ids of the nodes of a dispatch tree and the map of focus ids are a registry, and so are
its view ids and their map.  A script of calls runs on both as the script of what it registers
(`focusScript`, `viewScript`), and a rollback of the window is one of the registries (`run_spec`).
So `transact` gives the window back exactly when those two are undone and no focus was set
(`transact_restores`).
-/
import Zui.Transact.Extends

namespace Zui

open Gpui

namespace Transact

open TextSystem

/-! ### Registrations -/

/-- The focus handle that a call registers. -/
def Call.focusHandle : Call → Option FocusId
  | .setFocusHandle focusId => some focusId
  | _ => none

/-- What a script registers in the map of focus ids. -/
def focusScript (script : Script Call) : Script FocusId := script.filterMap Call.focusHandle

/-- What a script registers in the map of view ids, with the view stack behind it.  A view that is
on top of the stack is not registered again. -/
def viewScript : Script Call → List EntityId → Script EntityId × List EntityId
  | .done, viewStack => (.done, viewStack)
  | .call (.setViewId viewId) rest, viewStack =>
    if viewStack.getLast? ≠ some viewId then
      let (rest, viewStack) := viewScript rest (viewStack ++ [viewId])
      (.call viewId rest, viewStack)
    else viewScript rest viewStack
  | .call _ rest, viewStack => viewScript rest viewStack
  | .node body rest, viewStack =>
    let (body, viewStack) := viewScript body viewStack
    let (rest, viewStack) :=
      viewScript rest (if body.own.isSome then viewStack.dropLast else viewStack)
    (.node body rest, viewStack)
  | .transact body failed rest, viewStack =>
    let (body, viewStack) := viewScript body viewStack
    let (rest, viewStack) := viewScript rest viewStack
    (.transact body failed rest, viewStack)

namespace DispatchTree

/-- The focus ids of the nodes, and their map. -/
def focusRegistry (self : DispatchTree) : Registry FocusId :=
  ⟨self.nodes.map DispatchNode.focusId, self.focusableNodeIds⟩

/-- The view ids of the nodes, and their map. -/
def viewRegistry (self : DispatchTree) : Registry EntityId :=
  ⟨self.nodes.map DispatchNode.viewId, self.viewNodeIds⟩

variable {self self' : DispatchTree} {active : ℕ}

/-- The node is the active one. -/
structure Active (tree : DispatchTree) (active : ℕ) : Prop where
  top : tree.activeNodeId = some active
  lt : active < tree.nodes.length

theorem Active.activeNode (h : self.Active active) : self.activeNode = .ok active := by
  rw [DispatchTree.activeNode, h.top]

theorem Active.lt_focusRegistry (h : self.Active active) :
    active < self.focusRegistry.nodes.length := h.lt.trans_eq (List.length_map _).symm

theorem Active.lt_viewRegistry (h : self.Active active) :
    active < self.viewRegistry.nodes.length := h.lt.trans_eq (List.length_map _).symm

theorem Active.index (h : self.Active active) :
    ∃ node, self.nodes[active]? = some node ∧ Gpui.index self.nodes active = .ok node := by
  have hget := List.getElem?_eq_getElem h.lt
  exact ⟨_, hget, index_ok hget⟩

theorem nodes_ext {nodes nodes' : List DispatchNode}
    (hparents : nodes.map DispatchNode.parent = nodes'.map DispatchNode.parent)
    (hfocus : nodes.map DispatchNode.focusId = nodes'.map DispatchNode.focusId)
    (hview : nodes.map DispatchNode.viewId = nodes'.map DispatchNode.viewId) : nodes = nodes' := by
  induction nodes generalizing nodes' with
  | nil => exact (List.map_eq_nil_iff.mp hparents.symm).symm
  | cons node nodes ih =>
    cases nodes' with
    | nil => exact absurd hparents (by simp)
    | cons node' nodes' =>
      obtain ⟨hparent, hparents⟩ := List.cons.inj hparents
      obtain ⟨hfocusId, hfocus⟩ := List.cons.inj hfocus
      obtain ⟨hviewId, hview⟩ := List.cons.inj hview
      rw [DispatchNode.ext hfocusId hviewId hparent, ih hparents hfocus hview]

theorem setFocusId_spec (h : self.Active active) {focusId : FocusId}
    (hrun : self.setFocusId focusId = .ok self') :
    self'.nodeStack = self.nodeStack ∧ self'.viewStack = self.viewStack ∧
      self'.nodes.map DispatchNode.parent = self.nodes.map DispatchNode.parent ∧
      self'.focusRegistry = self.focusRegistry.register focusId active ∧
      self'.viewRegistry = self.viewRegistry := by
  obtain ⟨node, hget, hindex⟩ := h.index
  rw [setFocusId, h.activeNode, ok_bind, hindex, ok_bind] at hrun
  obtain rfl := Except.ok.inj hrun
  refine ⟨rfl, rfl, map_set_of_eq hget rfl, ?_, ?_⟩
  · exact Registry.ext List.map_set rfl
  · exact Registry.ext (map_set_of_eq hget rfl) rfl

theorem setViewId_spec (h : self.Active active) {viewId : EntityId}
    (htop : self.viewStack.getLast? ≠ some viewId) (hrun : self.setViewId viewId = .ok self') :
    self'.nodeStack = self.nodeStack ∧ self'.viewStack = self.viewStack ++ [viewId] ∧
      self'.nodes.map DispatchNode.parent = self.nodes.map DispatchNode.parent ∧
      self'.focusRegistry = self.focusRegistry ∧
      self'.viewRegistry = self.viewRegistry.register viewId active := by
  obtain ⟨node, hget, hindex⟩ := h.index
  rw [setViewId, if_pos htop, h.activeNode, ok_bind, hindex, ok_bind] at hrun
  obtain rfl := Except.ok.inj hrun
  refine ⟨rfl, rfl, map_set_of_eq hget rfl, ?_, ?_⟩
  · exact Registry.ext (map_set_of_eq hget rfl) rfl
  · exact Registry.ext List.map_set rfl

theorem pushNode_spec (self : DispatchTree) :
    self.pushNode.Active self.nodes.length ∧
      self.pushNode.focusRegistry = self.focusRegistry.push ∧
      self.pushNode.viewRegistry = self.viewRegistry.push := by
  refine ⟨⟨List.getLast?_concat, by simp [pushNode]⟩, ?_, ?_⟩
  · exact Registry.ext List.map_append rfl
  · exact Registry.ext List.map_append rfl

/-- A node that is popped takes a view from the stack if it has one. -/
theorem popNode_spec (h : self.Active active) (hrun : self.popNode = .ok self') :
    self'.nodeStack = self.nodeStack.dropLast ∧ self'.nodes = self.nodes ∧
      self'.focusRegistry = self.focusRegistry ∧ self'.viewRegistry = self.viewRegistry ∧
      ∃ id, self.viewRegistry.nodes[active]? = some id ∧
        self'.viewStack = if id.isSome then self.viewStack.dropLast else self.viewStack := by
  obtain ⟨node, hget, hindex⟩ := h.index
  rw [popNode, h.activeNode, ok_bind, hindex, ok_bind] at hrun
  obtain rfl := Except.ok.inj hrun
  refine ⟨rfl, rfl, rfl, rfl, node.viewId, ?_, rfl⟩
  rw [viewRegistry, List.getElem?_map, hget, Option.map_some]

theorem truncate_spec {length : ℕ} (hrun : self.truncate length = .ok self') :
    self'.nodeStack = self.nodeStack ∧ self'.viewStack = self.viewStack ∧
      self'.nodes = self.nodes.take length ∧
      self'.focusRegistry = self.focusRegistry.truncate length ∧
      self'.viewRegistry = self.viewRegistry.truncate length := by
  have hfocus : self.focusRegistry.nodes.drop length
      = (self.nodes.drop length).map DispatchNode.focusId := List.map_drop.symm
  have hview : self.viewRegistry.nodes.drop length
      = (self.nodes.drop length).map DispatchNode.viewId := List.map_drop.symm
  rw [truncate] at hrun
  split at hrun
  · obtain rfl := Except.ok.inj hrun
    refine ⟨rfl, rfl, rfl, Registry.ext List.map_take ?_, Registry.ext List.map_take ?_⟩
    · funext focusId
      rw [Registry.index_truncate, hfocus]
      rfl
    · funext viewId
      rw [Registry.index_truncate, hview]
      rfl
  · exact absurd hrun (by simp)

end DispatchTree

/-! ### Windows -/

/-- The focus of the next frame when some handles are registered. -/
def nextFocus (focus : Option FocusId) (ids : List FocusId) (next : Option FocusId) :
    Option FocusId :=
  if focus ∈ ids.map some then focus else next

theorem nextFocus_append (focus : Option FocusId) (ids ids' : List FocusId)
    (next : Option FocusId) :
    nextFocus focus (ids ++ ids') next = nextFocus focus ids' (nextFocus focus ids next) := by
  rw [nextFocus, nextFocus, nextFocus, List.map_append]
  by_cases h : focus ∈ ids.map some
  · by_cases h' : focus ∈ ids'.map some <;> simp [h, h']
  · by_cases h' : focus ∈ ids'.map some <;> simp [h, h']

/-- What the calls of a script leave. -/
structure Ran (script : Script Call) (active : ℕ) (before after : Window) : Prop where
  more : Extends before after
  nodeStack : after.nextFrame.dispatchTree.nodeStack = before.nextFrame.dispatchTree.nodeStack
  viewStack : after.nextFrame.dispatchTree.viewStack
    = (viewScript script before.nextFrame.dispatchTree.viewStack).2
  focusRegistry : after.nextFrame.dispatchTree.focusRegistry
    = (focusScript script).run active before.nextFrame.dispatchTree.focusRegistry
  viewRegistry : after.nextFrame.dispatchTree.viewRegistry
    = (viewScript script before.nextFrame.dispatchTree.viewStack).1.run active
      before.nextFrame.dispatchTree.viewRegistry
  focus : after.nextFrame.focus
    = nextFocus before.focus (focusScript script).calls before.nextFrame.focus

section Running

variable {platform : PlatformTextSystem} {before mid after : Window} {active : ℕ} {call : Call}
  {rest : Script Call}

theorem Ran.stays_active {script : Script Call} (h : Ran script active before after)
    (hactive : before.nextFrame.dispatchTree.Active active) :
    after.nextFrame.dispatchTree.Active active := by
  have hlength := h.more.parents.length_le
  rw [List.length_map, List.length_map] at hlength
  refine ⟨?_, hactive.lt.trans_le hlength⟩
  rw [DispatchTree.activeNodeId, h.nodeStack]
  exact hactive.top

theorem ran_of_extends (hmore : Extends before mid)
    (htree : mid.nextFrame.dispatchTree = before.nextFrame.dispatchTree)
    (hfocus : mid.nextFrame.focus = before.nextFrame.focus) (hhandle : call.focusHandle = none)
    (hview : ∀ viewId, call ≠ .setViewId viewId) : Ran (.call call .done) active before mid := by
  have hfocusScript : focusScript (.call call .done) = .done := by
    rw [focusScript, Script.filterMap, hhandle]
    rfl
  have hviewScript : ∀ viewStack, viewScript (.call call .done) viewStack = (.done, viewStack) := by
    intro viewStack
    cases call with
    | setViewId viewId => exact absurd rfl (hview viewId)
    | _ => rfl
  refine ⟨hmore, by rw [htree], by rw [hviewScript, htree], by rw [hfocusScript, htree]; rfl,
    by rw [hviewScript, htree]; rfl, ?_⟩
  rw [hfocusScript, hfocus]
  rfl

/-- **One call.** -/
theorem call_spec (hactive : before.nextFrame.dispatchTree.Active active)
    (hrun : before.call platform call = .ok mid) : Ran (.call call .done) active before mid := by
  cases call with
  | insertHitbox bounds behavior =>
    obtain rfl := Except.ok.inj hrun
    refine ran_of_extends ?_ rfl rfl rfl (by simp)
    exact { Extends.refl before with hitboxes := List.prefix_append _ _ }
  | setTooltip tooltip =>
    obtain rfl := Except.ok.inj hrun
    refine ran_of_extends ?_ rfl rfl rfl (by simp)
    exact { Extends.refl before with tooltipRequests := List.prefix_append _ _ }
  | deferDraw element absoluteOffset priority contentMask =>
    obtain ⟨parentNode, -, hrun⟩ := bind_eq_ok.mp hrun
    obtain ⟨currentView, -, hrun⟩ := bind_eq_ok.mp hrun
    obtain rfl := Except.ok.inj hrun
    refine ran_of_extends ?_ rfl rfl rfl (by simp)
    exact { Extends.refl before with deferredDraws := List.prefix_append _ _ }
  | withElementState key =>
    obtain rfl := Except.ok.inj hrun
    refine ran_of_extends ?_ rfl rfl rfl (by simp)
    exact { Extends.refl before with accessedElementStates := List.prefix_append _ _ }
  | layoutLine text fontSize runs forceWidth =>
    obtain rfl := Except.ok.inj hrun
    exact ran_of_extends (Extends.cache (layoutLine_usedMore text fontSize runs forceWidth)) rfl rfl
      rfl (by simp)
  | layoutWrappedLine text fontSize runs wrapWidth maxLines =>
    obtain ⟨⟨textSystem, layout⟩, hlayout, hrun⟩ := bind_eq_ok.mp hrun
    obtain rfl := Except.ok.inj hrun
    exact ran_of_extends (Extends.cache (layoutWrappedLine_usedMore hlayout)) rfl rfl rfl (by simp)
  | layoutLineByHash textHash textLen fontSize runs forceWidth text =>
    obtain rfl := Except.ok.inj hrun
    exact ran_of_extends
      (Extends.cache (layoutLineByHash_usedMore textHash textLen fontSize runs forceWidth text))
      rfl rfl rfl (by simp)
  | setFocusHandle focusId =>
    obtain ⟨tree, htree, hmid⟩ := bind_eq_ok.mp hrun
    -- the focus of the next frame is no part of the tree
    have hsame : (if before.focus = some focusId then
        { before with nextFrame := { before.nextFrame with focus := some focusId } }
        else before).nextFrame.dispatchTree = before.nextFrame.dispatchTree := by
      split <;> rfl
    rw [hsame] at htree
    obtain ⟨hnodeStack, hviewStack, hparents, hfocus, hview⟩ :=
      DispatchTree.setFocusId_spec hactive htree
    obtain rfl := Except.ok.inj hmid
    by_cases hfocused : before.focus = some focusId
    · rw [if_pos hfocused]
      refine ⟨?_, hnodeStack, hviewStack, hfocus, hview, ?_⟩
      · exact { Extends.refl before with parents := by rw [← hparents]; exact List.prefix_rfl }
      · simp [nextFocus, focusScript, Script.filterMap, Call.focusHandle, Script.calls, hfocused,
          Window.setDispatchTree]
    · rw [if_neg hfocused]
      refine ⟨Extends.tree (by rw [hparents]), hnodeStack, hviewStack, hfocus, hview, ?_⟩
      simp [nextFocus, focusScript, Script.filterMap, Call.focusHandle, Script.calls, hfocused,
        Window.setDispatchTree]
  | setViewId viewId =>
    obtain ⟨tree, htree, hmid⟩ := bind_eq_ok.mp hrun
    obtain rfl := Except.ok.inj hmid
    by_cases htop : before.nextFrame.dispatchTree.viewStack.getLast? = some viewId
    · -- The view is not registered again.
      rw [DispatchTree.setViewId, if_neg (not_not.mpr htop)] at htree
      obtain rfl := Except.ok.inj htree
      have hscript : viewScript (.call (.setViewId viewId) .done)
          before.nextFrame.dispatchTree.viewStack
            = (.done, before.nextFrame.dispatchTree.viewStack) := if_neg (not_not.mpr htop)
      exact ⟨Extends.refl before, rfl, by rw [hscript]; rfl, rfl, by rw [hscript]; rfl, rfl⟩
    · obtain ⟨hnodeStack, hviewStack, hparents, hfocus, hview⟩ :=
        DispatchTree.setViewId_spec hactive htop htree
      have hscript : viewScript (.call (.setViewId viewId) .done)
          before.nextFrame.dispatchTree.viewStack
            = (.call viewId .done, before.nextFrame.dispatchTree.viewStack ++ [viewId]) :=
        if_pos htop
      refine ⟨Extends.tree (by rw [hparents]), hnodeStack, ?_, hfocus, ?_, rfl⟩
      · rw [hscript]
        exact hviewStack
      · rw [hscript]
        exact hview

theorem Ran.cons (hcall : Ran (.call call .done) active before mid)
    (hrest : Ran rest active mid after) : Ran (.call call rest) active before after := by
  have hfocus : ∀ self, (focusScript (.call call rest)).run active self
      = (focusScript rest).run active ((focusScript (.call call .done)).run active self) := by
    intro self
    rw [focusScript, focusScript, focusScript, Script.filterMap, Script.filterMap]
    cases call.focusHandle <;> rfl
  have hcalls : (focusScript (.call call rest)).calls
      = (focusScript (.call call .done)).calls ++ (focusScript rest).calls := by
    rw [focusScript, focusScript, focusScript, Script.filterMap, Script.filterMap]
    cases call.focusHandle <;> rfl
  have hview : ∀ viewStack, (viewScript (.call call rest) viewStack).2
        = (viewScript rest (viewScript (.call call .done) viewStack).2).2 ∧
      ∀ self, (viewScript (.call call rest) viewStack).1.run active self
        = (viewScript rest (viewScript (.call call .done) viewStack).2).1.run active
          ((viewScript (.call call .done) viewStack).1.run active self) := by
    intro viewStack
    cases call with
    | setViewId viewId =>
      by_cases htop : viewStack.getLast? = some viewId
      · simp [viewScript, htop, Script.run]
      · simp [viewScript, htop, Script.run]
    | _ => exact ⟨rfl, fun _ => rfl⟩
  obtain ⟨hstack, hrun⟩ := hview before.nextFrame.dispatchTree.viewStack
  refine ⟨hcall.more.trans hrest.more, hrest.nodeStack.trans hcall.nodeStack, ?_, ?_, ?_, ?_⟩
  · rw [hstack, hrest.viewStack, hcall.viewStack]
  · rw [hfocus, hrest.focusRegistry, hcall.focusRegistry]
  · rw [hrun, hrest.viewRegistry, hcall.viewRegistry, hcall.viewStack]
  · rw [hcalls, nextFocus_append, hrest.focus, hcall.focus, hcall.more.focus]

/-! ### Nodes and transactions -/

/-- A node in front of a script. -/
theorem Ran.node {body : Script Call} {inside popped : Window}
    (hactive : before.nextFrame.dispatchTree.Active active)
    (hbody : Ran body before.nextFrame.dispatchTree.nodes.length
      (before.setDispatchTree before.nextFrame.dispatchTree.pushNode) inside)
    {tree : DispatchTree} (hpop : inside.nextFrame.dispatchTree.popNode = .ok tree)
    (hpopped : popped = inside.setDispatchTree tree)
    (hrest : popped.nextFrame.dispatchTree.Active active → Ran rest active popped after) :
    Ran (.node body rest) active before after := by
  subst hpopped
  obtain ⟨hpushed, hpushFocus, hpushView⟩ :=
    DispatchTree.pushNode_spec before.nextFrame.dispatchTree
  have hinside := hbody.stays_active hpushed
  obtain ⟨hnodeStack, hnodes, hfocus, hview, id, hid, hviewStack⟩ :=
    DispatchTree.popNode_spec hinside hpop
  -- The view of the node is the last one that the body registers at it.
  have hown : id = (viewScript body before.nextFrame.dispatchTree.viewStack).1.own := by
    have hlt : before.nextFrame.dispatchTree.nodes.length
        < before.nextFrame.dispatchTree.viewRegistry.push.nodes.length := by
      simp [Registry.push, DispatchTree.viewRegistry]
    have hpushed' : (before.setDispatchTree
      before.nextFrame.dispatchTree.pushNode).nextFrame.dispatchTree.viewRegistry
        = before.nextFrame.dispatchTree.viewRegistry.push := hpushView
    rw [hbody.viewRegistry, hpushed', Script.run_nodes _ hlt] at hid
    have hlength : before.nextFrame.dispatchTree.viewRegistry.nodes.length
        = before.nextFrame.dispatchTree.nodes.length := List.length_map _
    rw [List.getElem?_append_left (by rwa [Script.length_setAt]), Registry.push, ← hlength] at hid
    have hviewStack' : (before.setDispatchTree
      before.nextFrame.dispatchTree.pushNode).nextFrame.dispatchTree.viewStack
        = before.nextFrame.dispatchTree.viewStack := rfl
    rw [hviewStack'] at hid
    cases hown : (viewScript body before.nextFrame.dispatchTree.viewStack).1.own with
    | none =>
      rw [hown] at hid
      simpa [Script.setAt] using hid.symm
    | some viewId =>
      rw [hown] at hid
      simpa [Script.setAt] using hid.symm
  have hmore : Extends before inside := by
    refine Extends.trans (Extends.tree ?_) hbody.more
    rw [DispatchTree.pushNode, List.map_append]
    exact List.prefix_append _ _
  have hstack : tree.nodeStack = before.nextFrame.dispatchTree.nodeStack := by
    rw [hnodeStack, hbody.nodeStack]
    exact List.dropLast_concat
  have hstays : (inside.setDispatchTree tree).nextFrame.dispatchTree.Active active := by
    refine ⟨?_, ?_⟩
    · show tree.nodeStack.getLast? = some active
      rw [hstack]
      exact hactive.top
    · show active < tree.nodes.length
      have hlength := hmore.parents.length_le
      rw [List.length_map, List.length_map] at hlength
      rw [hnodes]
      exact hactive.lt.trans_le hlength
  have hrest := hrest hstays
  have hmore' : Extends inside (inside.setDispatchTree tree) :=
    Extends.tree (by rw [hnodes])
  refine ⟨(hmore.trans hmore').trans hrest.more, hrest.nodeStack.trans hstack, ?_, ?_, ?_, ?_⟩
  · rw [hrest.viewStack]
    show (viewScript rest tree.viewStack).2 = _
    rw [hviewStack, hown, hbody.viewStack]
    rfl
  · rw [hrest.focusRegistry]
    show (focusScript rest).run active tree.focusRegistry = _
    rw [hfocus, hbody.focusRegistry]
    show (focusScript rest).run active ((focusScript body).run _
      before.nextFrame.dispatchTree.pushNode.focusRegistry) = _
    rw [hpushFocus, ← List.length_map DispatchNode.focusId]
    rfl
  · rw [hrest.viewRegistry]
    show (viewScript rest tree.viewStack).1.run active tree.viewRegistry = _
    rw [hview, hbody.viewRegistry, hviewStack, hown, hbody.viewStack]
    show (viewScript rest _).1.run active ((viewScript body _).1.run _
      before.nextFrame.dispatchTree.pushNode.viewRegistry) = _
    rw [hpushView, ← List.length_map DispatchNode.viewId]
    rfl
  · rw [hrest.focus]
    show nextFocus inside.focus (focusScript rest).calls inside.nextFrame.focus = _
    rw [hbody.focus, hbody.more.focus]
    exact (nextFocus_append before.focus (focusScript body).calls (focusScript rest).calls
      before.nextFrame.focus).symm

theorem transact_cases {failed : Bool} {f : Window → Gpui.Result Window}
    {result : Except Unit Unit}
    (hrun : before.transact (Window.runClosure failed f) = .ok (mid, result)) :
    ∃ inside, f before = .ok inside ∧
      (failed = true ∧ inside.truncate before.prepaintIndex = .ok mid ∨
        failed = false ∧ inside = mid) := by
  obtain ⟨⟨inside, result'⟩, hclosure, hend⟩ := bind_eq_ok.mp hrun
  obtain ⟨inside', hf, hinside⟩ := bind_eq_ok.mp hclosure
  obtain ⟨rfl, rfl⟩ := Prod.mk.inj (Except.ok.inj hinside)
  refine ⟨inside', hf, ?_⟩
  cases failed with
  | true =>
    obtain ⟨mid', htruncate, hmid⟩ := bind_eq_ok.mp hend
    obtain rfl := (Prod.mk.inj (Except.ok.inj hmid)).1
    exact Or.inl ⟨rfl, htruncate⟩
  | false => exact Or.inr ⟨rfl, (Prod.mk.inj (Except.ok.inj hend)).1⟩

/-- A transaction in front of a script. -/
theorem Ran.transact {body : Script Call} {failed : Bool} {inside : Window}
    (hactive : before.nextFrame.dispatchTree.Active active)
    (hbody : Ran body active before inside)
    (hend : failed = true ∧ inside.truncate before.prepaintIndex = .ok mid ∨
      failed = false ∧ inside = mid)
    (hrest : mid.nextFrame.dispatchTree.Active active → Ran rest active mid after) :
    Ran (.transact body failed rest) active before after := by
  have hcalls : (focusScript (.transact body failed rest)).calls
      = (focusScript body).calls ++ (focusScript rest).calls := rfl
  rcases hend with ⟨rfl, htruncate⟩ | ⟨rfl, rfl⟩
  · obtain ⟨-, hmore, hfocus, hparents, htree⟩ := truncate_spec hbody.more htruncate
    obtain ⟨hnodeStack, hviewStack, hnodes, hfocusRegistry, hviewRegistry⟩ :=
      DispatchTree.truncate_spec htree
    have hstays : mid.nextFrame.dispatchTree.Active active := by
      have hlength := congrArg List.length hparents
      rw [List.length_map, List.length_map] at hlength
      refine ⟨?_, by rw [hlength]; exact hactive.lt⟩
      rw [DispatchTree.activeNodeId, hnodeStack, hbody.nodeStack]
      exact hactive.top
    have hrest := hrest hstays
    refine ⟨hmore.trans hrest.more,
      hrest.nodeStack.trans (hnodeStack.trans hbody.nodeStack), ?_, ?_, ?_, ?_⟩
    · rw [hrest.viewStack, hviewStack, hbody.viewStack]
      rfl
    · rw [hrest.focusRegistry, hfocusRegistry, hbody.focusRegistry,
        ← List.length_map DispatchNode.focusId]
      rfl
    · rw [hrest.viewRegistry, hviewRegistry, hbody.viewRegistry, hviewStack, hbody.viewStack,
        ← List.length_map DispatchNode.viewId]
      rfl
    · rw [hrest.focus, hfocus, hbody.focus, hmore.focus, hcalls, nextFocus_append]
  · have hrest := hrest (hbody.stays_active hactive)
    refine ⟨hbody.more.trans hrest.more, hrest.nodeStack.trans hbody.nodeStack, ?_, ?_, ?_, ?_⟩
    · rw [hrest.viewStack, hbody.viewStack]
      rfl
    · rw [hrest.focusRegistry, hbody.focusRegistry]
      rfl
    · rw [hrest.viewRegistry, hbody.viewRegistry, hbody.viewStack]
      rfl
    · rw [hrest.focus, hbody.focus, hbody.more.focus, hcalls, nextFocus_append]

/-- **Running a script.** -/
theorem run_spec (script : Script Call) : ∀ {active : ℕ} {before after : Window},
    before.nextFrame.dispatchTree.Active active →
      Window.run platform script before = .ok after → Ran script active before after := by
  induction script with
  | done =>
    intro active before after _ hrun
    obtain rfl := Except.ok.inj hrun
    exact ⟨Extends.refl before, rfl, rfl, rfl, rfl, rfl⟩
  | call call rest ih =>
    intro active before after hactive hrun
    obtain ⟨mid, hcall, hrest⟩ := bind_eq_ok.mp hrun
    have hran := call_spec hactive hcall
    exact hran.cons (ih (hran.stays_active hactive) hrest)
  | node body rest ihbody ihrest =>
    intro active before after hactive hrun
    obtain ⟨inside, hinside, hpop⟩ := bind_eq_ok.mp hrun
    obtain ⟨tree, htree, hrest⟩ := bind_eq_ok.mp hpop
    have hpushed := (DispatchTree.pushNode_spec before.nextFrame.dispatchTree).1
    exact Ran.node hactive (ihbody hpushed hinside) htree rfl fun hstays => ihrest hstays hrest
  | transact body failed rest ihbody ihrest =>
    intro active before after hactive hrun
    obtain ⟨⟨mid, result⟩, htransact, hrest⟩ := bind_eq_ok.mp hrun
    obtain ⟨inside, hinside, hend⟩ := transact_cases htransact
    exact Ran.transact hactive (ihbody hactive hinside) hend fun hstays => ihrest hstays hrest

end Running

/-! ### Transactions -/

/-- The next frame is the one from before. -/
structure Restored (before after : Window) : Prop extends ListsRestored before after where
  nodes : after.nextFrame.dispatchTree.nodes = before.nextFrame.dispatchTree.nodes
  focusableNodeIds : after.nextFrame.dispatchTree.focusableNodeIds
    = before.nextFrame.dispatchTree.focusableNodeIds
  viewNodeIds : after.nextFrame.dispatchTree.viewNodeIds
    = before.nextFrame.dispatchTree.viewNodeIds
  focus : after.nextFrame.focus = before.nextFrame.focus

/-- **Transactions.**  A transaction whose closure fails gives the next frame back exactly when

* it registers no handle of the focused id, or that is the focus of the next frame already;
* what it registers in the map of focus ids is undone, and so is what it registers in the map of
  view ids. -/
theorem transact_restores {platform : PlatformTextSystem} {before after : Window} {active : ℕ}
    (hactive : before.nextFrame.dispatchTree.Active active) {script : Script Call}
    {result : Except Unit Unit}
    (hrun : before.transact (Window.runClosure true (Window.run platform script))
      = .ok (after, result)) :
    Restored before after ↔
      (∀ focusId ∈ (focusScript script).calls, before.focus = some focusId →
        before.nextFrame.focus = some focusId) ∧
      (focusScript script).Undone active before.nextFrame.dispatchTree.focusRegistry ∧
      (viewScript script before.nextFrame.dispatchTree.viewStack).1.Undone active
        before.nextFrame.dispatchTree.viewRegistry := by
  obtain ⟨inside, hinside, ⟨-, htruncate⟩ | ⟨hfalse, -⟩⟩ := transact_cases hrun
  swap
  · exact absurd hfalse (by simp)
  have hran := run_spec script hactive hinside
  obtain ⟨hlists, -, hfocus, hparents, htree⟩ := truncate_spec hran.more htruncate
  obtain ⟨-, -, -, hfocusRegistry, hviewRegistry⟩ := DispatchTree.truncate_spec htree
  -- a rollback gives a registry back if the script has undone what it registered
  have hfocusIff : after.nextFrame.dispatchTree.focusRegistry
      = before.nextFrame.dispatchTree.focusRegistry ↔
        (focusScript script).Undone active before.nextFrame.dispatchTree.focusRegistry := by
    rw [hfocusRegistry, hran.focusRegistry, ← List.length_map DispatchNode.focusId]
    exact Script.rollback_eq_iff hactive.lt_focusRegistry
  have hviewIff : after.nextFrame.dispatchTree.viewRegistry
      = before.nextFrame.dispatchTree.viewRegistry ↔
        (viewScript script before.nextFrame.dispatchTree.viewStack).1.Undone active
          before.nextFrame.dispatchTree.viewRegistry := by
    rw [hviewRegistry, hran.viewRegistry, ← List.length_map DispatchNode.viewId]
    exact Script.rollback_eq_iff hactive.lt_viewRegistry
  -- the focus is not rolled back, so it must have been there before
  have hnextFocus : after.nextFrame.focus = before.nextFrame.focus ↔
      ∀ focusId ∈ (focusScript script).calls, before.focus = some focusId →
        before.nextFrame.focus = some focusId := by
    rw [hfocus, hran.focus, nextFocus]
    constructor
    · intro hsame focusId hmem hfocused
      have hin : before.focus ∈ (focusScript script).calls.map some :=
        hfocused ▸ List.mem_map_of_mem hmem
      rw [if_pos hin] at hsame
      rw [← hsame, hfocused]
    · intro hall
      split
      · rename_i hin
        obtain ⟨focusId, hmem, hfocused⟩ := List.mem_map.mp hin
        rw [hall focusId hmem hfocused.symm, hfocused]
      · rfl
  rw [← hfocusIff, ← hviewIff, ← hnextFocus]
  constructor
  · intro hrestored
    refine ⟨hrestored.focus, Registry.ext ?_ hrestored.focusableNodeIds,
      Registry.ext ?_ hrestored.viewNodeIds⟩
    · exact congrArg (List.map DispatchNode.focusId) hrestored.nodes
    · exact congrArg (List.map DispatchNode.viewId) hrestored.nodes
  · rintro ⟨hsame, hfocusSame, hviewSame⟩
    refine ⟨hlists, ?_, congrArg Registry.index hfocusSame, congrArg Registry.index hviewSame,
      hsame⟩
    exact DispatchTree.nodes_ext hparents (congrArg Registry.nodes hfocusSame)
      (congrArg Registry.nodes hviewSame)

/-- A window with a root node, at which the focus id 1 is registered.  The focused id is 2. -/
def rootWindow : Window where
  focus := some 2
  nextFrame :=
    { focus := none
      accessedElementStates := []
      dispatchTree := ⟨[0], [], [⟨some 1, none, none⟩], fun id => if id = 1 then some 0 else none,
        fun _ => none⟩
      hitboxes := []
      deferredDraws := []
      tooltipRequests := [] }
  textSystem := .new
  contentMask := ⟨⟨⟨0, 0⟩, ⟨0, 0⟩⟩⟩
  renderedEntityStack := []
  nextHitboxId := 0
  nextTooltipId := 0

/-- No platform, for closures that lay out no text. -/
def noPlatform : PlatformTextSystem := fun _ _ _ => ⟨0, 0, 0, 0, [], 0⟩

/-- The theorem at a node with a new focus id and a hitbox. -/
theorem transact_restores_node : ∃ after, rootWindow.transact (Window.runClosure true
      (Window.run noPlatform (.node (.call (.setFocusHandle 3)
        (.call (.insertHitbox ⟨⟨0, 0⟩, ⟨1, 1⟩⟩ .normal) .done)) .done))) = .ok (after, .error ()) ∧
    Restored rootWindow after := by
  obtain ⟨after, hrun⟩ : ∃ after, rootWindow.transact (Window.runClosure true
      (Window.run noPlatform (.node (.call (.setFocusHandle 3)
        (.call (.insertHitbox ⟨⟨0, 0⟩, ⟨1, 1⟩⟩ .normal) .done)) .done))) = .ok (after, .error ()) :=
    ⟨_, rfl⟩
  have hactive : rootWindow.nextFrame.dispatchTree.Active 0 := ⟨rfl, by decide⟩
  refine ⟨after, hrun, (transact_restores hactive hrun).mpr ⟨?_, ⟨?_, ?_⟩, ⟨?_, ?_⟩⟩⟩
  · decide
  · intro i hi
    exact absurd hi (by simp [focusScript, Script.filterMap, Call.focusHandle, Script.own])
  · intro i place hplace
    by_cases hi : i = 3
    · subst hi
      exact (Option.some_inj.mp hplace)
    · have hne : ¬ 3 = i := Ne.symm hi
      simp [focusScript, Script.filterMap, Call.focusHandle, Script.fate, Script.inner, Script.own,
        hi, hne] at hplace
  · intro i hi
    exact absurd hi (by simp [viewScript, Script.own])
  · intro i place hplace
    simp [viewScript, Script.fate, Script.inner, Script.own] at hplace

/-- A closure that registers the id 1 at a node of its own takes it out of the map of focus ids.
One that registers the focused id leaves it as the focus of the next frame.  One that registers a
view at the root node leaves it in the map of view ids, and in the node. -/
theorem transact_leaves_registrations :
    (∃ after, rootWindow.transact (Window.runClosure true (Window.run noPlatform
        (.node (.call (.setFocusHandle 1) .done) .done))) = .ok (after, .error ()) ∧
      rootWindow.nextFrame.dispatchTree.focusableNodeIds 1 = some 0 ∧
      after.nextFrame.dispatchTree.focusableNodeIds 1 = none ∧ ¬ Restored rootWindow after) ∧
    (∃ after, rootWindow.transact (Window.runClosure true (Window.run noPlatform
        (.node (.call (.setFocusHandle 2) .done) .done))) = .ok (after, .error ()) ∧
      rootWindow.nextFrame.focus = none ∧ after.nextFrame.focus = some 2 ∧
      ¬ Restored rootWindow after) ∧
    ∃ after, rootWindow.transact (Window.runClosure true (Window.run noPlatform
        (.call (.setViewId 7) .done))) = .ok (after, .error ()) ∧
      rootWindow.nextFrame.dispatchTree.viewNodeIds 7 = none ∧
      after.nextFrame.dispatchTree.viewNodeIds 7 = some 0 ∧ ¬ Restored rootWindow after := by
  refine ⟨⟨_, rfl, rfl, rfl, fun h => ?_⟩, ⟨_, rfl, rfl, rfl, fun h => ?_⟩, _, rfl, rfl, rfl,
    fun h => ?_⟩
  · exact absurd (congrFun h.focusableNodeIds 1) (by decide)
  · exact absurd h.focus (by decide)
  · exact absurd (congrFun h.viewNodeIds 7) (by decide)

end Transact

end Zui
