/-
Bounds trees in two arithmetics.

The tree adds and subtracts coordinates only to take the corners, the union and the half perimeter
of bounds.  So where two arithmetics agree on these, for the bounds of the tree and for the new
ones, an insertion does the same with both.

Design notes:

* one arithmetic is that of the instances, and the other one is passed explicitly.

* `SameArithmetic` — two arithmetics that agree on bounds that fit;
* `BoundsTree.insert_agrees` — an insertion.
-/
import Zui.Gpui.BoundsTree
import Zui.Library.Agreeing

namespace Zui.Gpui

variable {U : Type} (add : Add U) (sub : Sub U) (zero : Zero U) [Add U] [Sub U] [Zero U]
  [LinearOrder U] (Fits : Bounds U → Prop)

/-- Another arithmetic agrees on the bounds that fit, and their unions and intersections fit. -/
structure SameArithmetic : Prop where
  bottomRight : ∀ {b}, Fits b → @Bounds.bottomRight U add b = b.bottomRight
  halfPerimeter : ∀ {b}, Fits b → @Bounds.halfPerimeter U add b = b.halfPerimeter
  isEmpty : ∀ b, @Bounds.isEmpty U zero _ b = b.isEmpty
  union : ∀ {a b}, Fits a → Fits b → @Bounds.union U add sub _ a b = a.union b
  intersect : ∀ {a b}, Fits a → Fits b → @Bounds.intersect U add sub _ a b = a.intersect b
  fits_union : ∀ {a b}, Fits a → Fits b → Fits (a.union b)
  fits_intersect : ∀ {a b}, Fits a → Fits b → Fits (a.intersect b)

/-- The bounds of all nodes fit. -/
def NodesFit (nodes : List (Node U)) : Prop :=
  ∀ node ∈ nodes, Fits node.bounds

variable {add sub zero Fits} {nodes : List (Node U)} {query bounds : Bounds U}

omit [Add U] [Sub U] [Zero U] [LinearOrder U] in
theorem NodesFit.index (h : NodesFit Fits nodes) (i : ℕ) :
    Agrees (fun node => Fits node.bounds) (index nodes i) (index nodes i) := by
  refine ⟨rfl, fun node hnode => h node ?_⟩
  rw [Gpui.index] at hnode
  split at hnode
  · next heq =>
    obtain rfl := Except.ok.inj hnode
    exact List.mem_of_getElem? heq
  · cases hnode

omit [Add U] [Sub U] [Zero U] [LinearOrder U] in
theorem NodesFit.set (h : NodesFit Fits nodes) {node : Node U} (hnode : Fits node.bounds) (i : ℕ) :
    NodesFit Fits (nodes.set i node) := by
  intro other hother
  rcases List.mem_or_eq_of_mem_set hother with hother | rfl
  · exact h other hother
  · exact hnode

omit [Add U] [Sub U] [Zero U] [LinearOrder U] in
theorem NodesFit.concat (h : NodesFit Fits nodes) {node : Node U} (hnode : Fits node.bounds) :
    NodesFit Fits (nodes ++ [node]) := by
  intro other hother
  rcases List.mem_append.mp hother with hother | hother
  · exact h other hother
  · rwa [List.mem_singleton.mp hother]

theorem agrees_self {ε α : Type} (x : Except ε α) : Agrees (fun _ => True) x x :=
  ⟨rfl, fun _ _ => trivial⟩

namespace SameArithmetic

variable (h : SameArithmetic add sub zero Fits)

include h

theorem intersects {a b : Bounds U} (ha : Fits a) (hb : Fits b) :
    @Bounds.intersects U add _ a b = a.intersects b := by
  unfold Bounds.intersects
  rw [h.bottomRight ha, h.bottomRight hb]

end SameArithmetic

namespace BoundsTree

variable (h : SameArithmetic add sub zero Fits)

include h

/-! ### The search -/

theorem searchPass_agrees (hnodes : NodesFit Fits nodes) (hquery : Fits query)
    {state : List (Node U) × ℕ} (hstate : NodesFit Fits state.1) :
    Agrees (Pass.Holds (fun state => NodesFit Fits state.1) fun _ => True)
      (@searchPass U add _ nodes query state) (searchPass nodes query state) := by
  obtain ⟨stack, maxFound⟩ := state
  cases stack with
  | nil => exact .ok trivial
  | cons node stack =>
    have hstack : NodesFit Fits stack := fun other hother =>
      hstate other (List.mem_cons_of_mem _ hother)
    unfold searchPass
    dsimp only
    rw [h.intersects hquery (hstate node List.mem_cons_self)]
    split_ifs
    · exact .ok hstack
    · exact .ok hstack
    · cases node.kind with
      | leaf order => exact .ok hstack
      | internal children =>
        refine Agrees.bind (P := NodesFit Fits) ?_ fun opened hopened => .ok ?_
        · refine (Agrees.mapM fun i _ => hnodes.index i).bind fun found hfound => .ok ?_
          exact fun other hother => hfound other (List.mem_of_mem_filter hother)
        · intro other hother
          rcases List.mem_append.mp hother with hother | hother
          · exact hopened other (List.mem_reverse.mp hother)
          · exact hstack other hother

theorem findMaxOrdering_agrees {tree : BoundsTree U} (hnodes : NodesFit Fits tree.nodes)
    (hquery : Fits query) : Agrees (fun _ => True)
      (@findMaxOrdering U add _ tree query) (tree.findMaxOrdering query) := by
  unfold findMaxOrdering
  cases tree.root with
  | none => exact .ok trivial
  | some rootIdx =>
    refine Agrees.bind (P := fun _ => True) ?_ fun found _ => ?_
    · unfold maxLeafOrder
      cases tree.maxLeaf with
      | none => exact .ok trivial
      | some maxIdx =>
        refine (hnodes.index maxIdx).bind fun node hnode => ?_
        rw [h.intersects hquery hnode]
        exact agrees_self _
    · cases found with
      | some order => exact .ok trivial
      | none =>
        refine (hnodes.index rootIdx).bind fun root hroot => ?_
        refine Agrees.loop (fun state => searchPass_agrees h hnodes hquery) ?_
        exact fun node hnode => List.mem_singleton.mp hnode ▸ hroot

/-! ### The insertion -/

theorem pairNode_agrees {leaf : Node U} (hleaf : Fits leaf.bounds) (hbounds : Fits bounds)
    (leafIdx newLeafIdx order : ℕ) :
    @pairNode U add sub _ leafIdx newLeafIdx leaf bounds order =
        pairNode leafIdx newLeafIdx leaf bounds order ∧
      Fits (pairNode leafIdx newLeafIdx leaf bounds order).bounds := by
  refine ⟨?_, h.fits_union hleaf hbounds⟩
  unfold pairNode
  rw [h.union hleaf hbounds]

theorem bestChild_agrees (hnodes : NodesFit Fits nodes) (hbounds : Fits bounds)
    (children : NodeChildren) : Agrees (fun _ => True)
      (@bestChild U add sub _ nodes bounds children) (bestChild nodes bounds children) := by
  have hcost : ∀ {child : Node U}, Fits child.bounds →
      @Bounds.halfPerimeter U add (@Bounds.union U add sub _ bounds child.bounds) =
        (bounds.union child.bounds).halfPerimeter := fun hchild => by
    rw [h.union hbounds hchild, h.halfPerimeter (h.fits_union hbounds hchild)]
  unfold bestChild
  refine (agrees_self _).bind fun childIdx _ => (hnodes.index childIdx).bind fun child hchild => ?_
  rw [hcost hchild]
  refine Agrees.foldlM trivial fun best _ entry _ => ?_
  obtain ⟨childIdx, pos⟩ := entry
  unfold bestStep
  refine (hnodes.index childIdx).bind fun other hother => ?_
  dsimp only
  rw [hcost hother]
  exact agrees_self _

theorem addLeaf_agrees {node : Node U} (hnode : Fits node.bounds) (hbounds : Fits bounds)
    (newLeafIdx order : ℕ) (children : NodeChildren) : Agrees (fun node => Fits node.bounds)
      (@addLeaf U add sub _ newLeafIdx bounds order node children)
      (addLeaf newLeafIdx bounds order node children) := by
  have hunion := h.fits_union hnode hbounds
  unfold addLeaf
  rw [h.union hnode hbounds]
  refine (agrees_self _).bind fun children _ => ?_
  dsimp only
  split_ifs
  · exact (agrees_self _).bind fun _ _ => .ok hunion
  · exact .ok hunion

theorem descendPass_agrees (hnodes : NodesFit Fits nodes) (hbounds : Fits bounds)
    (newLeafIdx order : ℕ) (state : ℕ × List ℕ) :
    Agrees (Pass.Holds (fun _ => True) fun done => NodesFit Fits done.1)
      (@descendPass U add sub _ nodes newLeafIdx bounds order state)
      (descendPass nodes newLeafIdx bounds order state) := by
  obtain ⟨currentIdx, insertPath⟩ := state
  unfold descendPass
  refine (hnodes.index currentIdx).bind fun current hcurrent => ?_
  cases current.kind with
  | leaf order => exact .error _
  | internal children =>
    refine (bestChild_agrees h hnodes hbounds children).bind fun best _ => ?_
    refine (hnodes.index best.childIdx).bind fun child hchild => ?_
    cases child.kind with
    | internal _ => exact .ok trivial
    | leaf _ =>
      dsimp only
      split_ifs
      · exact (addLeaf_agrees h hcurrent hbounds newLeafIdx order children).bind
          fun node hnode => .ok (hnodes.set hnode _)
      · obtain ⟨hpair, hfits⟩ :=
          pairNode_agrees h hchild hbounds best.childIdx newLeafIdx order
        rw [hpair]
        refine Agrees.bind (P := fun node : Node U => Fits node.bounds) ?_ fun node hnode =>
          .ok ((hnodes.concat hfits).set hnode _)
        rw [replaceLeaf]
        dsimp only
        split_ifs
        · exact (agrees_self _).bind fun _ _ => .ok hcurrent
        · exact .ok hcurrent

theorem propagate_agrees {state : List (Node U) × Option ℕ} (hstate : NodesFit Fits state.1)
    (hbounds : Fits bounds) (order nodeIdx : ℕ) : Agrees (fun state => NodesFit Fits state.1)
      (@propagate U add sub _ bounds order state nodeIdx)
        (propagate bounds order state nodeIdx) := by
  obtain ⟨nodes, updatedChildIdx⟩ := state
  unfold propagate
  refine (hstate.index nodeIdx).bind fun node hnode => ?_
  dsimp only
  rw [h.union hnode hbounds]
  have hunion := h.fits_union hnode hbounds
  split_ifs
  · refine Agrees.bind (P := fun node : Node U => Fits node.bounds) ?_ fun node hnode =>
      .ok (NodesFit.set hstate hnode _)
    unfold raiseOrder
    split
    · split
      · dsimp only
        split_ifs
        · exact (agrees_self _).bind fun _ _ => .ok hunion
        · exact .ok hunion
      · exact .ok hunion
    · exact .ok hunion
  · exact .ok (NodesFit.set hstate hunion _)

theorem insertBelow_agrees (hnodes : NodesFit Fits nodes) (hbounds : Fits bounds)
    (rootIdx newLeafIdx order : ℕ) : Agrees (fun result => NodesFit Fits result.1)
      (@insertBelow U add sub _ nodes rootIdx newLeafIdx bounds order)
      (insertBelow nodes rootIdx newLeafIdx bounds order) := by
  unfold insertBelow
  refine (hnodes.index rootIdx).bind fun root hroot => ?_
  cases root.kind with
  | leaf _ =>
    obtain ⟨hpair, hfits⟩ := pairNode_agrees h hroot hbounds rootIdx newLeafIdx order
    dsimp only
    rw [hpair]
    exact .ok (hnodes.concat hfits)
  | internal _ =>
    refine (Agrees.loop (fun state _ =>
      descendPass_agrees h hnodes hbounds newLeafIdx order state) trivial).bind
        fun found hfound => ?_
    exact (Agrees.foldlM (P := fun state => NodesFit Fits state.1) hfound
      fun state hstate nodeIdx _ => propagate_agrees h hstate hbounds order nodeIdx).bind
        fun result hresult => .ok hresult

theorem insert_agrees {tree : BoundsTree U} (hnodes : NodesFit Fits tree.nodes)
    (hbounds : Fits bounds) : Agrees (fun result => NodesFit Fits result.1.nodes)
      (@insert U add sub _ tree bounds) (tree.insert bounds) := by
  unfold insert
  refine (findMaxOrdering_agrees h hnodes hbounds).bind fun found _ =>
    (agrees_self _).bind fun ordering _ => ?_
  refine Agrees.bind (P := fun result => NodesFit Fits result.1.nodes) ?_ fun result hresult => ?_
  · have hadded : NodesFit Fits (tree.nodes ++ [⟨bounds, ordering, .leaf ordering⟩]) :=
      hnodes.concat hbounds
    unfold insertLeaf
    cases tree.root with
    | none => exact .ok hadded
    | some rootIdx =>
      exact (insertBelow_agrees h hadded hbounds rootIdx tree.nodes.length ordering).bind
        fun below hbelow => .ok hbelow
  · refine Agrees.bind (P := fun tree => NodesFit Fits tree.nodes) ?_ fun after hafter => .ok hafter
    rw [updateMaxLeaf]
    split
    · exact .ok hresult
    · exact (agrees_self _).bind fun _ _ => .ok hresult

end BoundsTree

end Zui.Gpui
