/-
The bounds tree, which assigns draw orders to bounds.

The nodes of the tree are in one vector, and a node refers to its children by their
indices.  `insert` finds the greatest order of the bounds that intersect the new ones,
first by a look at the leaf with the greatest order of all and then by a search that
leaves out subtrees, and adds a leaf with the next order.

Design notes:

* the coordinates are added and subtracted in any way, and the draw orders are bounded by `u32Max`;
* the vectors `insert_path` and `search_stack`, which the code keeps only to reuse
  their memory, are states of the loops; the top of a stack is the head of its list;
* the stack of the search holds the nodes that it points to;
* a loop of the search or of the descent has fuel for every node once.
-/
import Zui.Gpui.Basic
import Zui.Gpui.Geometry

namespace Zui.Gpui

/-- `MAX_CHILDREN`. -/
def MAX_CHILDREN : ℕ := 12

/-- `NodeChildren`: the indices in use, at most `MAX_CHILDREN` of them. -/
abbrev NodeChildren : Type := List ℕ

namespace NodeChildren

/-- `push`. -/
def push (self : NodeChildren) (index : ℕ) : Result NodeChildren :=
  if self.length < MAX_CHILDREN then .ok (self ++ [index]) else .error .indexOutOfBounds

/-- `self.indices.swap(i, j)`. -/
def swap (self : NodeChildren) (i j : ℕ) : Result NodeChildren := do
  let a ← index self i
  let b ← index self j
  .ok ((self.set i b).set j a)

end NodeChildren

/-- `NodeKind`. -/
inductive NodeKind
  | leaf (order : ℕ)
  | internal (children : NodeChildren)

/-- `Node`. -/
structure Node (U : Type) where
  bounds : Bounds U
  maxOrder : ℕ
  kind : NodeKind

/-- `BoundsTree`. -/
structure BoundsTree (U : Type) where
  nodes : List (Node U)
  root : Option ℕ
  maxLeaf : Option ℕ

namespace BoundsTree

variable {U : Type}

/-- `default`. -/
def empty : BoundsTree U := ⟨[], none, none⟩

/-- `clear`. -/
def clear (_ : BoundsTree U) : BoundsTree U := ⟨[], none, none⟩

variable [Add U] [Sub U] [LinearOrder U]

/-! ### The search -/

/-- The children that the search goes on with. -/
def openChildren (nodes : List (Node U)) (children : NodeChildren) (maxFound : ℕ) :
    Result (List (Node U)) := do
  let children ← children.mapM (index nodes)
  .ok (children.filter fun node => node.maxOrder > maxFound)

/-- One pass of the loop of `find_max_ordering`. -/
def searchPass (nodes : List (Node U)) (query : Bounds U) (state : List (Node U) × ℕ) :
    Result (Pass (List (Node U) × ℕ) ℕ) :=
  match state with
  | ([], maxFound) => .ok (.done maxFound)
  | (node :: stack, maxFound) =>
    if node.maxOrder ≤ maxFound then .ok (.next (stack, maxFound))
    else if !query.intersects node.bounds then .ok (.next (stack, maxFound))
    else
      match node.kind with
      | .leaf order => .ok (.next (stack, max maxFound order))
      | .internal children => do
        let children ← openChildren nodes children maxFound
        .ok (.next (children.reverse ++ stack, maxFound))

/-- The fast path of `find_max_ordering`: the order of the leaf with the greatest one,
if it intersects. -/
def maxLeafOrder (self : BoundsTree U) (query : Bounds U) : Result (Option ℕ) :=
  match self.maxLeaf with
  | some maxIdx => do
    let maxNode ← index self.nodes maxIdx
    .ok (if query.intersects maxNode.bounds then some maxNode.maxOrder else none)
  | none => .ok none

/-- `find_max_ordering`. -/
def findMaxOrdering (self : BoundsTree U) (query : Bounds U) : Result ℕ :=
  match self.root with
  | none => .ok 0
  | some rootIdx => do
    match ← self.maxLeafOrder query with
    | some order => .ok order
    | none => do
      let root ← index self.nodes rootIdx
      loop .outOfFuel (searchPass self.nodes query) (self.nodes.length + 1) ([root], 0)

/-! ### The insertion -/

/-- Two children, with the one of the greater order at the end. -/
def pairOf (leafIdx newLeafIdx leafOrder order : ℕ) : NodeChildren :=
  if order > leafOrder then [leafIdx, newLeafIdx] else [newLeafIdx, leafIdx]

/-- A new internal node over a leaf and the new leaf. -/
def pairNode (leafIdx newLeafIdx : ℕ) (leaf : Node U) (bounds : Bounds U) (order : ℕ) : Node U where
  bounds := leaf.bounds.union bounds
  maxOrder := max leaf.maxOrder order
  kind := .internal (pairOf leafIdx newLeafIdx leaf.maxOrder order)

/-- `best_child_idx`, `best_child_pos` and `best_cost`. -/
structure Best (U : Type) where
  childIdx : ℕ
  childPos : ℕ
  cost : U

/-- The body of the loop that finds the best child. -/
def bestStep (nodes : List (Node U)) (bounds : Bounds U) (best : Best U) (entry : ℕ × ℕ) :
    Result (Best U) := do
  let (childIdx, pos) := entry
  let child ← index nodes childIdx
  let cost := (bounds.union child.bounds).halfPerimeter
  .ok (if cost < best.cost then ⟨childIdx, pos, cost⟩ else best)

/-- The best child to descend into. -/
def bestChild (nodes : List (Node U)) (bounds : Bounds U) (children : NodeChildren) :
    Result (Best U) := do
  let childIdx ← index children 0
  let child ← index nodes childIdx
  (children.zipIdx.drop 1).foldlM (bestStep nodes bounds)
    ⟨childIdx, 0, (bounds.union child.bounds).halfPerimeter⟩

/-- The branch that adds the new leaf to a node with room for it. -/
def addLeaf (newLeafIdx : ℕ) (bounds : Bounds U) (order : ℕ) (node : Node U)
    (children : NodeChildren) : Result (Node U) := do
  let children ← children.push newLeafIdx
  let children ← if order ≤ node.maxOrder then
    children.swap (children.length - 1 - 1) (children.length - 1) else .ok children
  .ok ⟨node.bounds.union bounds, max node.maxOrder order, .internal children⟩

/-- The branch that puts a new internal node in the place of a leaf. -/
def replaceLeaf (newInternalIdx newInternalMax childPos : ℕ) (parent : Node U)
    (children : NodeChildren) : Result (Node U) := do
  let children : NodeChildren := children.set childPos newInternalIdx
  let children ← if newInternalMax > parent.maxOrder then
    children.swap childPos (children.length - 1) else .ok children
  .ok { parent with kind := .internal children }

/-- One pass of the loop that descends from the root.  The state is the current index
and the path to it; the loop ends with the nodes changed at the last node of the path. -/
def descendPass (nodes : List (Node U)) (newLeafIdx : ℕ) (bounds : Bounds U) (order : ℕ)
    (state : ℕ × List ℕ) : Result (Pass (ℕ × List ℕ) (List (Node U) × List ℕ)) := do
  let (currentIdx, insertPath) := state
  let current ← index nodes currentIdx
  match current.kind with
  | .leaf _ => .error .unreachable
  | .internal children => do
    let insertPath := insertPath ++ [currentIdx]
    let best ← bestChild nodes bounds children
    let child ← index nodes best.childIdx
    match child.kind with
    | .internal _ => .ok (.next (best.childIdx, insertPath))
    | .leaf _ =>
      if children.length < MAX_CHILDREN then do
        let node ← addLeaf newLeafIdx bounds order current children
        .ok (.done (nodes.set currentIdx node, insertPath))
      else do
        let newInternal := pairNode best.childIdx newLeafIdx child bounds order
        let node ← replaceLeaf nodes.length newInternal.maxOrder best.childPos current children
        .ok (.done ((nodes ++ [newInternal]).set currentIdx node, insertPath))

/-- The `if` of the loop that goes up: the new order, with the changed child at the
end. -/
def raiseOrder (order : ℕ) (updatedChildIdx : Option ℕ) (node : Node U) : Result (Node U) :=
  match updatedChildIdx, node.kind with
  | some childIdx, .internal children =>
    match children.idxOf? childIdx with
    | some pos => do
      let last := children.length - 1
      let children ← if pos ≠ last then children.swap pos last else .ok children
      .ok { node with maxOrder := order, kind := .internal children }
    | none => .ok { node with maxOrder := order }
  | _, _ => .ok { node with maxOrder := order }

/-- The body of the loop that goes up. -/
def propagate (bounds : Bounds U) (order : ℕ) (state : List (Node U) × Option ℕ) (nodeIdx : ℕ) :
    Result (List (Node U) × Option ℕ) := do
  let (nodes, updatedChildIdx) := state
  let node ← index nodes nodeIdx
  let node := { node with bounds := node.bounds.union bounds }
  let node ← if node.maxOrder < order then raiseOrder order updatedChildIdx node else .ok node
  .ok (nodes.set nodeIdx node, some nodeIdx)

/-- `insert_leaf` on a tree with a root, behind the new leaf. -/
def insertBelow (nodes : List (Node U)) (rootIdx newLeafIdx : ℕ) (bounds : Bounds U)
    (order : ℕ) : Result (List (Node U) × ℕ) := do
  let root ← index nodes rootIdx
  match root.kind with
  | .leaf _ => .ok (nodes ++ [pairNode rootIdx newLeafIdx root bounds order], nodes.length)
  | .internal _ => do
    let (nodes, insertPath) ← loop .outOfFuel (descendPass nodes newLeafIdx bounds order)
      nodes.length (rootIdx, [])
    let (nodes, _) ← insertPath.reverse.foldlM (propagate bounds order) (nodes, none)
    .ok (nodes, rootIdx)

/-- `insert_leaf`. -/
def insertLeaf (self : BoundsTree U) (bounds : Bounds U) (order : ℕ) :
    Result (BoundsTree U × ℕ) := do
  let newLeafIdx := self.nodes.length
  let nodes := self.nodes ++ [⟨bounds, order, .leaf order⟩]
  match self.root with
  | none => .ok ({ self with nodes, root := some newLeafIdx }, newLeafIdx)
  | some rootIdx => do
    let (nodes, rootIdx) ← insertBelow nodes rootIdx newLeafIdx bounds order
    .ok ({ self with nodes, root := some rootIdx }, newLeafIdx)

/-- The update of `max_leaf` in `insert`. -/
def updateMaxLeaf (self : BoundsTree U) (newLeafIdx ordering : ℕ) : Result (BoundsTree U) :=
  match self.maxLeaf with
  | none => .ok { self with maxLeaf := some newLeafIdx }
  | some oldIdx => do
    let old ← index self.nodes oldIdx
    .ok { self with maxLeaf := if old.maxOrder < ordering then some newLeafIdx else some oldIdx }

/-- `insert`. -/
def insert (self : BoundsTree U) (newBounds : Bounds U) : Result (BoundsTree U × ℕ) := do
  let maxIntersecting ← self.findMaxOrdering newBounds
  let ordering ← succOrder maxIntersecting
  let (self, newLeafIdx) ← self.insertLeaf newBounds ordering
  let self ← self.updateMaxLeaf newLeafIdx ordering
  .ok (self, ordering)

end BoundsTree

end Zui.Gpui
