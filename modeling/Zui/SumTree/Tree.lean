/-
The operations of the sum tree that do not use a cursor.

`fromIter` and `fromParIter` build a tree bottom up, level by level; `append`
joins two trees of any heights by walking down the right spine of the taller one
(`pushTreeRecursive`) or its left spine (`appendLarge`, which merges an
underfull node with `mergeIntoRight`); `fromChildTrees` puts a new root over the
two halves of a split one.

The functions that change a node in place return the changed node first, and
after it the node that was split off, if any.
-/
import Zui.Library.Chunks
import Zui.SumTree.Basic

namespace Zui

namespace SumTree

variable {T S : Type} [Zero S] [Add S] [Item T S]

/-! ### Building from an iterator -/

/-- The summaries of an array that is known not to be empty, added up from the
first one. -/
def sumFromFirst (summaries : List S) : Result S := do
  let first ← index summaries 0
  let rest ← sliceFrom summaries 1
  .ok (rest.foldl (· + ·) first)

/-- A leaf of `from_iter` and `from_par_iter`. -/
def leafOf (items : List T) : Result (SumTree T S) := do
  let items ← collect items
  let itemSummaries ← collect (items.map Item.summary)
  let summary ← sumFromFirst itemSummaries
  .ok (leaf summary items itemSummaries)

/-- One pass of the inner loop of `from_iter`: `childNode` joins the parent node
that is being filled, and a full parent node joins the finished ones. -/
def addChild (height : ℕ) (parents : List (SumTree T S) × Option (SumTree T S))
    (childNode : SumTree T S) : Result (List (SumTree T S) × Option (SumTree T S)) :=
  match parents.2.getD (internal height 0 [] []) with
  | leaf .. => .error .unreachable
  | internal height summary childSummaries childTrees => do
    let summary := summary + childNode.summary
    let childSummaries ← push childSummaries childNode.summary
    let childTrees ← push childTrees childNode
    let parentNode := internal height summary childSummaries childTrees
    if childTrees.length = 2 * TREE_BASE then
      .ok (parents.1 ++ [parentNode], none)
    else
      .ok (parents.1, some parentNode)

/-- The parent nodes of one level, as `from_iter` collects them. -/
def parentNodes (height : ℕ) (nodes : List (SumTree T S)) : Result (List (SumTree T S)) := do
  let (parents, currentParentNode) ← nodes.foldlM (addChild height) ([], none)
  .ok (parents ++ currentParentNode.toList)

/-- A parent node of `from_par_iter`. -/
def parentOf (height : ℕ) (childNodes : List (SumTree T S)) : Result (SumTree T S) := do
  let childTrees ← collect childNodes
  let childSummaries ← collect (childTrees.map summary)
  let summary ← sumFromFirst childSummaries
  .ok (internal height summary childSummaries childTrees)

/-- The parent nodes of one level, as `from_par_iter` collects them. -/
def parParentNodes (height : ℕ) (nodes : List (SumTree T S)) : Result (List (SumTree T S)) :=
  (chunks (2 * TREE_BASE) nodes).mapM (parentOf height)

/-- One pass of the outer loop of `from_iter` and `from_par_iter`: while there is
more than one node, put a level of parent nodes over them. -/
def buildLevel (level : ℕ → List (SumTree T S) → Result (List (SumTree T S)))
    (state : ℕ × List (SumTree T S)) :
    Result (Pass (ℕ × List (SumTree T S)) (List (SumTree T S))) :=
  if state.2.length > 1 then do
    let height ← succHeight state.1
    let nodes ← level height state.2
    .ok (.next (height, nodes))
  else
    .ok (.done state.2)

/-- The tree over a list of leaves.  Each level has fewer nodes than the one
below, so the number of leaves is enough fuel. -/
def buildUp (level : ℕ → List (SumTree T S) → Result (List (SumTree T S)))
    (nodes : List (SumTree T S)) : Result (SumTree T S) := do
  let nodes ← loop .outOfFuel (buildLevel level) (nodes.length + 1) (0, nodes)
  if nodes.isEmpty then .ok new else unwrap nodes.getLast?

/-- `from_iter`. -/
def fromIter (iter : List T) : Result (SumTree T S) := do
  let nodes ← (chunks (2 * TREE_BASE) iter).mapM leafOf
  buildUp parentNodes nodes

/-- `from_par_iter`: the chunks are summarised in parallel and collected in
order. -/
def fromParIter (iter : List T) : Result (SumTree T S) := do
  let nodes ← (chunks (2 * TREE_BASE) iter).mapM leafOf
  buildUp parParentNodes nodes

/-! ### Reading and updating the ends -/

/-- `leftmost_leaf`. -/
def leftmostLeaf : SumTree T S → Result (SumTree T S)
  | internal _ _ _ [] => .error .unwrapNone
  | internal _ _ _ (first :: _) => leftmostLeaf first
  | leaf summary items itemSummaries => .ok (leaf summary items itemSummaries)

mutual

/-- `rightmost_leaf`. -/
def rightmostLeaf : SumTree T S → Result (SumTree T S)
  | internal _ _ _ childTrees => rightmostOfLast childTrees
  | leaf summary items itemSummaries => .ok (leaf summary items itemSummaries)

/-- `rightmost_leaf` of `child_trees.last().unwrap()`. -/
def rightmostOfLast : List (SumTree T S) → Result (SumTree T S)
  | [] => .error .unwrapNone
  | [last] => rightmostLeaf last
  | _ :: next :: rest => rightmostOfLast (next :: rest)

end

/-- `first`. -/
def first (self : SumTree T S) : Result (Option T) := do
  let leaf ← self.leftmostLeaf
  let items ← leaf.items
  .ok items.head?

/-- `last`. -/
def last (self : SumTree T S) : Result (Option T) := do
  let leaf ← self.rightmostLeaf
  let items ← leaf.items
  .ok items.getLast?

/-- The leaf arm of `update_first_recursive`. -/
def updateFirstItem (f : T → T) (summary : S) (items : List T) (itemSummaries : List S) :
    SumTree T S × Option S :=
  match items, itemSummaries with
  | item :: rest, _ :: restSummaries =>
    let item := f item
    let itemSummaries := Item.summary item :: restSummaries
    (leaf (sum itemSummaries) (item :: rest) itemSummaries, some (sum itemSummaries))
  | _, _ => (leaf summary items itemSummaries, none)

/-- `update_first_recursive`, with the summary it returns. -/
def updateFirstRecursive (f : T → T) : SumTree T S → Result (SumTree T S × Option S)
  | internal _ _ _ [] => .error .unwrapNone
  | internal height _ childSummaries (firstChild :: rest) => do
    let (firstChild, firstSummary) ← updateFirstRecursive f firstChild
    let firstSummary ← unwrap firstSummary
    let childSummaries ← setFirst firstSummary childSummaries
    let summary := sum childSummaries
    .ok (internal height summary childSummaries (firstChild :: rest), some summary)
  | leaf summary items itemSummaries => .ok (updateFirstItem f summary items itemSummaries)

/-- `update_first`. -/
def updateFirst (f : T → T) (self : SumTree T S) : Result (SumTree T S) := do
  let (self, _) ← updateFirstRecursive f self
  .ok self

/-- The leaf arm of `update_last_recursive`. -/
def updateLastItem (f : T → T) (summary : S) (items : List T) (itemSummaries : List S) :
    SumTree T S × Option S :=
  match items.getLast?, itemSummaries.getLast? with
  | some item, some _ =>
    let item := f item
    let itemSummaries := itemSummaries.dropLast ++ [Item.summary item]
    (leaf (sum itemSummaries) (items.dropLast ++ [item]) itemSummaries, some (sum itemSummaries))
  | _, _ => (leaf summary items itemSummaries, none)

mutual

/-- `update_last_recursive`, with the summary it returns. -/
def updateLastRecursive (f : T → T) : SumTree T S → Result (SumTree T S × Option S)
  | internal height _ childSummaries childTrees => do
    let (childTrees, lastSummary) ← updateLastOfLast f childTrees
    let lastSummary ← unwrap lastSummary
    let childSummaries ← setLast childSummaries lastSummary
    let summary := sum childSummaries
    .ok (internal height summary childSummaries childTrees, some summary)
  | leaf summary items itemSummaries => .ok (updateLastItem f summary items itemSummaries)

/-- `update_last_recursive` of `child_trees.last_mut().unwrap()`. -/
def updateLastOfLast (f : T → T) : List (SumTree T S) → Result (List (SumTree T S) × Option S)
  | [] => .error .unwrapNone
  | [last] => do
    let (last, lastSummary) ← updateLastRecursive f last
    .ok ([last], lastSummary)
  | tree :: next :: rest => do
    let (trees, lastSummary) ← updateLastOfLast f (next :: rest)
    .ok (tree :: trees, lastSummary)

end

/-- `update_last`. -/
def updateLast (f : T → T) (self : SumTree T S) : Result (SumTree T S) := do
  let (self, _) ← updateLastRecursive f self
  .ok self

/-! ### Joining trees -/

/-- The end of the internal arm of `push_tree_recursive`: the node takes the
trees to append, and splits when they are too many. -/
def appendChildren (height : ℕ) (summary : S) (childSummaries : List S)
    (childTrees : List (SumTree T S)) (summariesToAppend : List S)
    (treesToAppend : List (SumTree T S)) : Result (SumTree T S × Option (SumTree T S)) :=
  let childCount := childTrees.length + treesToAppend.length
  if childCount > 2 * TREE_BASE then do
    let midpoint := (childCount + childCount % 2) / 2
    let (leftSummaries, rightSummaries) ←
      collectHalves (childSummaries ++ summariesToAppend) midpoint
    let (leftTrees, rightTrees) ← collectHalves (childTrees ++ treesToAppend) midpoint
    .ok (internal height (sum leftSummaries) leftSummaries leftTrees,
      some (internal height (sum rightSummaries) rightSummaries rightTrees))
  else do
    let childSummaries ← extend childSummaries summariesToAppend
    let childTrees ← extend childTrees treesToAppend
    .ok (internal height summary childSummaries childTrees, none)

/-- The leaf arm of `push_tree_recursive`. -/
def appendItems (summary : S) (items : List T) (itemSummaries : List S) (other : SumTree T S) :
    Result (SumTree T S × Option (SumTree T S)) := do
  let otherItems ← other.items
  let childCount := items.length + otherItems.length
  if childCount > 2 * TREE_BASE then
    let midpoint := (childCount + childCount % 2) / 2
    let (leftItems, rightItems) ← collectHalves (items ++ otherItems) midpoint
    let (leftSummaries, rightSummaries) ←
      collectHalves (itemSummaries ++ other.childSummaries) midpoint
    .ok (leaf (sum leftSummaries) leftItems leftSummaries,
      some (leaf (sum rightSummaries) rightItems rightSummaries))
  else
    let items ← extend items otherItems
    let itemSummaries ← extend itemSummaries other.childSummaries
    .ok (leaf (summary + other.summary) items itemSummaries, none)

mutual

/-- `push_tree_recursive`. -/
def pushTreeRecursive : SumTree T S → SumTree T S → Result (SumTree T S × Option (SumTree T S))
  | internal height summary childSummaries childTrees, other => do
    let summary := summary + other.summary
    let heightDelta ← checkedSub height other.height
    if heightDelta = 0 then
      let treesToAppend ← other.childTrees
      appendChildren height summary childSummaries childTrees other.childSummaries treesToAppend
    else if heightDelta = 1 ∧ other.isUnderflowing = false then
      appendChildren height summary childSummaries childTrees [other.summary] [other]
    else
      let (childTrees, treeToAppend) ← pushTreeToLast childTrees other
      let lastTree ← unwrap childTrees.getLast?
      let childSummaries ← setLast childSummaries lastTree.summary
      match treeToAppend with
      | some splitTree =>
        appendChildren height summary childSummaries childTrees [splitTree.summary] [splitTree]
      | none => appendChildren height summary childSummaries childTrees [] []
  | leaf summary items itemSummaries, other => appendItems summary items itemSummaries other

/-- `push_tree_recursive` of `child_trees.last_mut().unwrap()`. -/
def pushTreeToLast : List (SumTree T S) → SumTree T S →
    Result (List (SumTree T S) × Option (SumTree T S))
  | [], _ => .error .unwrapNone
  | [last], other => do
    let (last, splitTree) ← pushTreeRecursive last other
    .ok ([last], splitTree)
  | tree :: next :: rest, other => do
    let (trees, splitTree) ← pushTreeToLast (next :: rest) other
    .ok (tree :: trees, splitTree)

end

/-- `merge_into_right`: `large` takes the contents of `small` in front of its
own.  When they are too many, the first half is returned and `large` keeps the
second half. -/
def mergeIntoRight : SumTree T S → SumTree T S → Result (SumTree T S × Option (SumTree T S))
  | internal _ smallSummary smallChildSummaries smallChildTrees,
    internal height summary childSummaries childTrees =>
    let totalChildCount := childTrees.length + smallChildTrees.length
    if totalChildCount ≤ 2 * TREE_BASE then do
      let allTrees ← extend smallChildTrees childTrees
      let allSummaries ← extend smallChildSummaries childSummaries
      .ok (internal height (smallSummary + summary) allSummaries allTrees, none)
    else do
      let midpoint := (totalChildCount + 1) / 2
      let (leftTrees, childTrees) ← collectHalves (smallChildTrees ++ childTrees) midpoint
      let (leftSummaries, childSummaries) ←
        collectHalves (smallChildSummaries ++ childSummaries) midpoint
      .ok (internal height (sum childSummaries) childSummaries childTrees,
        some (internal height (sum leftSummaries) leftSummaries leftTrees))
  | leaf smallSummary smallItems smallItemSummaries, leaf summary items itemSummaries =>
    let totalChildCount := smallItems.length + items.length
    if totalChildCount ≤ 2 * TREE_BASE then do
      let allItems ← extend smallItems items
      let allSummaries ← extend smallItemSummaries itemSummaries
      .ok (leaf (smallSummary + summary) allItems allSummaries, none)
    else do
      let midpoint := (totalChildCount + 1) / 2
      let (leftItems, items) ← collectHalves (smallItems ++ items) midpoint
      let (leftSummaries, itemSummaries) ←
        collectHalves (smallItemSummaries ++ itemSummaries) midpoint
      .ok (leaf (sum itemSummaries) items itemSummaries,
        some (leaf (sum leftSummaries) leftItems leftSummaries))
  | _, _ => .error .unreachable

/-- The base case of `append_large`: both trees have the same height. -/
def appendLevel (small large : SumTree T S) : Result (SumTree T S × Option (SumTree T S)) :=
  if small.isUnderflowing = false then .ok (large, some small) else mergeIntoRight small large

/-- The end of `append_large`: the node takes a tree that its first child split
off in front of its children, and splits when it is full. -/
def prependChild (height : ℕ) (summary : S) (childSummaries : List S)
    (childTrees : List (SumTree T S)) (tree : SumTree T S) :
    Result (SumTree T S × Option (SumTree T S)) :=
  if childTrees.length < 2 * TREE_BASE then do
    let childSummaries ← insertFront tree.summary childSummaries
    let childTrees ← insertFront tree childTrees
    .ok (internal height summary childSummaries childTrees, none)
  else do
    let drained ← sliceTo childSummaries TREE_BASE
    let newChildSummaries ← extend [tree.summary] drained
    let drainedTrees ← sliceTo childTrees TREE_BASE
    let newChildTrees ← extend [tree] drainedTrees
    let newTree := internal height (sum newChildSummaries) newChildSummaries newChildTrees
    let childSummaries := childSummaries.drop TREE_BASE
    .ok (internal height (sum childSummaries) childSummaries (childTrees.drop TREE_BASE),
      some newTree)

/-- `append_large`. -/
def appendLarge (small : SumTree T S) :
    SumTree T S → Result (SumTree T S × Option (SumTree T S))
  | leaf summary items itemSummaries =>
    if small.height = 0 then appendLevel small (leaf summary items itemSummaries)
    else .error .unreachable
  | internal height summary childSummaries [] =>
    if small.height = height then appendLevel small (internal height summary childSummaries [])
    else .error .unwrapNone
  | internal height summary childSummaries (firstTree :: rest) =>
    if small.height = height then
      appendLevel small (internal height summary childSummaries (firstTree :: rest))
    else do
      let fullSummary := small.summary + summary
      let (firstTree, res) ← appendLarge small firstTree
      let childSummaries ← setFirst firstTree.summary childSummaries
      match res with
      | some tree => prependChild height fullSummary childSummaries (firstTree :: rest) tree
      | none => .ok (internal height fullSummary childSummaries (firstTree :: rest), none)

/-- `from_child_trees`. -/
def fromChildTrees (left right : SumTree T S) : Result (SumTree T S) := do
  let height ← succHeight left.height
  let childSummaries ← push [] left.summary
  let childSummaries ← push childSummaries right.summary
  let childTrees ← push [] left
  let childTrees ← push childTrees right
  .ok (internal height (sum childSummaries) childSummaries childTrees)

/-- `append`. -/
def append (self other : SumTree T S) : Result (SumTree T S) :=
  if self.isEmpty then
    .ok other
  else if other.isEmpty then
    .ok self
  else if self.height < other.height then do
    let (other, tree) ← appendLarge self other
    match tree with
    | some tree => fromChildTrees tree other
    | none => .ok other
  else do
    let (self, splitTree) ← pushTreeRecursive self other
    match splitTree with
    | some splitTree => fromChildTrees self splitTree
    | none => .ok self

/-- `push`. -/
def pushItem (self : SumTree T S) (item : T) : Result (SumTree T S) :=
  append self (leaf (Item.summary item) [item] [Item.summary item])

/-- `from_item`. -/
def fromItem (item : T) : Result (SumTree T S) := pushItem new item

/-- `extend`. -/
def extendIter (self : SumTree T S) (iter : List T) : Result (SumTree T S) := do
  let other ← fromIter iter
  append self other

/-- `par_extend`. -/
def parExtend (self : SumTree T S) (iter : List T) : Result (SumTree T S) := do
  let other ← fromParIter iter
  append self other

end SumTree

end Zui
