/-
Cursors and iterators over a sum tree.

A `Cursor` holds a stack of nodes from the root down to a leaf, with the index of
the child or item it is at in each of them, and the position of that item in the
dimension `D`.  The stack is empty before the first and after the last item; the
flag `atEnd` tells the two apart, and `didSeek` a cursor that was not yet moved.

Design notes:

* the top of the stack is the head of the list; a push past 16 entries is
  `Panic.capacity`;
* the three `while` loops are `loop`s over one pass of their body
  (`searchBackwardPass`, `searchForwardPass`, `seekPass`), with the weights of the
  trees on the stack as fuel;
* `seekInternal` is generic over the aggregate that collects what it passes, as
  in the Rust code: nothing, a tree (`SliceSeekAggregate`), or a dimension
  (`SummarySeekAggregate`).
-/
import Zui.SumTree.Tree

namespace Zui

/-- `StackEntry`. -/
structure StackEntry (T S D : Type) where
  tree : SumTree T S
  index : ℕ
  position : D

/-- `push` onto a stack of capacity 16, then `unwrap_oob`. -/
def pushEntry {T S D : Type} (stack : List (StackEntry T S D)) (entry : StackEntry T S D) :
    Result (List (StackEntry T S D)) :=
  if stack.length < 16 then .ok (entry :: stack) else .error .capacity

namespace SumTree

variable {T S : Type}

mutual

/-- A bound on the passes that a cursor spends below a node. -/
def weight : SumTree T S → ℕ
  | internal _ _ _ childTrees => weights childTrees + 1
  | leaf _ items _ => items.length + 1

/-- A bound on the passes that a cursor spends on a run of sibling nodes. -/
def weights : List (SumTree T S) → ℕ
  | [] => 0
  | t :: ts => weight t + 1 + weights ts

end

end SumTree

/-- Fuel for a loop of a cursor. -/
def stackFuel {T S D : Type} (stack : List (StackEntry T S D)) : ℕ :=
  (stack.map fun entry => entry.tree.weight).sum + 1

/-- `Cursor`. -/
structure Cursor (T S D : Type) where
  tree : SumTree T S
  stack : List (StackEntry T S D)
  position : D
  didSeek : Bool
  atEnd : Bool

namespace Cursor

variable {T S D : Type} [Dimension D S]

/-- `Cursor::new`. -/
def new (tree : SumTree T S) : Cursor T S D where
  tree := tree
  stack := []
  position := Dimension.zero S
  didSeek := false
  atEnd := tree.isEmpty

/-- `reset`. -/
def reset (self : Cursor T S D) : Cursor T S D :=
  { self with
    didSeek := false, atEnd := self.tree.isEmpty, stack := [], position := Dimension.zero S }

/-- `start`. -/
def start (self : Cursor T S D) : D := self.position

/-- `assert_did_seek`. -/
def assertDidSeek (self : Cursor T S D) : Result Unit :=
  if self.didSeek then .ok () else .error .didNotSeek

/-- `item`. -/
def item (self : Cursor T S D) : Result (Option T) := do
  self.assertDidSeek
  match self.stack with
  | [] => .ok none
  | entry :: _ =>
    match entry.tree with
    | .leaf _ items _ =>
      if entry.index = items.length then .ok none
      else do
        let item ← index items entry.index
        .ok (some item)
    | .internal .. => .error .unreachable

/-- `item_summary`. -/
def itemSummary (self : Cursor T S D) : Result (Option S) := do
  self.assertDidSeek
  match self.stack with
  | [] => .ok none
  | entry :: _ =>
    match entry.tree with
    | .leaf _ _ itemSummaries =>
      if entry.index = itemSummaries.length then .ok none
      else do
        let itemSummary ← index itemSummaries entry.index
        .ok (some itemSummary)
    | .internal .. => .error .unreachable

/-- `end`. -/
def endPosition (self : Cursor T S D) : Result D := do
  match ← self.itemSummary with
  | some itemSummary => .ok (Dimension.addSummary self.start itemSummary)
  | none => .ok self.start

/-- `next_leaf`, over the entries below the top of the stack. -/
def nextLeaf : List (StackEntry T S D) → Result (Option (SumTree T S))
  | [] => .ok none
  | entry :: rest => do
    let childTrees ← entry.tree.childTrees
    let last ← checkedSub childTrees.length 1
    if entry.index < last then
      let tree ← index childTrees (entry.index + 1)
      let leaf ← tree.leftmostLeaf
      .ok (some leaf)
    else nextLeaf rest

/-- `next_item`. -/
def nextItem (self : Cursor T S D) : Result (Option T) := do
  self.assertDidSeek
  match self.stack with
  | entry :: rest =>
    let items ← entry.tree.items
    let last ← checkedSub items.length 1
    if entry.index = last then
      match ← nextLeaf rest with
      | some nextLeaf => do
        let items ← nextLeaf.items
        let item ← unwrap items.head?
        .ok (some item)
      | none => .ok none
    else
      let item ← index items (entry.index + 1)
      .ok (some item)
  | [] => if self.atEnd then .ok none else self.tree.first

/-- `prev_leaf`, over the entries below the top of the stack. -/
def prevLeaf : List (StackEntry T S D) → Result (Option (SumTree T S))
  | [] => .ok none
  | entry :: rest =>
    if entry.index ≠ 0 then do
      let childTrees ← entry.tree.childTrees
      let tree ← index childTrees (entry.index - 1)
      let leaf ← tree.rightmostLeaf
      .ok (some leaf)
    else prevLeaf rest

/-- `prev_item`. -/
def prevItem (self : Cursor T S D) : Result (Option T) := do
  self.assertDidSeek
  match self.stack with
  | entry :: rest =>
    if entry.index = 0 then
      match ← prevLeaf rest with
      | some prevLeaf => do
        let items ← prevLeaf.items
        let item ← unwrap items.getLast?
        .ok (some item)
      | none => .ok none
    else
      let items ← entry.tree.items
      let item ← index items (entry.index - 1)
      .ok (some item)
  | [] => if self.atEnd then self.tree.last else .ok none

/-! ### Moving backward -/

/-- What the loop of `search_backward` works on. -/
structure Backward (T S D : Type) where
  stack : List (StackEntry T S D)
  position : D
  descending : Bool

/-- The position at which the node on top of the stack starts. -/
def parentPosition : List (StackEntry T S D) → D
  | [] => Dimension.zero S
  | parent :: _ => parent.position

/-- One pass of the loop of `search_backward`. -/
def searchBackwardPass (filterNode : S → Bool) (self : Backward T S D) :
    Result (Pass (Backward T S D) (List (StackEntry T S D) × D)) :=
  match self.stack with
  | [] => .ok (.done ([], self.position))
  | entry :: rest =>
    if self.descending = false ∧ entry.index = 0 then
      .ok (.next ⟨rest, parentPosition rest, self.descending⟩)
    else do
      let childIndex := if self.descending then entry.index else entry.index - 1
      let before ← sliceTo entry.tree.childSummaries childIndex
      let position := before.foldl Dimension.addSummary (parentPosition rest)
      let entry := { entry with index := childIndex, position }
      let summary ← index entry.tree.childSummaries entry.index
      let descending := filterNode summary
      match entry.tree with
      | .internal _ _ _ childTrees =>
        if descending then
          let tree ← index childTrees entry.index
          let last ← checkedSub tree.childSummaries.length 1
          let stack ← pushEntry (entry :: rest) ⟨tree, last, Dimension.zero S⟩
          .ok (.next ⟨stack, position, descending⟩)
        else
          .ok (.next ⟨entry :: rest, position, descending⟩)
      | .leaf .. =>
        if descending then .ok (.done (entry :: rest, position))
        else .ok (.next ⟨entry :: rest, position, descending⟩)

/-- The first half of `search_backward`: a cursor that was not moved, or is at
the end, starts behind the last child of the root. -/
def startBackward (self : Cursor T S D) : Result (Cursor T S D) :=
  let self := if self.didSeek then self else { self with didSeek := true, atEnd := true }
  if self.atEnd then
    let self := { self with position := Dimension.zero S, atEnd := self.tree.isEmpty }
    if self.tree.isEmpty then .ok self
    else do
      let stack ← pushEntry self.stack ⟨self.tree, self.tree.childSummaries.length,
        Dimension.addSummary (Dimension.zero S) self.tree.summary⟩
      .ok { self with stack }
  else .ok self

/-- `search_backward`. -/
def searchBackward (filterNode : S → Bool) (self : Cursor T S D) : Result (Cursor T S D) := do
  let self ← self.startBackward
  let (stack, position) ← loop .outOfFuel (searchBackwardPass filterNode) (stackFuel self.stack)
    ⟨self.stack, self.position, false⟩
  .ok { self with stack, position }

/-- `prev`. -/
def prev (self : Cursor T S D) : Result (Cursor T S D) := self.searchBackward fun _ => true

/-! ### Moving forward -/

/-- What the loop of `search_forward` works on. -/
structure Forward (T S D : Type) where
  stack : List (StackEntry T S D)
  position : D
  descend : Bool

/-- How the loop of `search_forward` ends; `found` is its early return. -/
structure Landed (T S D : Type) where
  stack : List (StackEntry T S D)
  position : D
  found : Bool

/-- The inner loops of `search_forward`: skip children or items until the filter
accepts one. -/
def skipChildren (filterNode : S → Bool) :
    List S → StackEntry T S D → D → StackEntry T S D × D × Bool
  | [], entry, position => (entry, position, false)
  | nextSummary :: rest, entry, position =>
    if filterNode nextSummary then (entry, position, true)
    else
      skipChildren filterNode rest
        { entry with
          index := entry.index + 1
          position := Dimension.addSummary entry.position nextSummary }
        (Dimension.addSummary position nextSummary)

/-- One pass of the loop of `search_forward`. -/
def searchForwardPass (filterNode : S → Bool) (self : Forward T S D) :
    Result (Pass (Forward T S D) (Landed T S D)) :=
  match self.stack with
  | [] => .ok (.done ⟨[], self.position, false⟩)
  | entry :: rest =>
    match entry.tree with
    | .internal _ _ childSummaries childTrees => do
      let entry := if self.descend then entry
        else { entry with index := entry.index + 1, position := self.position }
      let (entry, position, _) :=
        skipChildren filterNode (childSummaries.drop entry.index) entry self.position
      match childTrees[entry.index]? with
      | some subtree =>
        let stack ← pushEntry (entry :: rest) ⟨subtree, 0, position⟩
        .ok (.next ⟨stack, position, true⟩)
      | none => .ok (.next ⟨rest, position, false⟩)
    | .leaf _ _ itemSummaries => do
      let (entry, position) ← if self.descend then .ok (entry, self.position)
        else do
          let itemSummary ← index itemSummaries entry.index
          .ok ({ entry with
              index := entry.index + 1
              position := Dimension.addSummary entry.position itemSummary },
            Dimension.addSummary self.position itemSummary)
      let (entry, position, found) :=
        skipChildren filterNode (itemSummaries.drop entry.index) entry position
      if found then .ok (.done ⟨entry :: rest, position, true⟩)
      else .ok (.next ⟨rest, position, false⟩)

/-- The first half of `search_forward`: an empty stack that is not at the end
starts at the root. -/
def startForward (self : Cursor T S D) : Result (Cursor T S D × Bool) :=
  if self.stack.isEmpty then
    if self.atEnd then .ok ({ self with didSeek := true }, false)
    else do
      let stack ← pushEntry self.stack ⟨self.tree, 0, Dimension.zero S⟩
      .ok ({ self with stack, didSeek := true }, true)
  else .ok (self, false)

/-- `search_forward`. -/
def searchForward (filterNode : S → Bool) (self : Cursor T S D) : Result (Cursor T S D) := do
  let (self, descend) ← self.startForward
  let landed ← loop .outOfFuel (searchForwardPass filterNode) (stackFuel self.stack)
    ⟨self.stack, self.position, descend⟩
  .ok { self with
    stack := landed.stack
    position := landed.position
    atEnd := if landed.found then self.atEnd else landed.stack.isEmpty }

/-- `next`. -/
def next (self : Cursor T S D) : Result (Cursor T S D) := self.searchForward fun _ => true

end Cursor

/-! ### Seeking -/

/-- What a seek collects from the items it passes. -/
class SeekAggregate (A T S : Type) where
  beginLeaf : A → A
  endLeaf : A → Result A
  pushItem : A → T → S → Result A
  pushTree : A → SumTree T S → S → Result A

/-- Nothing is collected. -/
instance SeekAggregate.unit {T S : Type} : SeekAggregate Unit T S where
  beginLeaf a := a
  endLeaf a := .ok a
  pushItem a _ _ := .ok a
  pushTree a _ _ := .ok a

/-- `SliceSeekAggregate`: the tree over what was passed, and the items of the leaf
that is being passed. -/
structure SliceSeekAggregate (T S : Type) where
  tree : SumTree T S
  leafItems : List T
  leafItemSummaries : List S
  leafSummary : S

instance SeekAggregate.slice {T S : Type} [Zero S] [Add S] [Item T S] :
    SeekAggregate (SliceSeekAggregate T S) T S where
  beginLeaf a := a
  endLeaf a := do
    let tree ← a.tree.append (.leaf a.leafSummary a.leafItems a.leafItemSummaries)
    .ok ⟨tree, [], [], 0⟩
  pushItem a item summary := do
    let leafItems ← push a.leafItems item
    let leafItemSummaries ← push a.leafItemSummaries summary
    .ok { a with leafItems, leafItemSummaries, leafSummary := a.leafSummary + summary }
  pushTree a tree _ := do
    let tree ← a.tree.append tree
    .ok { a with tree }

/-- `SummarySeekAggregate`. -/
structure SummarySeekAggregate (D : Type) where
  summary : D

instance SeekAggregate.summary {T S D : Type} [Dimension D S] :
    SeekAggregate (SummarySeekAggregate D) T S where
  beginLeaf a := a
  endLeaf a := .ok a
  pushItem a _ summary := .ok ⟨Dimension.addSummary a.summary summary⟩
  pushTree a _ summary := .ok ⟨Dimension.addSummary a.summary summary⟩

/-- Whether a seek moves past an item or a tree that ends where `comparison` says. -/
def passes (bias : Bias) (comparison : Ordering) : Bool :=
  comparison = .gt || (comparison = .eq && bias = .right)

namespace Cursor

variable {T S D A : Type} [Dimension D S] [SeekAggregate A T S]

/-- What the loop of `seek_internal` works on. -/
structure Seeking (T S D A : Type) where
  stack : List (StackEntry T S D)
  position : D
  aggregate : A
  ascending : Bool

/-- The `for` loop over child trees in `seek_internal`, with the child it
descends into. -/
def seekTrees (target : SeekTarget D) (bias : Bias) :
    List (SumTree T S × S) → StackEntry T S D → D → A →
      Result (StackEntry T S D × D × A × Option (SumTree T S))
  | [], entry, position, aggregate => .ok (entry, position, aggregate, none)
  | (childTree, childSummary) :: rest, entry, position, aggregate =>
    let childEnd := Dimension.addSummary position childSummary
    if passes bias (target childEnd) then do
      let aggregate ← SeekAggregate.pushTree aggregate childTree childSummary
      seekTrees target bias rest { entry with index := entry.index + 1, position := childEnd }
        childEnd aggregate
    else .ok (entry, position, aggregate, some childTree)

/-- The `for` loop over items in `seek_internal`, and whether it breaks out of
both loops. -/
def seekItems (target : SeekTarget D) (bias : Bias) :
    List (T × S) → StackEntry T S D → D → A → Result (StackEntry T S D × D × A × Bool)
  | [], entry, position, aggregate => .ok (entry, position, aggregate, false)
  | (item, itemSummary) :: rest, entry, position, aggregate =>
    let childEnd := Dimension.addSummary position itemSummary
    if passes bias (target childEnd) then do
      let aggregate ← SeekAggregate.pushItem aggregate item itemSummary
      seekItems target bias rest { entry with index := entry.index + 1 } childEnd aggregate
    else .ok (entry, position, aggregate, true)

/-- One pass of the loop of `seek_internal`. -/
def seekPass (target : SeekTarget D) (bias : Bias) (self : Seeking T S D A) :
    Result (Pass (Seeking T S D A) (List (StackEntry T S D) × D × A)) :=
  match self.stack with
  | [] => .ok (.done ([], self.position, self.aggregate))
  | entry :: rest =>
    match entry.tree with
    | .internal _ _ childSummaries childTrees => do
      let entry := if self.ascending then
          { entry with index := entry.index + 1, position := self.position }
        else entry
      let trees ← sliceFrom childTrees entry.index
      let summaries ← sliceFrom childSummaries entry.index
      let (entry, position, aggregate, child) ←
        seekTrees target bias (trees.zip summaries) entry self.position self.aggregate
      match child with
      | some childTree =>
        let stack ← pushEntry (entry :: rest) ⟨childTree, 0, position⟩
        .ok (.next ⟨stack, position, aggregate, false⟩)
      | none => .ok (.next ⟨rest, position, aggregate, true⟩)
    | .leaf _ items itemSummaries => do
      let aggregate := SeekAggregate.beginLeaf T S self.aggregate
      let items ← sliceFrom items entry.index
      let summaries ← sliceFrom itemSummaries entry.index
      let (entry, position, aggregate, stopped) ←
        seekItems target bias (items.zip summaries) entry self.position aggregate
      let aggregate ← SeekAggregate.endLeaf T S aggregate
      if stopped then .ok (.done (entry :: rest, position, aggregate))
      else .ok (.next ⟨rest, position, aggregate, true⟩)

/-- The start of `seek_internal`: a cursor that was not moved starts at the root. -/
def startSeek (self : Cursor T S D) : Result (List (StackEntry T S D)) :=
  if self.didSeek then .ok self.stack
  else pushEntry self.stack ⟨self.tree, 0, Dimension.zero S⟩

/-- The end of `seek_internal`: the location that is compared with the target. -/
def endOfSeek (bias : Bias) (self : Cursor T S D) : Result D :=
  if bias = .left then do
    match ← self.itemSummary with
    | some summary => .ok (Dimension.addSummary self.position summary)
    | none => .ok self.position
  else .ok self.position

/-- `seek_internal`, with the aggregate it leaves and whether it found the
target. -/
def seekInternal (target : SeekTarget D) (bias : Bias) (self : Cursor T S D) (aggregate : A) :
    Result (Cursor T S D × A × Bool) :=
  if (target self.position).isGE then do
    let stack ← self.startSeek
    let (stack, position, aggregate) ← loop .outOfFuel (seekPass target bias) (stackFuel stack)
      ⟨stack, self.position, aggregate, false⟩
    let self := { self with stack, position, didSeek := true, atEnd := stack.isEmpty }
    let endPosition ← self.endOfSeek bias
    .ok (self, aggregate, target endPosition = .eq)
  else .error .seekBackward

/-- `seek_forward`. -/
def seekForward (target : SeekTarget D) (bias : Bias) (self : Cursor T S D) :
    Result (Cursor T S D × Bool) := do
  let (self, (), found) ← self.seekInternal target bias ()
  .ok (self, found)

/-- `seek`. -/
def seek (target : SeekTarget D) (bias : Bias) (self : Cursor T S D) :
    Result (Cursor T S D × Bool) :=
  self.reset.seekForward target bias

/-- `slice`. -/
def slice [Zero S] [Add S] [Item T S] (target : SeekTarget D) (bias : Bias)
    (self : Cursor T S D) : Result (Cursor T S D × SumTree T S) := do
  let (self, slice, _) ←
    self.seekInternal target bias (⟨.new, [], [], 0⟩ : SliceSeekAggregate T S)
  .ok (self, slice.tree)

/-- `suffix`. -/
def suffix [Zero S] [Add S] [Item T S] (self : Cursor T S D) :
    Result (Cursor T S D × SumTree T S) :=
  self.slice SeekTarget.endOfTree .right

/-- `summary`. -/
def summary (Output : Type) [Dimension Output S] (target : SeekTarget D) (bias : Bias)
    (self : Cursor T S D) : Result (Cursor T S D × Output) := do
  let (self, summary, _) ←
    self.seekInternal target bias (⟨Dimension.zero S⟩ : SummarySeekAggregate Output)
  .ok (self, summary.summary)

/-- The start of `Iterator::next` for `Cursor`: a cursor that was not moved goes to the
first item. -/
def startIter (self : Cursor T S D) : Result (Cursor T S D) :=
  if self.didSeek then .ok self else self.next

/-- `Iterator::next` for `Cursor`. -/
def iterNext (self : Cursor T S D) : Result (Cursor T S D × Option T) := do
  let self ← self.startIter
  match ← self.item with
  | some item => do
    let self ← self.next
    .ok (self, some item)
  | none => .ok (self, none)

end Cursor

/-! ### Iterators -/

/-- `Iter`. -/
structure Iter (T S : Type) where
  tree : SumTree T S
  stack : List (StackEntry T S Unit)

namespace Iter

variable {T S : Type}

/-- `Iter::new`. -/
def new (tree : SumTree T S) : Iter T S := ⟨tree, []⟩

/-- One pass of the loop of `Iter::next`, over the stack and the flag `descend`. -/
def nextPass (self : List (StackEntry T S Unit) × Bool) :
    Result (Pass (List (StackEntry T S Unit) × Bool) (List (StackEntry T S Unit) × Option T)) :=
  match self.1 with
  | [] => .ok (.done ([], none))
  | entry :: rest =>
    let entry := if self.2 then entry else { entry with index := entry.index + 1 }
    match entry.tree with
    | .internal _ _ _ childTrees =>
      match childTrees[entry.index]? with
      | some subtree => do
        let stack ← pushEntry (entry :: rest) ⟨subtree, 0, ()⟩
        .ok (.next (stack, true))
      | none => .ok (.next (rest, false))
    | .leaf _ items _ =>
      match items[entry.index]? with
      | some nextItem => .ok (.done (entry :: rest, some nextItem))
      | none => .ok (.next (rest, false))

/-- The start of `Iter::next`: an empty stack starts at the root. -/
def start (self : Iter T S) : Result (List (StackEntry T S Unit) × Bool) :=
  if self.stack.isEmpty then do
    let stack ← pushEntry self.stack ⟨self.tree, 0, ()⟩
    .ok (stack, true)
  else .ok (self.stack, false)

/-- `Iter::next`. -/
def next (self : Iter T S) : Result (Iter T S × Option T) := do
  let (stack, descend) ← self.start
  let (stack, item) ← loop .outOfFuel nextPass (stackFuel stack) (stack, descend)
  .ok ({ self with stack }, item)

end Iter

/-- One call of an iterator whose items are collected. -/
def collectPass {ι T : Type} (next : ι → Result (ι × Option T)) (state : ι × List T) :
    Result (Pass (ι × List T) (List T)) := do
  let (iter, item) ← next state.1
  match item with
  | some item => .ok (.next (iter, state.2 ++ [item]))
  | none => .ok (.done state.2)

/-- What an iterator over a tree yields before its first `None`.  There is fuel for
as many calls as the tree has items. -/
def collectIter {ι T S : Type} (next : ι → Result (ι × Option T)) (tree : SumTree T S) (iter : ι) :
    Result (List T) :=
  loop .outOfFuel (collectPass next) tree.weight (iter, [])

/-- One pass of `while let Some(item) = cursor.item() { …; cursor.next(); }`. -/
def Cursor.forEachPass {T S D β : Type} [Dimension D S] (body : β → T → Result β)
    (state : Cursor T S D × β) : Result (Pass (Cursor T S D × β) β) := do
  match ← state.1.item with
  | some item => do
    let result ← body state.2 item
    let cursor ← state.1.next
    .ok (.next (cursor, result))
  | none => .ok (.done state.2)

/-- `while let Some(item) = cursor.item() { …; cursor.next(); }`. -/
def Cursor.forEach {T S D β : Type} [Dimension D S] (body : β → T → Result β) (self : Cursor T S D)
    (init : β) : Result β :=
  loop .outOfFuel (forEachPass body) self.tree.weight (self, init)

/-- `SumTree::items`. -/
def SumTree.collectItems {T S : Type} (self : SumTree T S) : Result (List T) := do
  let cursor ← (Cursor.new self : Cursor T S Unit).next
  cursor.forEach (fun items item => .ok (items ++ [item])) []

end Zui
