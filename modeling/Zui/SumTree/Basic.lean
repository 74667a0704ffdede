/-
The data model of the sum tree.

A `SumTree` is a B+ tree: a leaf stores items with one summary each, an internal
node stores child trees with one summary each, and every node caches the sum of
the summaries below it.  Items are summarised by `Item.summary`; a `Dimension`
accumulates summaries into a coordinate along the tree.

Design notes:

* the node arrays have a fixed capacity of `2 * TREE_BASE`; `collect`, `push`,
  `extend` and `insertFront` fail with `Panic.capacity` past it, as the Rust
  arrays do;
* every panic of the Rust code is a value of `Panic`, and a function that can
  panic returns in `Except Panic`;
* the height of an internal node is a `u8`: building a node of height 256 is the
  error `Panic.arithmeticOverflow`;
* the context `cx` that Rust threads through every call is fixed, so it is part
  of the instances below and not an argument;
* an `Arc` shares a node without changing its value, so cloning a tree is using
  it twice.
-/
import Zui.Library.Loop

namespace Zui

/-- `TREE_BASE`, outside of test builds. -/
def TREE_BASE : ℕ := 6

/-- The ways in which the sum tree code panics. -/
inductive Panic
  /-- `unwrap_oob`, or an `extend` or `collect` past the capacity of an array. -/
  | capacity
  /-- `unwrap` of a `None`. -/
  | unwrapNone
  /-- `unreachable!()`. -/
  | unreachable
  /-- "Leaf nodes have no child trees". -/
  | noChildTrees
  /-- "Internal nodes have no items". -/
  | noItems
  /-- A slice or array index past the end. -/
  | indexOutOfBounds
  /-- An addition or subtraction that leaves its integer type. -/
  | arithmeticOverflow
  /-- "cannot seek backward". -/
  | seekBackward
  /-- "Must call `seek`, `next` or `prev` before calling this method". -/
  | didNotSeek
  /-- Not a panic of the code: a loop of the model used up its fuel. -/
  | outOfFuel
  deriving DecidableEq, Repr

/-- What a function that may panic returns. -/
abbrev Result (α : Type) : Type := Except Panic α

/-- An item of a tree, with its summary. -/
class Item (T : Type) (S : outParam Type) where
  summary : T → S

/-- A dimension of the summaries `S`: a starting point and how a summary moves
it on. -/
class Dimension (D S : Type) where
  zero : D
  addSummary : D → S → D

/-- A summary is a dimension of itself. -/
instance Dimension.self {S : Type} [Zero S] [Add S] : Dimension S S where
  zero := 0
  addSummary := (· + ·)

/-- The dimension `()`. -/
instance Dimension.unit {S : Type} : Dimension Unit S where
  zero := ()
  addSummary _ _ := ()

/-- A seek target, by how it compares with a cursor location. -/
abbrev SeekTarget (D : Type) : Type := D → Ordering

/-- The target `End`, beyond every location. -/
def SeekTarget.endOfTree {D : Type} : SeekTarget D := fun _ => .gt

/-- How a seek settles a target that falls on an item boundary. -/
inductive Bias
  | left
  | right
  deriving DecidableEq, Repr

/-- `sum`: the summaries of an iterator, added up in order from zero. -/
def sum {S : Type} [Zero S] [Add S] (summaries : List S) : S :=
  summaries.foldl (· + ·) 0

/-! ### Fixed-capacity arrays -/

/-- `collect` into an array of capacity `2 * TREE_BASE`. -/
def collect {α : Type} (xs : List α) : Result (List α) :=
  if xs.length ≤ 2 * TREE_BASE then .ok xs else .error .capacity

/-- `push`, then `unwrap_oob`. -/
def push {α : Type} (xs : List α) (x : α) : Result (List α) := collect (xs ++ [x])

/-- `extend`. -/
def extend {α : Type} (xs ys : List α) : Result (List α) := collect (xs ++ ys)

/-- `insert(0, x)`, then `unwrap_oob`. -/
def insertFront {α : Type} (x : α) (xs : List α) : Result (List α) := collect (x :: xs)

/-- An iterator collected into two arrays: `by_ref().take(midpoint)`, and the
rest. -/
def collectHalves {α : Type} (xs : List α) (midpoint : ℕ) : Result (List α × List α) := do
  let left ← collect (xs.take midpoint)
  let right ← collect (xs.drop midpoint)
  .ok (left, right)

/-- `unwrap` of an option. -/
def unwrap {α : Type} : Option α → Result α
  | some a => .ok a
  | none => .error .unwrapNone

/-- The slice `xs[i..]`. -/
def sliceFrom {α : Type} (xs : List α) (i : ℕ) : Result (List α) :=
  if i ≤ xs.length then .ok (xs.drop i) else .error .indexOutOfBounds

/-- The slice `xs[..i]`. -/
def sliceTo {α : Type} (xs : List α) (i : ℕ) : Result (List α) :=
  if i ≤ xs.length then .ok (xs.take i) else .error .indexOutOfBounds

/-- The element `xs[i]`. -/
def index {α : Type} (xs : List α) (i : ℕ) : Result α :=
  match xs[i]? with
  | some x => .ok x
  | none => .error .indexOutOfBounds

/-- `*xs.first_mut().unwrap() = x`. -/
def setFirst {α : Type} (x : α) : List α → Result (List α)
  | [] => .error .unwrapNone
  | _ :: xs => .ok (x :: xs)

/-- `*xs.last_mut().unwrap() = x`. -/
def setLast {α : Type} (xs : List α) (x : α) : Result (List α) :=
  if xs.isEmpty then .error .unwrapNone else .ok (xs.dropLast ++ [x])

/-- The subtraction `m - n` of unsigned integers. -/
def checkedSub (m n : ℕ) : Result ℕ :=
  if n ≤ m then .ok (m - n) else .error .arithmeticOverflow

/-- The addition `height + 1` of a `u8`. -/
def succHeight (height : ℕ) : Result ℕ :=
  if height + 1 < 256 then .ok (height + 1) else .error .arithmeticOverflow

section Arrays

variable {α : Type}

theorem collect_ok {xs : List α} (h : xs.length ≤ 2 * TREE_BASE) : collect xs = .ok xs :=
  if_pos h

theorem push_ok {xs : List α} {x : α} (h : xs.length < 2 * TREE_BASE) :
    push xs x = .ok (xs ++ [x]) :=
  collect_ok (by simp; omega)

theorem extend_ok {xs ys : List α} (h : xs.length + ys.length ≤ 2 * TREE_BASE) :
    extend xs ys = .ok (xs ++ ys) :=
  collect_ok (by simpa using h)

theorem insertFront_ok {x : α} {xs : List α} (h : xs.length < 2 * TREE_BASE) :
    insertFront x xs = .ok (x :: xs) :=
  collect_ok (by simp; omega)

theorem collectHalves_ok {xs : List α} {midpoint : ℕ} (hl : midpoint ≤ 2 * TREE_BASE)
    (hr : xs.length - midpoint ≤ 2 * TREE_BASE) :
    collectHalves xs midpoint = .ok (xs.take midpoint, xs.drop midpoint) := by
  rw [collectHalves, collect_ok (by rw [List.length_take]; omega), ok_bind,
    collect_ok (by rwa [List.length_drop]), ok_bind]

@[simp] theorem setFirst_cons (x y : α) (xs : List α) : setFirst x (y :: xs) = .ok (x :: xs) := rfl

theorem setLast_concat (xs : List α) (x y : α) : setLast (xs ++ [x]) y = .ok (xs ++ [y]) := by
  simp [setLast]

@[simp] theorem sliceFrom_append (xs ys : List α) :
    sliceFrom (xs ++ ys) xs.length = .ok ys := by
  simp [sliceFrom]

@[simp] theorem sliceFrom_map_append {β : Type} (f : α → β) (xs ys : List α) :
    sliceFrom ((xs ++ ys).map f) xs.length = .ok (ys.map f) := by
  simp [sliceFrom]

@[simp] theorem sliceTo_map_append {β : Type} (f : α → β) (xs ys : List α) :
    sliceTo ((xs ++ ys).map f) xs.length = .ok (xs.map f) := by
  simp [sliceTo]

@[simp] theorem index_map_append {β : Type} (f : α → β) (xs ys : List α) (x : α) :
    index ((xs ++ x :: ys).map f) xs.length = .ok (f x) := by
  simp [index]

@[simp] theorem index_append (xs ys : List α) (x : α) :
    index (xs ++ x :: ys) xs.length = .ok x := by
  simp [index]

theorem checkedSub_ok {m n : ℕ} (h : n ≤ m) : checkedSub m n = .ok (m - n) := if_pos h

theorem succHeight_ok {height : ℕ} (h : height < 255) :
    succHeight height = .ok (height + 1) :=
  if_pos (by omega)

end Arrays

/-! ### Trees -/

/-- `SumTree`, with the two kinds of `Node`. -/
inductive SumTree (T S : Type)
  | internal (height : ℕ) (summary : S) (childSummaries : List S)
      (childTrees : List (SumTree T S))
  | leaf (summary : S) (items : List T) (itemSummaries : List S)

namespace SumTree

variable {T S : Type}

/-- `Node::is_leaf`. -/
def isLeaf : SumTree T S → Bool
  | internal .. => false
  | leaf .. => true

/-- `Node::height`. -/
def height : SumTree T S → ℕ
  | internal height .. => height
  | leaf .. => 0

/-- `Node::summary`. -/
def summary : SumTree T S → S
  | internal _ summary _ _ => summary
  | leaf summary _ _ => summary

/-- `Node::child_summaries`. -/
def childSummaries : SumTree T S → List S
  | internal _ _ childSummaries _ => childSummaries
  | leaf _ _ itemSummaries => itemSummaries

/-- `Node::child_trees`. -/
def childTrees : SumTree T S → Result (List (SumTree T S))
  | internal _ _ _ childTrees => .ok childTrees
  | leaf .. => .error .noChildTrees

/-- `Node::items`. -/
def items : SumTree T S → Result (List T)
  | internal .. => .error .noItems
  | leaf _ items _ => .ok items

/-- `Node::is_underflowing`. -/
def isUnderflowing : SumTree T S → Bool
  | internal _ _ _ childTrees => childTrees.length < TREE_BASE
  | leaf _ items _ => items.length < TREE_BASE

/-- `is_empty`. -/
def isEmpty : SumTree T S → Bool
  | internal .. => false
  | leaf _ items _ => items.isEmpty

section Accessors

variable (h : ℕ) (s : S) (ss : List S) (cs : List (SumTree T S)) (xs : List T)

@[simp] theorem height_internal : (internal h s ss cs).height = h := rfl
@[simp] theorem height_leaf : (leaf s xs ss).height = 0 := rfl
@[simp] theorem summary_internal : (internal h s ss cs).summary = s := rfl
@[simp] theorem summary_leaf : (leaf s xs ss).summary = s := rfl
@[simp] theorem childSummaries_internal : (internal h s ss cs).childSummaries = ss := rfl
@[simp] theorem childSummaries_leaf : (leaf s xs ss).childSummaries = ss := rfl
@[simp] theorem childTrees_internal : (internal h s ss cs).childTrees = .ok cs := rfl
@[simp] theorem items_leaf : (leaf s xs ss).items = .ok xs := rfl
@[simp] theorem isEmpty_internal : (internal h s ss cs).isEmpty = false := rfl
@[simp] theorem isEmpty_leaf : (leaf s xs ss).isEmpty = xs.isEmpty := rfl

end Accessors

mutual

/-- The items below a node, from left to right: what the tree stands for. -/
def toList : SumTree T S → List T
  | internal _ _ _ childTrees => listItems childTrees
  | leaf _ items _ => items

/-- The items below a run of sibling nodes. -/
def listItems : List (SumTree T S) → List T
  | [] => []
  | t :: ts => toList t ++ listItems ts

end

@[simp] theorem toList_internal (h : ℕ) (s : S) (ss : List S) (cs : List (SumTree T S)) :
    (internal h s ss cs).toList = listItems cs := by rw [toList]

@[simp] theorem toList_leaf (s : S) (xs : List T) (ss : List S) :
    (leaf s xs ss).toList = xs := by rw [toList]

@[simp] theorem listItems_nil : listItems ([] : List (SumTree T S)) = [] := by rw [listItems]

@[simp] theorem listItems_cons (t : SumTree T S) (ts : List (SumTree T S)) :
    listItems (t :: ts) = t.toList ++ listItems ts := by rw [listItems]

@[simp] theorem listItems_append (ts us : List (SumTree T S)) :
    listItems (ts ++ us) = listItems ts ++ listItems us := by
  induction ts with
  | nil => simp
  | cons t ts ih => simp [ih]

theorem listItems_take_drop (m : ℕ) (ts : List (SumTree T S)) :
    listItems (ts.take m) ++ listItems (ts.drop m) = listItems ts := by
  rw [← listItems_append, List.take_append_drop]

theorem listItems_flatten (tss : List (List (SumTree T S))) :
    listItems tss.flatten = (tss.map listItems).flatten := by
  induction tss with
  | nil => simp
  | cons ts tss ih => simp [ih]

theorem length_listItems_le {n : ℕ} : ∀ {ts : List (SumTree T S)},
    (∀ t ∈ ts, t.toList.length ≤ n) → (listItems ts).length ≤ ts.length * n := by
  intro ts
  induction ts with
  | nil =>
    intro _
    simp
  | cons t ts ih =>
    intro hts
    have ht : t.toList.length ≤ n := hts t (by simp)
    have hrest := ih fun u hu => hts u (by simp [hu])
    rw [listItems_cons, List.length_append, List.length_cons, Nat.succ_mul]
    omega

/-- `SumTree::new`. -/
def new [Zero S] : SumTree T S := leaf 0 [] []

@[simp] theorem toList_new [Zero S] : (new : SumTree T S).toList = [] := by simp [new]

end SumTree

end Zui
