/-
A cursor at rest, and what can be read off it.

A cursor that is not in the middle of a move is at one of four kinds of places of
the item sequence (`Place`): it was not moved yet, or it is before the first item,
on an item, or behind the last one.  `Cursor.At` says how each of them is
represented.  Not yet moved and before the first item differ in two ways: the
item queries panic on a cursor that was not moved, and `prev` takes it to the last
item.

* `item_spec`, `nextItem_spec`, `prevItem_spec` — the item at the place and its
  neighbours;
* `start_spec`, `endPosition_spec` — the positions before and behind the item.
-/
import Zui.SumTree.Ends
import Zui.SumTree.Path

namespace Zui

/-- A place in a sequence of items. -/
inductive Place (T : Type)
  | fresh
  | beforeFirst
  | item (done : List T) (x : T) (todo : List T)
  | afterLast

namespace Place

variable {T : Type}

/-- The items before a place. -/
def done (items : List T) : Place T → List T
  | fresh => []
  | beforeFirst => []
  | item done _ _ => done
  | afterLast => items

/-- The item at a place. -/
def current : Place T → Option T
  | item _ x _ => some x
  | _ => none

/-- The item that `next` goes to. -/
def following (items : List T) : Place T → Option T
  | fresh => items.head?
  | beforeFirst => items.head?
  | item _ _ todo => todo.head?
  | afterLast => none

/-- The item that `prev` goes to. -/
def preceding (items : List T) : Place T → Option T
  | fresh => items.getLast?
  | beforeFirst => none
  | item done _ _ => done.getLast?
  | afterLast => items.getLast?

/-- The items up to a place, with the item at the place. -/
def upTo (items : List T) (p : Place T) : List T := p.done items ++ p.current.toList

/-- The items from a place on, with the item at the place. -/
def onward (items : List T) : Place T → List T
  | fresh => []
  | beforeFirst => items
  | item _ x todo => x :: todo
  | afterLast => []

/-- Where a move to the right may end that has left the items `done` behind: at an
item that it stops at, or behind the last one. -/
def Lands (stops : T → Prop) (items done : List T) : Place T → Prop
  | item done' x todo => done' = done ∧ items = done ++ x :: todo ∧ stops x
  | afterLast => items = done
  | _ => False

/-- Where a move to the left may end that has left the items `todo` behind. -/
def LandsBack (stops : T → Prop) (items todo : List T) : Place T → Prop
  | item done x todo' => todo' = todo ∧ items = done ++ x :: todo ∧ stops x
  | beforeFirst => items = todo
  | _ => False

end Place

namespace Cursor

open SumTree

variable {T S D : Type}

/-- How a cursor represents the place it is at. -/
def At (Pos : List T → D → Prop) (c : Cursor T S D) : Place T → Prop
  | .fresh => c.didSeek = false ∧ c.stack = [] ∧ Pos [] c.position ∧ c.atEnd = c.tree.isEmpty
  | .beforeFirst => c.didSeek = true ∧ c.stack = [] ∧ Pos [] c.position ∧
      c.atEnd = c.tree.isEmpty
  | .item done x todo => c.didSeek = true ∧ OnItem Pos c.tree c.stack done x todo ∧
      Pos done c.position ∧ c.atEnd = false
  | .afterLast => c.didSeek = true ∧ c.stack = [] ∧ Pos c.tree.toList c.position ∧ c.atEnd = true

variable {Pos : List T → D → Prop} {c : Cursor T S D} {p : Place T}

theorem start_spec (h : c.At Pos p) : Pos (p.done c.tree.toList) c.start := by
  cases p with
  | fresh => exact h.2.2.1
  | beforeFirst => exact h.2.2.1
  | item done x todo => exact h.2.2.1
  | afterLast => exact h.2.2.1

theorem didSeek_spec (h : c.At Pos p) (hp : p ≠ .fresh) : c.didSeek = true := by
  cases p with
  | fresh => exact absurd rfl hp
  | beforeFirst => exact h.1
  | item done x todo => exact h.1
  | afterLast => exact h.1

theorem assertDidSeek_ok (h : c.didSeek = true) : c.assertDidSeek = .ok () := if_pos h

theorem queries_fresh (h : c.didSeek = false) :
    c.item = .error .didNotSeek ∧ c.itemSummary = .error .didNotSeek ∧
      c.nextItem = .error .didNotSeek ∧ c.prevItem = .error .didNotSeek := by
  have hassert : c.assertDidSeek = .error .didNotSeek := by simp [assertDidSeek, h]
  refine ⟨?_, ?_, ?_, ?_⟩
  · rw [item, hassert]; rfl
  · rw [itemSummary, hassert]; rfl
  · rw [nextItem, hassert]; rfl
  · rw [prevItem, hassert]; rfl

theorem item_of_nil (hd : c.didSeek = true) (hs : c.stack = []) : c.item = .ok none := by
  rw [item, assertDidSeek_ok hd, hs]
  rfl

theorem itemSummary_of_nil (hd : c.didSeek = true) (hs : c.stack = []) :
    c.itemSummary = .ok none := by
  rw [itemSummary, assertDidSeek_ok hd, hs]
  rfl

/-- `item` returns the item at the place. -/
theorem item_spec (h : c.At Pos p) (hp : p ≠ .fresh) : c.item = .ok p.current := by
  have hd := didSeek_spec h hp
  match p, h with
  | .fresh, _ => exact absurd rfl hp
  | .beforeFirst, h => exact item_of_nil hd h.2.1
  | .afterLast, h => exact item_of_nil hd h.2.1
  | .item done x todo, h =>
    obtain ⟨tree, stack, position, didSeek, atEnd⟩ := c
    obtain ⟨-, hon, -, -⟩ := h
    rw [item, assertDidSeek_ok hd]
    cases hon with
    | leaf hpath => simp [Place.current]

variable [Zero S] [Add S] [Item T S]

theorem itemSummary_spec (hr : Valid c.tree) (h : c.At Pos p) (hp : p ≠ .fresh) :
    c.itemSummary = .ok (p.current.map Item.summary) := by
  have hd := didSeek_spec h hp
  match p, h with
  | .fresh, _ => exact absurd rfl hp
  | .beforeFirst, h => exact itemSummary_of_nil hd h.2.1
  | .afterLast, h => exact itemSummary_of_nil hd h.2.1
  | .item done x todo, h =>
    obtain ⟨tree, stack, position, didSeek, atEnd⟩ := c
    obtain ⟨-, hon, -, -⟩ := h
    rw [itemSummary, assertDidSeek_ok hd]
    cases hon with
    | @leaf rest s ss l r pre post x q hpath =>
      obtain ⟨-, rfl⟩ := (hpath.valid hr).1.leafItems
      have hne : l.length ≠ ((l ++ x :: r).map (Item.summary (S := S))).length := by simp
      simp only [ok_bind, if_neg hne, index_map_append]
      rfl

theorem at_new [Dimension D S] (hpos : Tracks (S := S) Pos) (tree : SumTree T S) :
    (new tree : Cursor T S D).At Pos .fresh :=
  ⟨rfl, rfl, hpos.zero, rfl⟩

theorem at_reset [Dimension D S] (hpos : Tracks (S := S) Pos) (c : Cursor T S D) :
    c.reset.At Pos .fresh :=
  ⟨rfl, rfl, hpos.zero, rfl⟩

/-- `end` adds the item at the place, if there is one. -/
theorem endPosition_spec [Dimension D S] (hpos : Tracks (S := S) Pos) (hr : Valid c.tree)
    (h : c.At Pos p) (hp : p ≠ .fresh) :
    ∃ q, c.endPosition = .ok q ∧ Pos (p.upTo c.tree.toList) q := by
  have hstart := start_spec h
  rw [endPosition, itemSummary_spec hr h hp, ok_bind, Place.upTo]
  cases hcur : p.current with
  | none => exact ⟨_, rfl, by simpa using hstart⟩
  | some x => exact ⟨_, rfl, hpos.item x hstart⟩

/-! ### Neighbours -/

theorem checkedSub_length_one {α : Type} (l r : List α) (x : α) :
    checkedSub (l ++ x :: r).length 1 = .ok (l.length + r.length) := by
  rw [checkedSub_ok (by rw [List.length_append, List.length_cons]; omega)]
  simp

/-- The leaf after the node that a path leads to holds the items that follow. -/
theorem nextLeaf_spec {root node : SumTree T S} {stack : List (StackEntry T S D)}
    {pre post : List T} (hr : Valid root) (hp : Path Pos root stack node pre post) :
    (nextLeaf stack = .ok none ∧ post = []) ∨
    ∃ s ss xs rest, nextLeaf stack = .ok (some (.leaf s xs ss)) ∧ xs ≠ [] ∧ post = xs ++ rest := by
  induction hp with
  | root => exact Or.inl ⟨rfl, rfl⟩
  | @down stack h s ss l r c pre post q hp _ ih =>
    have hch := (hp.valid hr).1.children
    rw [nextLeaf, childTrees_internal, ok_bind, checkedSub_length_one, ok_bind]
    cases r with
    | nil =>
      rw [if_neg (by simp)]
      simpa using ih
    | cons u r =>
      right
      obtain ⟨s', ss', xs, rest, hleaf, hne, hlist⟩ := leftmostLeaf_spec (hch.wf u (by simp))
      have hindex : index (l ++ c :: u :: r) (l.length + 1) = .ok u := by
        have := index_append (l ++ [c]) r u
        simpa using this
      rw [if_pos (by simp), hindex, ok_bind, hleaf]
      exact ⟨s', ss', xs, rest ++ (listItems r ++ post), rfl, hne, by simp [hlist]⟩

/-- The leaf before the node that a path leads to holds the items that precede it. -/
theorem prevLeaf_spec {root node : SumTree T S} {stack : List (StackEntry T S D)}
    {pre post : List T} (hr : Valid root) (hp : Path Pos root stack node pre post) :
    (prevLeaf stack = .ok none ∧ pre = []) ∨
    ∃ s ss xs rest, prevLeaf stack = .ok (some (.leaf s xs ss)) ∧ xs ≠ [] ∧ pre = rest ++ xs := by
  induction hp with
  | root => exact Or.inl ⟨rfl, rfl⟩
  | @down stack h s ss l r c pre post q hp _ ih =>
    have hch := (hp.valid hr).1.children
    rw [prevLeaf]
    rcases List.eq_nil_or_concat l with rfl | ⟨l, u, rfl⟩
    · rw [if_neg (by simp)]
      simpa using ih
    · right
      rw [List.concat_eq_append] at *
      obtain ⟨s', ss', xs, rest, hleaf, hne, hlist⟩ := rightmostLeaf_spec (hch.wf u (by simp))
      have hindex : index (l ++ [u] ++ c :: r) ((l ++ [u]).length - 1) = .ok u := by
        simp
      rw [if_pos (by simp), childTrees_internal, ok_bind, hindex, ok_bind, hleaf]
      exact ⟨s', ss', xs, pre ++ listItems l ++ rest, rfl, hne, by simp [hlist]⟩

theorem nextItem_of_nil (hr : Valid c.tree) (hd : c.didSeek = true) (hs : c.stack = []) :
    c.nextItem = .ok (if c.atEnd then none else c.tree.toList.head?) := by
  rw [nextItem, assertDidSeek_ok hd, ok_bind, hs]
  by_cases he : c.atEnd = true
  · simp [he]
  · simp [he, first_spec hr]

theorem prevItem_of_nil (hr : Valid c.tree) (hd : c.didSeek = true) (hs : c.stack = []) :
    c.prevItem = .ok (if c.atEnd then c.tree.toList.getLast? else none) := by
  rw [prevItem, assertDidSeek_ok hd, ok_bind, hs]
  by_cases he : c.atEnd = true
  · simp [he, last_spec hr]
  · simp [he]

/-- `next_item` returns the item that follows the place. -/
theorem nextItem_spec (hr : Valid c.tree) (h : c.At Pos p) (hp : p ≠ .fresh) :
    c.nextItem = .ok (p.following c.tree.toList) := by
  have hd := didSeek_spec h hp
  match p, h with
  | .fresh, _ => exact absurd rfl hp
  | .afterLast, h =>
    rw [nextItem_of_nil hr hd h.2.1, h.2.2.2]
    rfl
  | .beforeFirst, h =>
    rw [nextItem_of_nil hr hd h.2.1, h.2.2.2, hr.isEmpty_eq, Place.following]
    cases c.tree.toList <;> rfl
  | .item done x todo, h =>
    obtain ⟨tree, stack, position, didSeek, atEnd⟩ := c
    obtain ⟨-, hon, -, -⟩ := h
    rw [nextItem, assertDidSeek_ok hd, ok_bind, Place.following]
    cases hon with
    | @leaf rest s ss l r pre post x q hpath =>
      simp only [items_leaf, ok_bind, checkedSub_length_one]
      cases r with
      | nil =>
        -- The last item of its leaf is followed by the first one of the next leaf.
        rw [if_pos (by simp)]
        rcases nextLeaf_spec hr hpath with ⟨hnone, rfl⟩ | ⟨s', ss', xs, tail, hsome, hne, rfl⟩
        · simp [hnone]
        · obtain ⟨y, ys, rfl⟩ := List.exists_cons_of_ne_nil hne
          simp [hsome, unwrap]
      | cons y r =>
        have hindex : index (l ++ x :: y :: r) (l.length + 1) = .ok y := by
          have := index_append (l ++ [x]) r y
          simpa using this
        rw [if_neg (by simp), hindex]
        rfl

/-- `prev_item` returns the item that precedes the place. -/
theorem prevItem_spec (hr : Valid c.tree) (h : c.At Pos p) (hp : p ≠ .fresh) :
    c.prevItem = .ok (p.preceding c.tree.toList) := by
  have hd := didSeek_spec h hp
  match p, h with
  | .fresh, _ => exact absurd rfl hp
  | .afterLast, h =>
    rw [prevItem_of_nil hr hd h.2.1, h.2.2.2]
    rfl
  | .beforeFirst, h =>
    rw [prevItem_of_nil hr hd h.2.1, h.2.2.2, hr.isEmpty_eq, Place.preceding]
    cases c.tree.toList <;> rfl
  | .item done x todo, h =>
    obtain ⟨tree, stack, position, didSeek, atEnd⟩ := c
    obtain ⟨-, hon, -, -⟩ := h
    rw [prevItem, assertDidSeek_ok hd, ok_bind, Place.preceding]
    cases hon with
    | @leaf rest s ss l r pre post x q hpath =>
      rcases List.eq_nil_or_concat l with rfl | ⟨l, y, rfl⟩
      · -- The first item of its leaf is preceded by the last one of the leaf before.
        simp only [List.length_nil, if_true]
        rcases prevLeaf_spec hr hpath with ⟨hnone, rfl⟩ | ⟨s', ss', xs, tail, hsome, hne, rfl⟩
        · simp [hnone]
        · obtain ⟨ys, y, rfl⟩ := List.eq_nil_or_concat xs |>.resolve_left hne
          simp [hsome, unwrap]
      · rw [List.concat_eq_append] at *
        have hindex : index (l ++ [y] ++ x :: r) ((l ++ [y]).length - 1) = .ok y := by
          simp
        simp only [List.length_append, List.length_singleton, Nat.succ_ne_zero, if_false,
          items_leaf, ok_bind]
        rw [List.length_append, List.length_singleton] at hindex
        rw [hindex]
        simp

end Cursor

end Zui
