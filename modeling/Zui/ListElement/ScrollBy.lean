/-
Scrolling by a distance.

`scroll_by` seeks with one cursor, first to the item of the scroll top and then to the height that
it is to scroll to: forward if that is not in front of the item, and from the beginning otherwise.
A scroll top may have an offset that is negative or beyond its item, and only a distance of zero
leaves it so.

Every sum is rounded to single precision.  Where all pixels are multiples of some power of two, and
there are not too many of them, the sums are exact, and so is `scroll_by`.

Main statements:

* `scrolledByCursor_spec` — the cursor is never sought backward, and leads to the pixel offset;
* `InItem.eq_of_scrollTop` — one scroll top in an item is at each height;
* `scrollBy_exact` — the pixel offset behind a scroll, and behind two of them;
* `zero_keeps_negative_offset` — a distance of zero keeps a negative pixel offset, and a distance of
  one pixel may be rounded away.
-/
import Zui.ListElement.Cursor

namespace Zui.ListElement

/-- A scroll top in an item, or at the end of the items. -/
structure InItem (items : List ListItem) (scrollTop : ListOffset) : Prop where
  le : scrollTop.itemIx ≤ items.length
  nonneg : 0 ≤ scrollTop.offsetInItem
  lt : ∀ item, items[scrollTop.itemIx]? = some item → scrollTop.offsetInItem < item.height

namespace StateInner

/-- The pixels that the list is scrolled by. -/
def pixelOffset (self : StateInner) : ℚ := self.scrollTop self.logicalScrollTopOrEdge

/-- The scroll top of `scroll_by`, with the cursor over the tree of the items. -/
def scrolledByCursor (distance : ℚ) (tree : ListItems) (self : StateInner) : Result ListOffset := do
  let currentOffset := self.logicalScrollTopOrEdge
  let (cursor, _) ← (Cursor.new tree : ItemCursor).seek (Count currentOffset.itemIx) .right
  let startPixelOffset := binary32 (cursor.start.height + currentOffset.offsetInItem)
  let newPixelOffset := max (binary32 (startPixelOffset + distance)) 0
  let (cursor, _) ←
    if newPixelOffset ≥ cursor.start.height then cursor.seekForward (Height newPixelOffset) .right
    else cursor.seek (Height newPixelOffset) .right
  .ok ⟨cursor.start.count, binary32 (newPixelOffset - cursor.start.height)⟩

/-- `scroll_by`, but for what it does to a pending scroll and to following the tail. -/
def scrollByCursor (distance : ℚ) (tree : ListItems) (self : StateInner) : Result StateInner :=
  if distance = 0 then .ok self
  else do
    let scrollTop ← self.scrolledByCursor distance tree
    .ok { self with logicalScrollTop := some scrollTop }

/-- The pixels of a list are multiples of `2 ^ (-k)`, and with `reach` more of them the pixel offset
still has fewer than 24 bits. -/
structure Exact (k : ℕ) (reach : ℚ) (state : StateInner) : Prop where
  items : OnGrid k state.items
  offset : Multiple k state.logicalScrollTopOrEdge.offsetInItem
  small : (|state.pixelOffset| + reach) * 2 ^ k < 2 ^ 24

variable {self : StateInner}

/-- At each height there is one scroll top in an item. -/
theorem InItem.eq_of_scrollTop {scrollTop scrollTop' : ListOffset}
    (hitems : HeightsNonneg self.items)
    (h : InItem self.items scrollTop) (h' : InItem self.items scrollTop')
    (heq : self.scrollTop scrollTop = self.scrollTop scrollTop') : scrollTop = scrollTop' := by
  have hle : ∀ {top top' : ListOffset}, InItem self.items top → InItem self.items top' →
      self.scrollTop top = self.scrollTop top' → top'.itemIx ≤ top.itemIx := by
    intro top top' htop htop' heq
    by_contra hlt
    -- the later one is behind the end of the item that the earlier one is in
    have hlt' : top.itemIx < self.items.length := (not_le.mp hlt).trans_le htop'.le
    have hitem := List.getElem?_eq_getElem hlt'
    have hbehind := heightOf_take_le hitems (Nat.succ_le_of_lt (not_le.mp hlt))
    have hoffset := htop.lt _ hitem
    have hnonneg := htop'.nonneg
    rw [Nat.succ_eq_add_one, heightOf_take_succ hitem] at hbehind
    rw [StateInner.scrollTop, StateInner.scrollTop] at heq
    linarith
  have hix : scrollTop.itemIx = scrollTop'.itemIx :=
    (hle h' h heq.symm).antisymm (hle h h' heq)
  have hoffset : scrollTop.offsetInItem = scrollTop'.offsetInItem := by
    rw [StateInner.scrollTop, StateInner.scrollTop, hix] at heq
    linarith
  obtain ⟨itemIx, offsetInItem⟩ := scrollTop
  obtain ⟨itemIx', offsetInItem'⟩ := scrollTop'
  exact congrArg₂ ListOffset.mk hix hoffset

section Cursor

variable {k : ℕ} {tree : ListItems} (ht : SumTree.Valid tree) (hheight : tree.height ≤ 15)
  (htree : tree.toList = self.items)

include ht hheight htree

/-- The cursor of `scroll_by` is never sought backward, and leads to a scroll top in an item. -/
theorem scrolledByCursor_spec {distance : ℚ} (h : self.Exact k |distance|)
    (hdistance : Multiple k distance) :
    ∃ scrollTop, self.scrolledByCursor distance tree = .ok scrollTop ∧
      self.scrollTop scrollTop = max (self.pixelOffset + distance) 0 ∧
      InItem self.items scrollTop ∧ Multiple k scrollTop.offsetInItem := by
  have hgrid : OnGrid k tree.toList := htree ▸ h.items
  have hsmall := h.small
  obtain ⟨cursor, found, hrun, hbehind⟩ := seek_count ht hheight hgrid
    self.logicalScrollTopOrEdge.itemIx (show (Cursor.new tree : ItemCursor).tree = tree from rfl)
  have hstart : cursor.start.height =
      heightOf (self.items.take self.logicalScrollTopOrEdge.itemIx) := by
    rw [hbehind.height, ← List.take_take, List.take_length, htree]
  have hpixels : heightOf (self.items.take self.logicalScrollTopOrEdge.itemIx) +
      self.logicalScrollTopOrEdge.offsetInItem = self.pixelOffset := rfl
  have hmultiple : Multiple k self.pixelOffset :=
    (h.items.infix_ (List.take_prefix _ _).isInfix).multiple_heightOf.add h.offset
  -- neither of the two sums is rounded
  have hfirst : binary32 (cursor.start.height + self.logicalScrollTopOrEdge.offsetInItem) =
      self.pixelOffset := by
    rw [hstart, hpixels]
    refine binary32_eq_self h.items.exponent hmultiple (lt_of_le_of_lt ?_ hsmall)
    exact mul_le_mul_of_nonneg_right (by linarith [abs_nonneg distance]) (by positivity)
  have hsecond : binary32 (self.pixelOffset + distance) = self.pixelOffset + distance := by
    refine binary32_eq_self h.items.exponent (hmultiple.add hdistance) (lt_of_le_of_lt ?_ hsmall)
    exact mul_le_mul_of_nonneg_right (abs_add_le _ _) (by positivity)
  obtain ⟨target, htarget⟩ : ∃ target, target = max (self.pixelOffset + distance) 0 := ⟨_, rfl⟩
  have htargetMultiple : Multiple k target := htarget ▸ (hmultiple.add hdistance).max .zero
  have htargetSmall : target * 2 ^ k < 2 ^ 24 := by
    refine lt_of_le_of_lt (mul_le_mul_of_nonneg_right ?_ (by positivity)) hsmall
    rw [htarget]
    exact max_le ((le_abs_self _).trans (abs_add_le _ _)) (by positivity)
  -- the scroll top is in the item that the target is in
  have hfound : ∃ cursor' found stop,
      (if target ≥ cursor.start.height then cursor.seekForward (Height target) .right
        else cursor.seek (Height target) .right) = .ok (cursor', found) ∧
      Behind tree stop cursor' ∧ heightOf (tree.toList.take stop) ≤ target ∧
      ∀ item, tree.toList[stop]? = some item →
        target < heightOf (tree.toList.take stop) + item.height := by
    split
    · exact seekForward_height ht hheight hgrid hbehind ‹_›
    · exact seek_height ht hheight hgrid hbehind.whole (htarget ▸ le_max_right _ _)
  obtain ⟨cursor', found', stop, hrun', hbehind', hle, hstops⟩ := hfound
  have htake : Multiple k (heightOf (tree.toList.take stop)) :=
    (hgrid.infix_ (List.take_prefix _ _).isInfix).multiple_heightOf
  have hthird : binary32 (target - heightOf (tree.toList.take stop)) =
      target - heightOf (tree.toList.take stop) := by
    have hnonneg := heightOf_take_nonneg hgrid.nonneg stop
    refine binary32_eq_self h.items.exponent (htargetMultiple.sub htake)
      (lt_of_le_of_lt ?_ htargetSmall)
    rw [abs_of_nonneg (by linarith)]
    exact mul_le_mul_of_nonneg_right (by linarith) (by positivity)
  refine ⟨⟨stop, target - heightOf (tree.toList.take stop)⟩, ?_, ?_, ⟨?_, ?_, ?_⟩,
    htargetMultiple.sub htake⟩
  · rw [scrolledByCursor, hrun, ok_bind]
    dsimp only
    rw [hfirst, hsecond, ← htarget]
    by_cases hforward : target ≥ cursor.start.height
    · rw [if_pos hforward] at hrun' ⊢
      rw [hrun', ok_bind]
      dsimp only
      rw [hbehind'.count, hbehind'.height, hthird]
    · rw [if_neg hforward] at hrun' ⊢
      rw [hrun', ok_bind]
      dsimp only
      rw [hbehind'.count, hbehind'.height, hthird]
  · rw [scrollTop, ← htree, ← htarget]
    ring
  · exact htree ▸ hbehind'.le
  · exact sub_nonneg.mpr hle
  · intro item hitem
    have hlt := hstops item (htree ▸ hitem)
    show target - _ < item.height
    linarith

theorem scrollByCursor_spec {distance : ℚ} (hne : distance ≠ 0) (h : self.Exact k |distance|)
    (hdistance : Multiple k distance) :
    ∃ scrollTop, self.scrollByCursor distance tree =
        .ok { self with logicalScrollTop := some scrollTop } ∧
      self.scrollTop scrollTop = max (self.pixelOffset + distance) 0 ∧
      InItem self.items scrollTop ∧ Multiple k scrollTop.offsetInItem := by
  obtain ⟨scrollTop, hrun, hrest⟩ := scrolledByCursor_spec ht hheight htree h hdistance
  refine ⟨scrollTop, ?_, hrest⟩
  rw [scrollByCursor, if_neg hne, hrun]
  rfl

/-- Two scrolls, of which the first one does not reach the beginning, end where one does. -/
theorem scrollByCursor_twice {a b : ℚ} (ha : Multiple k a) (hb : Multiple k b)
    (h : self.Exact k (|a| + |b|)) (hclamp : 0 ≤ self.pixelOffset + a)
    (hzero : a + b = 0 → a = 0 ∨ InItem self.items self.logicalScrollTopOrEdge) :
    ∃ first second once, self.scrollByCursor a tree = .ok first ∧
      first.scrollByCursor b tree = .ok second ∧ self.scrollByCursor (a + b) tree = .ok once ∧
      second.logicalScrollTopOrEdge = once.logicalScrollTopOrEdge := by
  have hreach : ∀ {reach : ℚ}, reach ≤ |a| + |b| → self.Exact k reach := fun hle =>
    ⟨h.items, h.offset, lt_of_le_of_lt
      (mul_le_mul_of_nonneg_right (by linarith) (by positivity)) h.small⟩
  have hsum : self.Exact k |a + b| := hreach (abs_add_le a b)
  rcases eq_or_ne a 0 with rfl | hane
  · rw [zero_add] at hsum ⊢
    rcases eq_or_ne b 0 with rfl | hbne
    · exact ⟨self, self, self, if_pos rfl, if_pos rfl, if_pos rfl, rfl⟩
    · obtain ⟨scrollTop, hrun, -⟩ := scrollByCursor_spec ht hheight htree hbne hsum hb
      exact ⟨self, _, _, if_pos rfl, hrun, hrun, rfl⟩
  obtain ⟨scrollTop, hfirst, htop, hin, hmultiple⟩ := scrollByCursor_spec ht hheight htree hane
    (hreach (by linarith [abs_nonneg b])) ha
  rcases eq_or_ne b 0 with rfl | hbne
  · rw [add_zero]
    exact ⟨_, _, _, hfirst, if_pos rfl, hfirst, rfl⟩
  rw [max_eq_left hclamp] at htop
  -- the second scroll starts where the first one ended
  have hafter : StateInner.Exact k |b| { self with logicalScrollTop := some scrollTop } := by
    refine ⟨h.items, hmultiple, lt_of_le_of_lt ?_ h.small⟩
    refine mul_le_mul_of_nonneg_right ?_ (by positivity)
    show |self.scrollTop scrollTop| + |b| ≤ _
    rw [htop]
    linarith [abs_add_le self.pixelOffset a]
  obtain ⟨scrollTop', hsecond, htop', hin', -⟩ :=
    @scrollByCursor_spec { self with logicalScrollTop := some scrollTop } _ _ ht hheight htree _
      hbne hafter hb
  have hin'' : InItem self.items scrollTop' := hin'
  have hpixels : self.scrollTop scrollTop' = max (self.pixelOffset + (a + b)) 0 := by
    have hmoved : self.scrollTop scrollTop' = max (self.scrollTop scrollTop + b) 0 := htop'
    rw [hmoved, htop, add_assoc]
  rcases eq_or_ne (a + b) 0 with hback | hne
  · -- the list is back where it was, which has to be a scroll top in an item
    have hwas := (hzero hback).resolve_left hane
    have hnonneg : 0 ≤ self.pixelOffset :=
      add_nonneg (heightOf_take_nonneg h.items.nonneg _) hwas.nonneg
    rw [hback] at hpixels ⊢
    refine ⟨_, _, self, hfirst, hsecond, if_pos rfl, ?_⟩
    show scrollTop' = self.logicalScrollTopOrEdge
    refine InItem.eq_of_scrollTop h.items.nonneg hin'' hwas ?_
    rw [hpixels, add_zero, max_eq_left hnonneg]
    rfl
  · obtain ⟨scrollTop'', hrun, htop'', honce, -⟩ := scrollByCursor_spec ht hheight htree hne hsum
      (ha.add hb)
    exact ⟨_, _, _, hfirst, hsecond, hrun,
      InItem.eq_of_scrollTop h.items.nonneg hin'' honce (hpixels.trans htop''.symm)⟩

end Cursor

/-- `scroll_by` is exact where no pixel is rounded: a distance of zero leaves the list as it is, and
with any other one the cursor is never sought backward, the list is scrolled by the distance up to
its beginning, and the scroll top is in an item.  Two scrolls are one by the sum of their distances,
if the first does not reach the beginning. -/
theorem scrollBy_exact (self : StateInner) (k : ℕ) (tree : ListItems) (ht : SumTree.Valid tree)
    (hheight : tree.height ≤ 15) (htree : tree.toList = self.items) :
    self.scrollByCursor 0 tree = .ok self ∧
    (∀ distance ≠ 0, Multiple k distance → self.Exact k |distance| →
      ∃ after, self.scrollByCursor distance tree = .ok after ∧ after.items = self.items ∧
        after.pixelOffset = max (self.pixelOffset + distance) 0 ∧
        InItem self.items after.logicalScrollTopOrEdge) ∧
    ∀ a b, Multiple k a → Multiple k b → self.Exact k (|a| + |b|) → 0 ≤ self.pixelOffset + a →
      (a + b = 0 → a = 0 ∨ InItem self.items self.logicalScrollTopOrEdge) →
      ∃ first second once, self.scrollByCursor a tree = .ok first ∧
        first.scrollByCursor b tree = .ok second ∧ self.scrollByCursor (a + b) tree = .ok once ∧
        second.logicalScrollTopOrEdge = once.logicalScrollTopOrEdge := by
  refine ⟨if_pos rfl, ?_, ?_⟩
  · intro distance hne hdistance h
    obtain ⟨scrollTop, hrun, htop, hin, -⟩ :=
      scrollByCursor_spec ht hheight htree hne h hdistance
    exact ⟨_, hrun, rfl, htop, hin⟩
  · intro a b ha hb h hclamp hzero
    exact scrollByCursor_twice ht hheight htree ha hb h hclamp hzero

/-- A list of an item that is not measured is scrolled up to 5 pixels in front of it. -/
def inFront : StateInner := (StateInner.new 1 .top 0).scrollTo ⟨0, -5⟩

/-- A list of an item of 20,000,000 pixels is scrolled far into it. -/
def farDown : StateInner :=
  { StateInner.new 1 .top 0 with
    items := [.measured ⟨100, 20000000⟩ none], logicalScrollTop := some ⟨0, 18000000⟩ }

/-- A tree of one item. -/
def single (item : ListItem) : ListItems := .leaf (sumItems [item]) [item] [Item.summary item]

theorem valid_single (item : ListItem) : SumTree.Valid (single item) :=
  .inr ⟨0, .leaf (List.cons_ne_nil item []) (Nat.le_add_left 1 _)⟩

theorem scrollBy_exact_inFront :
    ∃ first second once, inFront.scrollByCursor 10 (single (.unmeasured none none)) = .ok first ∧
      first.scrollByCursor (-2) (single (.unmeasured none none)) = .ok second ∧
      inFront.scrollByCursor 8 (single (.unmeasured none none)) = .ok once ∧
      second.logicalScrollTopOrEdge = once.logicalScrollTopOrEdge := by
  have hgrid : OnGrid 0 inFront.items := by
    refine ⟨Nat.zero_le _, ?_, ?_, by decide +kernel⟩
    · intro item hitem
      rw [List.mem_singleton.mp hitem]
      exact le_rfl
    · intro item hitem
      rw [List.mem_singleton.mp hitem]
      exact .zero
  have hexact := (scrollBy_exact inFront 0 (single (.unmeasured none none)) (valid_single _)
    (Nat.zero_le _) rfl).2.2 10 (-2) ⟨10, by norm_num⟩ ⟨-2, by norm_num⟩
    ⟨hgrid, ⟨-5, by decide +kernel⟩, by decide +kernel⟩ (by decide +kernel) (by norm_num)
  rwa [show (10 : ℚ) + -2 = 8 by norm_num] at hexact

/-- A distance of zero keeps a pixel offset that is negative; and far down a list, a distance of a
pixel is rounded away. -/
theorem zero_keeps_negative_offset :
    (¬∀ (state : StateInner) (tree : ListItems) (distance : ℚ), SumTree.Valid tree →
      tree.toList = state.items → ∃ after, state.scrollByCursor distance tree = .ok after ∧
        after.pixelOffset = max (state.pixelOffset + distance) 0) ∧
    farDown.pixelOffset = 18000000 ∧
    (farDown.scrollByCursor 1 (single (.measured ⟨100, 20000000⟩ none))).map pixelOffset =
      .ok 18000000 := by
  refine ⟨?_, by decide +kernel, by decide +kernel⟩
  intro h
  obtain ⟨after, hrun, hoffset⟩ := h inFront (single (.unmeasured none none)) 0 (valid_single _) rfl
  rw [scrollByCursor, if_pos rfl] at hrun
  obtain rfl := Except.ok.inj hrun
  exact absurd hoffset (by decide +kernel)

end StateInner

end Zui.ListElement
