/-
The scrollbar of a list.

The scrollbar is given how far the list can be scrolled and how far it is, and scrolls it to where
its thumb is dragged.  The list scrolls over its items with the padding around them, while the
scrollbar is told of the items alone.

Every sum is rounded to single precision.  Where all pixels are multiples of some power of two, and
there are not too many of them, the scrollbar is told exactly where the list is.

Design notes:

* the calls are given the tree of the items, and leave out a pending scroll and the scroll handler.

Main statements:

* `LaidOut.offset_roundedScrollToHeight` — what the scrollbar is told of a list that is scrolled to
  a height;
* `scrollbar_agrees` — the scrollbar and the list agree if no pixel is rounded and the padding adds
  nothing to what is scrolled over;
* `drag_is_rounded` — a drag that is told as another one, as its pixels are rounded.
-/
import Zui.ListElement.Cursor
import Zui.ListElement.Wheel

namespace Zui.ListElement

open Gpui (Bounds Edges Point Size)

namespace StateInner

/-! ### The calls -/

section Calls

variable (tree : ListItems) (self : StateInner)

/-- `max_scroll_offset`. -/
def maxScrollOffset : ℚ :=
  max (binary32 (self.scrollbarDragStartHeight.getD tree.summary.height -
    heightOrZero self.lastLayoutBounds)) 0

/-- `max_offset_for_scrollbar`. -/
def maxOffsetForScrollbar : Point ℚ := ⟨0, self.maxScrollOffset tree⟩

/-- `scroll_px_offset_for_scrollbar`. -/
def scrollPxOffsetForScrollbar : Result (Point ℚ) :=
  if self.logicalScrollTop.isNone ∧ self.alignment = .bottom then
    .ok ⟨0, -self.maxScrollOffset tree⟩
  else do
    let logicalScrollTop := self.logicalScrollTopOrEdge
    let (_, summary) ← (Cursor.new tree : ItemCursor).summary ListItemSummary
      (Count logicalScrollTop.itemIx) .right
    .ok ⟨0, -binary32 (summary.height + logicalScrollTop.offsetInItem)⟩

/-- The end of the range that a list scrolls over: a content with the padding around it, but for the
viewport. -/
def roundedScrollMax (contentHeight height : ℚ) : ℚ :=
  let padding := paddingOrZero self.lastPadding
  max (binary32 (binary32 (binary32 (contentHeight + padding.top) + padding.bottom) - height)) 0

/-- The list is scrolled to a height in a range up to `scrollMax`. -/
def roundedScrollToHeight (newScrollTop scrollMax : ℚ) : StateInner :=
  if self.alignment = .bottom ∧ newScrollTop = scrollMax then { self with logicalScrollTop := none }
  else
    let start := (tree.find (Height newScrollTop) .right).1
    { self with
      logicalScrollTop := some ⟨start.count, binary32 (newScrollTop - start.height)⟩ }

/-- `scroll`. -/
def roundedScroll (scrollTop : ListOffset) (height : ℚ) (delta : Point ℚ) : StateInner :=
  if self.reset then self
  else
    let scrollMax := self.roundedScrollMax tree.summary.height height
    let start := (tree.find (Count scrollTop.itemIx) .right).1
    let newScrollTop :=
      min (max (binary32 (binary32 (start.height + scrollTop.offsetInItem) - delta.y)) 0) scrollMax
    let scrolled := self.roundedScrollToHeight tree newScrollTop scrollMax
    if delta.y > 0 then { scrolled with followState := scrolled.followState.stopFollowing }
    else scrolled

/-- `set_offset_from_scrollbar`. -/
def roundedSetOffsetFromScrollbar (point : Point ℚ) : StateInner :=
  match self.lastLayoutBounds with
  | none => self
  | some bounds =>
    let scrollMax := self.roundedScrollMax
      (self.scrollbarDragStartHeight.getD tree.summary.height) bounds.size.height
    let newScrollTop := min (max (-point.y) 0) scrollMax
    if scrollMax > 0 ∧ newScrollTop ≥ max (binary32 (scrollMax - 1)) 0 ∧
        self.followState ≠ .normal then
      { self with followState := .tail true, logicalScrollTop := some ⟨tree.summary.count, 0⟩ }
    else
      { self with followState := self.followState.stopFollowing }.roundedScrollToHeight tree
        newScrollTop scrollMax

/-- Wheel events, each with the scroll top of the layout that it is for. -/
def wheels (height : ℚ) (events : List (ListOffset × Point ℚ)) : StateInner :=
  events.foldl (fun state event => state.roundedScroll tree event.1 height event.2) self

/-- The height of the items, or that at the start of a drag. -/
def contentHeight : ℚ := self.scrollbarDragStartHeight.getD (heightOf self.items)

end Calls

/-- What the scrollbar is told is where it has dragged the list to, in its range, and outside a drag
the end of this range is as far as the wheel scrolls. -/
structure ScrollbarAgrees (k : ℕ) (tree : ListItems) (height : ℚ) (state : StateInner) : Prop where
  drag : ∀ point, Multiple k point.y →
    let dragged := state.roundedSetOffsetFromScrollbar tree point
    dragged.scrollPxOffsetForScrollbar tree =
      .ok ⟨0, -min (max (-point.y) 0) (dragged.maxOffsetForScrollbar tree).y⟩
  wheel : state.scrollbarDragStartHeight = none → ∀ events ≠ [],
    ∃ offset ≤ (state.maxOffsetForScrollbar tree).y,
      (state.wheels tree height events).scrollPxOffsetForScrollbar tree = .ok ⟨0, -offset⟩
  wheel_end : state.scrollbarDragStartHeight = none → ∃ events ≠ [],
    (state.wheels tree height events).scrollPxOffsetForScrollbar tree =
      .ok ⟨0, -(state.maxOffsetForScrollbar tree).y⟩

/-- A list behind a layout whose pixels are multiples of `2 ^ (-k)`, and together have fewer than 24
bits. -/
structure LaidOut (k : ℕ) (bounds : Bounds ℚ) (padding : Edges) (state : StateInner) : Prop where
  lastLayoutBounds : state.lastLayoutBounds = some bounds
  lastPadding : state.lastPadding = some padding
  reset : state.reset = false
  items : OnGrid k state.items
  content : Multiple k state.contentHeight
  height : Multiple k bounds.size.height
  top : Multiple k padding.top
  bottom : Multiple k padding.bottom
  small : (|state.contentHeight| + |bounds.size.height| + |padding.top|
    + |padding.bottom|) * 2 ^ k <
    2 ^ 24

/-! ### What stays -/

/-- What neither a scroll nor a drag changes. -/
structure SameList (state other : StateInner) : Prop where
  items : other.items = state.items
  alignment : other.alignment = state.alignment
  lastLayoutBounds : other.lastLayoutBounds = state.lastLayoutBounds
  lastPadding : other.lastPadding = state.lastPadding
  scrollbarDragStartHeight : other.scrollbarDragStartHeight = state.scrollbarDragStartHeight
  reset : other.reset = state.reset

variable {tree : ListItems} {self : StateInner}

theorem SameList.refl : self.SameList self := ⟨rfl, rfl, rfl, rfl, rfl, rfl⟩

theorem SameList.trans {other another : StateInner} (h : self.SameList other)
    (h' : other.SameList another) : self.SameList another :=
  ⟨h'.items.trans h.items, h'.alignment.trans h.alignment,
    h'.lastLayoutBounds.trans h.lastLayoutBounds, h'.lastPadding.trans h.lastPadding,
    h'.scrollbarDragStartHeight.trans h.scrollbarDragStartHeight, h'.reset.trans h.reset⟩

theorem SameList.maxScrollOffset {other : StateInner} (h : self.SameList other) :
    other.maxScrollOffset tree = self.maxScrollOffset tree := by
  rw [StateInner.maxScrollOffset, StateInner.maxScrollOffset, h.lastLayoutBounds,
    h.scrollbarDragStartHeight]

theorem SameList.contentHeight {other : StateInner} (h : self.SameList other) :
    other.contentHeight = self.contentHeight := by
  rw [StateInner.contentHeight, StateInner.contentHeight, h.items, h.scrollbarDragStartHeight]

theorem sameList_rebasePendingScroll (scrollTop : ListOffset) :
    self.SameList (self.rebasePendingScroll scrollTop) := by
  rw [rebasePendingScroll]
  split
  · exact .refl
  · split
    · exact ⟨rfl, rfl, rfl, rfl, rfl, rfl⟩
    · exact ⟨rfl, rfl, rfl, rfl, rfl, rfl⟩

theorem sameList_roundedScrollToHeight (newScrollTop scrollMax : ℚ) :
    self.SameList (self.roundedScrollToHeight tree newScrollTop scrollMax) := by
  rw [roundedScrollToHeight]
  split
  · exact ⟨rfl, rfl, rfl, rfl, rfl, rfl⟩
  · exact ⟨rfl, rfl, rfl, rfl, rfl, rfl⟩

theorem sameList_roundedScroll (scrollTop : ListOffset) (height : ℚ) (delta : Point ℚ) :
    self.SameList (self.roundedScroll tree scrollTop height delta) := by
  rw [roundedScroll]
  split
  · exact .refl
  · have h := @sameList_roundedScrollToHeight tree self
    dsimp only
    split
    · exact ⟨(h _ _).items, (h _ _).alignment, (h _ _).lastLayoutBounds, (h _ _).lastPadding,
        (h _ _).scrollbarDragStartHeight, (h _ _).reset⟩
    · exact h _ _

theorem sameList_wheels (height : ℚ) (events : List (ListOffset × Point ℚ)) :
    self.SameList (self.wheels tree height events) := by
  induction events generalizing self with
  | nil => exact .refl
  | cons event events ih => exact (sameList_roundedScroll event.1 height event.2).trans ih

/-! ### What the scrollbar is told -/

section Told

variable {k : ℕ} {bounds : Bounds ℚ} {padding : Edges}

/-- A sum of the pixels is not rounded. -/
theorem LaidOut.exact (h : LaidOut k bounds padding self) {x : ℚ} (hx : Multiple k x)
    (hle : |x| ≤ |self.contentHeight| + |bounds.size.height| + |padding.top| + |padding.bottom|) :
    binary32 x = x :=
  binary32_eq_self h.items.exponent hx
    (lt_of_le_of_lt (mul_le_mul_of_nonneg_right hle (by positivity)) h.small)

/-- How far a list is scrolled over its content and some padding. -/
theorem LaidOut.roundedScrollMax_eq (h : LaidOut k bounds padding self) :
    self.roundedScrollMax self.contentHeight bounds.size.height =
      max (self.contentHeight + (padding.top + padding.bottom) - bounds.size.height) 0 := by
  have htop := h.content.add h.top
  have hboth := htop.add h.bottom
  have hall := hboth.sub h.height
  have hsum := abs_add_le self.contentHeight padding.top
  have hsum' := abs_add_le (self.contentHeight + padding.top) padding.bottom
  have hdiff := abs_sub (self.contentHeight + padding.top + padding.bottom) bounds.size.height
  have hheight := abs_nonneg bounds.size.height
  have hbottom := abs_nonneg padding.bottom
  rw [roundedScrollMax, h.lastPadding]
  show max (binary32 (binary32 (binary32 (_ + padding.top) + padding.bottom) - _)) 0 = _
  rw [h.exact htop (by linarith), h.exact hboth (by linarith), h.exact hall (by linarith),
    add_assoc]

variable (ht : SumTree.Valid tree) (htree : tree.toList = self.items)

include ht htree

theorem LaidOut.getD_summary (h : LaidOut k bounds padding self) :
    self.scrollbarDragStartHeight.getD tree.summary.height = self.contentHeight := by
  have hsummary : tree.summary = sumItems tree.toList := by
    rcases ht with rfl | ⟨_, hwf⟩
    · rfl
    · exact hwf.summary_eq
  rw [hsummary, sumItems_exact (htree ▸ h.items), htree]
  rfl

theorem LaidOut.maxScrollOffset_eq (h : LaidOut k bounds padding self) :
    self.maxScrollOffset tree = max (self.contentHeight - bounds.size.height) 0 := by
  have hdiff := abs_sub self.contentHeight bounds.size.height
  have htop := abs_nonneg padding.top
  have hbottom := abs_nonneg padding.bottom
  rw [maxScrollOffset, h.getD_summary ht htree, h.lastLayoutBounds, heightOrZero,
    h.exact (h.content.sub h.height) (by linarith)]

theorem LaidOut.multiple_max (h : LaidOut k bounds padding self) :
    Multiple k (self.maxScrollOffset tree) := by
  rw [h.maxScrollOffset_eq ht htree]
  exact (h.content.sub h.height).max .zero

theorem LaidOut.max_small (h : LaidOut k bounds padding self) :
    self.maxScrollOffset tree * 2 ^ k < 2 ^ 24 := by
  refine lt_of_le_of_lt (mul_le_mul_of_nonneg_right ?_ (by positivity)) h.small
  rw [h.maxScrollOffset_eq ht htree]
  refine max_le ?_ (by positivity)
  linarith [le_abs_self self.contentHeight, neg_le_abs bounds.size.height,
    abs_nonneg padding.top, abs_nonneg padding.bottom]

/-- A wheel event outside a drag scrolls the list to a height in the range that it scrolls over. -/
theorem LaidOut.offset_roundedScroll (h : LaidOut k bounds padding self)
    (hnone : self.scrollbarDragStartHeight = none)
    (hscroll : self.roundedScrollMax self.contentHeight bounds.size.height =
      self.maxScrollOffset tree) (scrollTop : ListOffset) (delta : Point ℚ) :
    (self.roundedScroll tree scrollTop bounds.size.height delta).scrollPxOffsetForScrollbar tree =
      (self.roundedScrollToHeight tree (min (max (binary32
          (binary32 ((tree.find (Count scrollTop.itemIx) .right).1.height +
            scrollTop.offsetInItem) - delta.y)) 0) (self.maxScrollOffset tree))
        (self.maxScrollOffset tree)).scrollPxOffsetForScrollbar tree := by
  have hcontent := h.getD_summary ht htree
  rw [hnone, Option.getD_none] at hcontent
  rw [roundedScroll, if_neg (by simp [h.reset])]
  dsimp only
  rw [hcontent, hscroll]
  split <;> rfl

variable (hheight : tree.height ≤ 15)

include hheight

/-- What the scrollbar is told of a list that is scrolled to a height in its range: not more than
the end of the range, and the height itself if it is not rounded. -/
theorem LaidOut.offset_roundedScrollToHeight (h : LaidOut k bounds padding self)
    {newScrollTop : ℚ} (hnonneg : 0 ≤ newScrollTop)
    (hle : newScrollTop ≤ self.maxScrollOffset tree) :
    ∃ offset ≤ self.maxScrollOffset tree, (Multiple k newScrollTop → offset = newScrollTop) ∧
      (self.roundedScrollToHeight tree newScrollTop
          (self.maxScrollOffset tree)).scrollPxOffsetForScrollbar tree = .ok ⟨0, -offset⟩ := by
  have hmax : Multiple k (self.maxScrollOffset tree) := h.multiple_max ht htree
  have hsmall := h.max_small ht htree
  have hgrid := h.items
  by_cases hend : self.alignment = .bottom ∧ newScrollTop = self.maxScrollOffset tree
  · refine ⟨_, le_rfl, fun _ => hend.2.symm, ?_⟩
    rw [roundedScrollToHeight, if_pos hend]
    exact if_pos ⟨rfl, hend.1⟩
  · have hgrid' : OnGrid k tree.toList := htree ▸ hgrid
    obtain ⟨stop, -, hcount, hstart, hbelow⟩ := find_height ht hgrid' hnonneg
    obtain ⟨cursor, summary, hrun, hsummary⟩ := summary_count ht hheight hgrid' stop
    have hfront : Multiple k (heightOf (tree.toList.take stop)) :=
      (hgrid'.infix_ (List.take_prefix _ _).isInfix).multiple_heightOf
    have hfront' := heightOf_take_nonneg hgrid'.nonneg stop
    generalize heightOf (tree.toList.take stop) = front at *
    have hsmall' : ∀ {x : ℚ}, x ≤ self.maxScrollOffset tree → x * 2 ^ k < 2 ^ 24 := fun hx =>
      lt_of_le_of_lt (mul_le_mul_of_nonneg_right hx (by positivity)) hsmall
    -- the offset in the item does not pass the end of the range, and neither does its sum
    have hoffset : binary32 (newScrollTop - front) ≤ self.maxScrollOffset tree - front :=
      binary32_le hgrid.exponent (hmax.sub hfront) (by linarith) (hsmall' (by linarith))
        (by linarith)
    refine ⟨binary32 (front + binary32 (newScrollTop - front)), ?_, ?_, ?_⟩
    · exact binary32_le hgrid.exponent hmax (hnonneg.trans hle) hsmall (by linarith)
    · intro htarget
      rw [binary32_eq_self hgrid.exponent (htarget.sub hfront), add_sub_cancel,
        binary32_eq_self hgrid.exponent htarget]
      · rw [abs_of_nonneg hnonneg]
        exact hsmall' hle
      · rw [abs_of_nonneg (by linarith)]
        exact hsmall' (by linarith)
    · rw [roundedScrollToHeight, if_neg hend]
      dsimp only
      rw [hcount, hstart, scrollPxOffsetForScrollbar, if_neg (by simp)]
      dsimp only [logicalScrollTopOrEdge, Option.getD_some]
      rw [hrun, ok_bind]
      dsimp only
      rw [hsummary]

/-- What the scrollbar is told behind a wheel event is in its range. -/
theorem LaidOut.offset_wheel (h : LaidOut k bounds padding self)
    (hnone : self.scrollbarDragStartHeight = none)
    (hscroll : self.roundedScrollMax self.contentHeight bounds.size.height =
      self.maxScrollOffset tree) (event : ListOffset × Point ℚ) :
    ∃ offset ≤ self.maxScrollOffset tree,
      (self.wheels tree bounds.size.height [event]).scrollPxOffsetForScrollbar tree =
        .ok ⟨0, -offset⟩ := by
  have hmax : 0 ≤ self.maxScrollOffset tree := le_max_right _ _
  obtain ⟨offset, hle, -, htold⟩ := h.offset_roundedScrollToHeight ht htree hheight
    (le_min (le_max_right _ 0) hmax) (min_le_right _ _)
  exact ⟨offset, hle, (h.offset_roundedScroll ht htree hnone hscroll event.1 event.2).trans htold⟩

/-- One event that scrolls by the whole range takes the list to its end. -/
theorem LaidOut.offset_wheel_end (h : LaidOut k bounds padding self)
    (hnone : self.scrollbarDragStartHeight = none)
    (hscroll : self.roundedScrollMax self.contentHeight bounds.size.height =
      self.maxScrollOffset tree) :
    (self.wheels tree bounds.size.height [(⟨0, 0⟩, ⟨0, -self.maxScrollOffset tree⟩)]
      ).scrollPxOffsetForScrollbar tree = .ok ⟨0, -self.maxScrollOffset tree⟩ := by
  have hmax : 0 ≤ self.maxScrollOffset tree := le_max_right _ _
  have hmultiple : Multiple k (self.maxScrollOffset tree) := h.multiple_max ht htree
  have hsmall := h.max_small ht htree
  have hzero : binary32 0 = 0 := binary32_eq_self (Nat.zero_le _) .zero (by norm_num)
  have hrun := h.offset_roundedScroll ht htree hnone hscroll ⟨0, 0⟩
    ⟨0, -self.maxScrollOffset tree⟩
  obtain ⟨offset, -, hexact, htold⟩ :=
    h.offset_roundedScrollToHeight ht htree hheight hmax le_rfl
  rw [find_count_zero ht (htree ▸ h.items), zero_add, hzero, zero_sub, neg_neg,
    binary32_eq_self h.items.exponent hmultiple (by rwa [abs_of_nonneg hmax]),
    max_eq_left hmax, min_self, htold, hexact hmultiple] at hrun
  exact hrun

/-- A drag takes the list to where the thumb is in its range. -/
theorem LaidOut.offset_drag (h : LaidOut k bounds padding self)
    (hnormal : self.followState = .normal)
    (hscroll : self.roundedScrollMax self.contentHeight bounds.size.height =
      self.maxScrollOffset tree) {point : Point ℚ} (hpoint : Multiple k point.y) :
    self.SameList (self.roundedSetOffsetFromScrollbar tree point) ∧
      (self.roundedSetOffsetFromScrollbar tree point).scrollPxOffsetForScrollbar tree =
        .ok ⟨0, -min (max (-point.y) 0) (self.maxScrollOffset tree)⟩ := by
  have hset : self.roundedSetOffsetFromScrollbar tree point = self.roundedScrollToHeight tree
      (min (max (-point.y) 0) (self.maxScrollOffset tree)) (self.maxScrollOffset tree) := by
    have hstop : ({ self with followState := self.followState.stopFollowing } : StateInner) =
        self := by
      rw [show self.followState.stopFollowing = self.followState by rw [hnormal]; rfl]
    rw [roundedSetOffsetFromScrollbar, h.lastLayoutBounds]
    dsimp only
    rw [if_neg (fun h => h.2.2 hnormal), ← h.lastLayoutBounds, hstop, h.getD_summary ht htree,
      hscroll]
  have hmax : 0 ≤ self.maxScrollOffset tree := le_max_right _ _
  obtain ⟨offset, -, hexact, htold⟩ := h.offset_roundedScrollToHeight ht htree hheight
    (le_min (le_max_right (-point.y) 0) hmax) (min_le_right _ _)
  rw [hset]
  refine ⟨sameList_roundedScrollToHeight _ _, ?_⟩
  rw [htold, hexact ((hpoint.neg.max .zero).min (h.multiple_max ht htree))]

end Told

theorem LaidOut.of_same {k : ℕ} {bounds : Bounds ℚ} {padding : Edges} {other : StateInner}
    (h : LaidOut k bounds padding self) (hsame : self.SameList other) :
    LaidOut k bounds padding other := by
  have hcontent := hsame.contentHeight
  exact ⟨hsame.lastLayoutBounds.trans h.lastLayoutBounds, hsame.lastPadding.trans h.lastPadding,
    hsame.reset.trans h.reset,
      by rw [hsame.items]; exact h.items, by rw [hcontent]; exact h.content,
    h.height, h.top, h.bottom, by rw [hcontent]; exact h.small⟩

/-- The scrollbar and a laid out list agree if no pixel is rounded and the padding adds nothing to
what is scrolled over. -/
theorem scrollbar_agrees {k : ℕ} {bounds : Bounds ℚ} {padding : Edges} (ht : SumTree.Valid tree)
    (hheight : tree.height ≤ 15) (htree : tree.toList = self.items)
    (h : LaidOut k bounds padding self) (hnormal : self.followState = .normal)
    (hpadding : padding.top + padding.bottom = 0 ∨ (self.contentHeight ≤ bounds.size.height ∧
      self.contentHeight + (padding.top + padding.bottom) ≤ bounds.size.height)) :
    self.ScrollbarAgrees k tree bounds.size.height := by
  -- the list and the scrollbar have one range
  have hscroll : self.roundedScrollMax self.contentHeight bounds.size.height =
      self.maxScrollOffset tree := by
    rw [h.roundedScrollMax_eq, h.maxScrollOffset_eq ht htree]
    rcases hpadding with hzero | ⟨hcontent, hpadded⟩
    · rw [hzero, add_zero]
    · rw [max_eq_right (by linarith), max_eq_right (by linarith)]
  refine ⟨?_, ?_, ?_⟩
  · intro point hpoint
    obtain ⟨hsame, htold⟩ := h.offset_drag ht htree hheight hnormal hscroll hpoint
    dsimp only
    rw [htold, maxOffsetForScrollbar, hsame.maxScrollOffset]
  · intro hnone events hevents
    obtain ⟨front, event, rfl⟩ := List.eq_nil_or_concat events |>.resolve_left hevents
    -- behind the events in front of the last one, the list is the same
    have hsame : self.SameList (self.wheels tree bounds.size.height front) := sameList_wheels _ _
    have hscroll' : (self.wheels tree bounds.size.height front).roundedScrollMax
        (self.wheels tree bounds.size.height front).contentHeight bounds.size.height =
        (self.wheels tree bounds.size.height front).maxScrollOffset tree := by
      rw [roundedScrollMax, hsame.lastPadding, hsame.contentHeight, hsame.maxScrollOffset]
      exact hscroll
    obtain ⟨offset, hle, htold⟩ := (h.of_same hsame).offset_wheel ht (htree.trans hsame.items.symm)
      hheight (hsame.scrollbarDragStartHeight.trans hnone) hscroll' event
    rw [hsame.maxScrollOffset] at hle
    refine ⟨offset, hle, ?_⟩
    rw [List.concat_eq_append, wheels, List.foldl_append]
    exact htold
  · intro hnone
    exact ⟨_, List.cons_ne_nil _ _, h.offset_wheel_end ht htree hheight hnone hscroll⟩

/-- A list of two items is laid out in some bounds. -/
def twoItems (first second height : ℚ) (padding : Edges) : StateInner :=
  ((StateInner.new 2 .top 0).prepaint ⟨⟨0, 0⟩, ⟨20, height⟩⟩ padding
    (fun ix => ⟨20, if ix = 0 then first else second⟩) (fun _ => false) fun _ _ => none).1

/-- The items of a list in a leaf. -/
def leafOf (state : StateInner) : ListItems :=
  .leaf (sumItems state.items) state.items (state.items.map Item.summary)

theorem scrollbar_agrees_unpadded :
    (twoItems 100 50 60 ⟨0, 0, 0, 0⟩).ScrollbarAgrees 0 (leafOf (twoItems 100 50 60 ⟨0, 0, 0, 0⟩))
      60 := by
  have hitems : (twoItems 100 50 60 ⟨0, 0, 0, 0⟩).items =
      [.measured ⟨20, 100⟩ none, .unmeasured none none] := by decide +kernel
  have hgrid : OnGrid 0 (twoItems 100 50 60 ⟨0, 0, 0, 0⟩).items := by
    rw [hitems]
    refine ⟨Nat.zero_le _, ?_, ?_, by decide +kernel⟩
    · intro item hitem
      rcases List.mem_pair.mp hitem with rfl | rfl <;> decide +kernel
    · intro item hitem
      rcases List.mem_pair.mp hitem with rfl | rfl
      · exact ⟨100, by decide +kernel⟩
      · exact .zero
  exact @scrollbar_agrees _ _ 0 ⟨⟨0, 0⟩, ⟨20, 60⟩⟩ ⟨0, 0, 0, 0⟩
    (.inr ⟨0, .leaf (by decide +kernel) (by decide +kernel)⟩) (Nat.zero_le _) rfl
    ⟨by decide +kernel, by decide +kernel, by decide +kernel, hgrid, ⟨100, by decide +kernel⟩,
      ⟨60, by norm_num⟩, .zero, .zero, by decide +kernel⟩ (by decide +kernel) (.inl (by norm_num))

/-- Where a drag takes a list is told with a rounding error, for a list without padding; and a list
with padding is dragged past the end of the range of the scrollbar. -/
theorem drag_is_rounded :
    let told (state : StateInner) (point : Point ℚ) :=
      let dragged := state.roundedSetOffsetFromScrollbar (leafOf state) point
      (dragged.scrollPxOffsetForScrollbar (leafOf state),
        min (max (-point.y) 0) (dragged.maxOffsetForScrollbar (leafOf state)).y)
    told (twoItems (binary32 4.6) (binary32 54.2) 40 ⟨0, 0, 0, 0⟩) ⟨0, binary32 (-15.3)⟩ =
        (.ok ⟨0, -8021607 / 524288⟩, 16043213 / 1048576) ∧
      told (twoItems 100 50 60 ⟨10, 0, 10, 0⟩) ⟨0, -60⟩ = (.ok ⟨0, -60⟩, 40) := by
  decide +kernel

end StateInner

end Zui.ListElement
