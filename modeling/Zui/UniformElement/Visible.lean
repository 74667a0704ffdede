/-
The items of a uniform list that can be seen.

`prepaint` places the items from the padded bounds on, and they are painted under the whole
bounds.  The first row of the visible range is computed with the top padding, but without the top
border, and the last row with the padded height, without the bottom padding and the bottom border.
So what shows in the top border only, or only below the padded bounds, is not rendered.

Main statements:

* `start_le_iff`, `lt_stop_iff` — the rows of the visible range, by where they are;
* `prepaint_frame` — the frame of `prepaint`, with or without a request;
* `prepaint_showsAll_iff` — when every item that can be seen is rendered.
-/
import Zui.UniformElement.ScrollToItem

namespace Zui.UniformElement

open Gpui (Bounds Edges Point Size)

/-- `padded_bounds`. -/
def paddedBounds (bounds : Bounds ℚ) (border padding : Edges) : Bounds ℚ :=
  Bounds.fromCorners
    ⟨bounds.origin.x + (border.left + padding.left), bounds.origin.y + (border.top + padding.top)⟩
    ⟨bounds.bottomRight.x - (border.right + padding.right),
      bounds.bottomRight.y - (border.bottom + padding.bottom)⟩

namespace UniformList

variable {self : UniformList} {item r : ℕ} {y : ℚ}

/-- The list in `prepaint`, with its bounds and its border. -/
def inBounds (self : UniformList) (bounds : Bounds ℚ) (border : Edges) : UniformList :=
  { self with paddedBounds := UniformElement.paddedBounds bounds border self.padding }

/-- The top of an item, where `prepaint` places it. -/
def itemTop (self : UniformList) (y : ℚ) (item : ℕ) : ℚ :=
  self.paddedBounds.origin.y + self.rowTop y (self.row item)

/-- The vertical extent of an item meets the bounds. -/
def Seen (self : UniformList) (bounds : Bounds ℚ) (y : ℚ) (item : ℕ) : Prop :=
  (Set.Ico (self.itemTop y item) (self.itemTop y item + self.itemHeight) ∩
    Set.Ico bounds.origin.y bounds.bottomRight.y).Nonempty

/-- The visible range is one of the items, and every item that can be seen is in it. -/
structure ShowsAll (list : UniformList) (bounds : Bounds ℚ) (frame : Frame) : Prop where
  ordered : (list.visibleRange frame.scrollOffset).1 ≤ (list.visibleRange frame.scrollOffset).2
  stop_le : (list.visibleRange frame.scrollOffset).2 ≤ list.itemCount
  visible : ∀ item < list.itemCount, list.Seen bounds frame.scrollOffset.y item →
    (list.visibleRange frame.scrollOffset).1 ≤ list.row item ∧
      list.row item < (list.visibleRange frame.scrollOffset).2
  placed : ∀ item < list.itemCount, list.Seen bounds frame.scrollOffset.y item →
    ∃ origin, (item, origin) ∈ frame.items ∧ origin.y = list.itemTop frame.scrollOffset.y item

/-- A row ends above the top padding: below the top edge of the padding there is nothing of it. -/
def EndsAbove (self : UniformList) (y : ℚ) (r : ℕ) : Prop :=
  self.rowTop y r + self.itemHeight ≤ -self.padding.top

/-- A row starts below the padded bounds. -/
def StartsBelow (self : UniformList) (y : ℚ) (r : ℕ) : Prop :=
  self.listHeight ≤ self.rowTop y r

/-! ### The visible range -/

theorem lt_start_iff {scrollOffset : Point ℚ} (hheight : 0 < self.itemHeight) :
    r < (self.visibleRange scrollOffset).1 ↔ self.EndsAbove scrollOffset.y r := by
  have hfloor : ((r + 1 : ℕ) : ℤ) ≤ ⌊-(scrollOffset.y + self.padding.top) / self.itemHeight⌋ ↔
      self.EndsAbove scrollOffset.y r := by
    rw [Int.le_floor, le_div_iff₀ hheight, EndsAbove, rowTop]
    push_cast
    constructor <;> intro h <;> linarith
  rw [← hfloor]
  show r < (⌊_⌋).toNat ↔ _
  omega

theorem lt_stop_iff {scrollOffset : Point ℚ} (hheight : 0 < self.itemHeight) :
    r < (self.visibleRange scrollOffset).2 ↔
      r < self.itemCount ∧ ¬ self.StartsBelow scrollOffset.y r := by
  have hceil : (r : ℤ) < ⌈(-scrollOffset.y + self.listHeight) / self.itemHeight⌉ ↔
      ¬ self.StartsBelow scrollOffset.y r := by
    rw [Int.lt_ceil, lt_div_iff₀ hheight, StartsBelow, rowTop, not_le]
    push_cast
    constructor <;> intro h <;> linarith
  rw [← hceil]
  show r < min (⌈_⌉).toNat _ ↔ _
  omega

/-- The visible range is ordered if no row lies both in front of it and behind it. -/
theorem ordered_iff {scrollOffset : Point ℚ} (hheight : 0 < self.itemHeight) :
    (self.visibleRange scrollOffset).1 ≤ (self.visibleRange scrollOffset).2 ↔
      ∀ r, self.EndsAbove scrollOffset.y r →
        r < self.itemCount ∧ ¬ self.StartsBelow scrollOffset.y r := by
  simp only [← lt_start_iff hheight, ← lt_stop_iff hheight]
  constructor
  · exact fun hle r hr => hr.trans_le hle
  · intro h
    by_contra hlt
    exact absurd (h _ (not_le.mp hlt)) (lt_irrefl _)

/-- A scroll offset in its range leaves no row in front of the visible range that is behind it, if
the bounds are as high as the borders and the bottom padding. -/
theorem ordered_of_room (hheight : 0 < self.itemHeight) (hy : y ∈ self.offsets)
    (hpadding : 0 ≤ self.padding.top) (hroom : 0 ≤ self.listHeight + self.padding.top)
    (habove : self.EndsAbove y r) : r < self.itemCount ∧ ¬ self.StartsBelow y r := by
  simp only [EndsAbove, StartsBelow, rowTop] at habove ⊢
  refine ⟨?_, by linarith⟩
  by_contra hle
  have hcount : (self.itemCount : ℚ) ≤ r := by exact_mod_cast not_lt.mp hle
  have hrow := mul_le_mul_of_nonneg_left hcount hheight.le
  have hzero := mul_nonneg hheight.le (Nat.cast_nonneg (α := ℚ) self.itemCount)
  have hlow := hy.1
  have hmax : self.maxScrollOffset = self.contentHeight - self.listHeight ∨
      self.maxScrollOffset = 0 := max_choice _ _
  simp only [contentHeight] at hmax
  rcases hmax with hmax | hmax <;> linarith

/-! ### The frame -/

/-- The frame of `prepaint` has the items at its scroll offset, which is in its range. -/
theorem prepaint_frame {scrollOffset : Point ℚ} {frame : Frame} (hcount : 0 < self.itemCount)
    (hy : scrollOffset.y ∈ self.offsets) (hframe : self.prepaint scrollOffset = .ok frame) :
    frame.items = self.placeItems frame.scrollOffset ∧ frame.scrollOffset.y ∈ self.offsets := by
  cases hrequest : self.sharedScrollToItem with
  | none =>
    rw [prepaint, if_pos hcount, hrequest] at hframe
    cases hframe
    exact ⟨rfl, by rwa [settleScrollOffset_y hy]⟩
  | some request =>
    rw [prepaint_eq hrequest hcount hy] at hframe
    cases hrow : self.rowOfIndex request.itemIndex with
    | error panic =>
      rw [hrow] at hframe
      cases hframe
    | ok row =>
      rw [hrow] at hframe
      cases hframe
      exact ⟨rfl, updatedScrollOffset_mem hy⟩

/-- The items that can be seen are placed if their rows are in the visible range. -/
theorem showsAll_iff {bounds : Bounds ℚ} {frame : Frame}
    (hitems : frame.items = self.placeItems frame.scrollOffset) :
    self.ShowsAll bounds frame ↔
      (self.visibleRange frame.scrollOffset).1 ≤ (self.visibleRange frame.scrollOffset).2 ∧
      ∀ item < self.itemCount, self.Seen bounds frame.scrollOffset.y item →
        (self.visibleRange frame.scrollOffset).1 ≤ self.row item ∧
          self.row item < (self.visibleRange frame.scrollOffset).2 := by
  constructor
  · exact fun h => ⟨h.ordered, h.visible⟩
  · rintro ⟨hordered, hvisible⟩
    refine ⟨hordered, visibleRange_le _, hvisible, fun item hitem hseen => ?_⟩
    obtain ⟨hstart, hstop⟩ := hvisible item hitem hseen
    rw [hitems]
    exact ⟨_, (mem_placeItems _ _).mpr ⟨hitem, hstart, hstop, rfl⟩, rfl⟩

end UniformList

open UniformList in
/-- `prepaint` renders every item that can be seen exactly if each of them reaches into the part of
the bounds between the top border and the bottom padding, and the range is ordered, as it is
whenever the bounds are as high as the borders and the bottom padding. -/
theorem prepaint_showsAll_iff (list : UniformList) (bounds : Bounds ℚ) (border : Edges)
    {scrollOffset : Point ℚ} {frame : Frame} (hcount : 0 < list.itemCount)
    (hheight : 0 < list.itemHeight) (hy : scrollOffset.y ∈ (list.inBounds bounds border).offsets)
    (hframe : (list.inBounds bounds border).prepaint scrollOffset = .ok frame) :
    (list.inBounds bounds border).ShowsAll bounds frame ↔
      (∀ item < list.itemCount,
        (list.inBounds bounds border).Seen bounds frame.scrollOffset.y item →
          ¬ (list.inBounds bounds border).EndsAbove frame.scrollOffset.y (list.row item) ∧
          ¬ (list.inBounds bounds border).StartsBelow frame.scrollOffset.y (list.row item)) ∧
      ((0 ≤ list.padding.top ∧
          border.top + border.bottom + list.padding.bottom ≤ bounds.size.height) ∨
        ∀ r, (list.inBounds bounds border).EndsAbove frame.scrollOffset.y r →
          r < list.itemCount ∧
            ¬ (list.inBounds bounds border).StartsBelow frame.scrollOffset.y r) := by
  have hheight' : 0 < (list.inBounds bounds border).itemHeight := hheight
  have hcount' : 0 < (list.inBounds bounds border).itemCount := hcount
  obtain ⟨hitems, hy'⟩ := prepaint_frame hcount' hy hframe
  have hlistHeight : (list.inBounds bounds border).listHeight + list.padding.top =
      bounds.size.height - (border.top + border.bottom + list.padding.bottom) := by
    simp only [listHeight, inBounds, paddedBounds, Bounds.fromCorners, Bounds.bottomRight]
    ring
  rw [showsAll_iff hitems, ordered_iff hheight', and_comm]
  refine and_congr (forall₂_congr fun item hitem => imp_congr_right fun _ => ?_) ?_
  · rw [lt_stop_iff hheight', ← not_lt, lt_start_iff hheight']
    exact and_congr_right fun _ => and_iff_right (row_lt hitem)
  · refine ⟨Or.inr, fun h => ?_⟩
    rcases h with ⟨hpadding, hroom⟩ | h
    · intro r habove
      exact ordered_of_room hheight' hy' hpadding (by
        show 0 ≤ (list.inBounds bounds border).listHeight + list.padding.top
        rw [hlistHeight]
        linarith) habove
    · exact h

/-- Ten items of height `10` with a padding of `10` below them. -/
def tenItems : UniformList where
  itemCount := 10
  scrollHandle := none
  canScrollHorizontally := false
  longestItemSize := ⟨50, 10⟩
  paddedBounds := ⟨⟨0, 0⟩, ⟨0, 0⟩⟩
  padding := ⟨0, 0, 10, 0⟩

/-- The bounds of the list. -/
def sixtyHigh : Bounds ℚ := ⟨⟨0, 0⟩, ⟨50, 60⟩⟩

/-- The list in these bounds, without a border. -/
def tenInSixty : UniformList := tenItems.inBounds sixtyHigh ⟨0, 0, 0, 0⟩

theorem mem_offsets_tenInSixty : (⟨0, 0⟩ : Point ℚ).y ∈ tenInSixty.offsets :=
  ⟨neg_nonpos.mpr UniformList.maxScrollOffset_nonneg, le_rfl⟩

theorem prepaint_tenInSixty : ∃ frame, tenInSixty.prepaint ⟨0, 0⟩ = .ok frame ∧
    frame.scrollOffset.y = 0 :=
  ⟨_, rfl, UniformList.settleScrollOffset_y mem_offsets_tenInSixty⟩

theorem prepaint_showsAll_iff_tenItems : ∃ frame, tenInSixty.prepaint ⟨0, 0⟩ = .ok frame ∧
    (tenInSixty.ShowsAll sixtyHigh frame ↔
      (∀ item < tenItems.itemCount, tenInSixty.Seen sixtyHigh frame.scrollOffset.y item →
        ¬ tenInSixty.EndsAbove frame.scrollOffset.y (tenItems.row item) ∧
        ¬ tenInSixty.StartsBelow frame.scrollOffset.y (tenItems.row item)) ∧
      ((0 ≤ tenItems.padding.top ∧ (0 : ℚ) + 0 + tenItems.padding.bottom ≤ 60) ∨
        ∀ r, tenInSixty.EndsAbove frame.scrollOffset.y r →
          r < tenItems.itemCount ∧ ¬ tenInSixty.StartsBelow frame.scrollOffset.y r)) := by
  obtain ⟨frame, hframe, -⟩ := prepaint_tenInSixty
  exact ⟨frame, hframe, prepaint_showsAll_iff tenItems sixtyHigh ⟨0, 0, 0, 0⟩ (by decide)
    (by norm_num [tenItems, UniformList.itemHeight]) mem_offsets_tenInSixty hframe⟩

/-- The item with index `5` is seen in the bottom padding only, and is not shown. -/
theorem prepaint_showsAll_not :
    0 < tenItems.itemCount ∧ 0 < tenInSixty.itemHeight ∧ (⟨0, 0⟩ : Point ℚ).y ∈ tenInSixty.offsets ∧
      ∃ frame, tenInSixty.prepaint ⟨0, 0⟩ = .ok frame ∧ ¬ tenInSixty.ShowsAll sixtyHigh frame := by
  obtain ⟨frame, hframe, hzero⟩ := prepaint_tenInSixty
  have hheight : 0 < tenInSixty.itemHeight := by
    norm_num [tenInSixty, tenItems, UniformList.inBounds, UniformList.itemHeight]
  refine ⟨by decide, hheight, mem_offsets_tenInSixty, frame, hframe, fun hshows => ?_⟩
  have htop : tenInSixty.itemTop 0 5 = 50 := by
    norm_num [tenInSixty, tenItems, sixtyHigh, UniformList.inBounds, UniformList.itemTop,
      UniformList.rowTop, UniformList.row, UniformList.yFlipped, UniformList.itemHeight,
      paddedBounds, Bounds.fromCorners]
  have hseen : tenInSixty.Seen sixtyHigh frame.scrollOffset.y 5 := by
    rw [hzero]
    refine ⟨50, ⟨htop.le, ?_⟩, ?_⟩
    · rw [htop]
      linarith
    · norm_num [sixtyHigh, Bounds.bottomRight]
  obtain ⟨-, hstop⟩ := hshows.visible 5 (by decide) hseen
  have hbelow := ((UniformList.lt_stop_iff hheight).mp hstop).2
  rw [hzero] at hbelow
  -- The padded bounds are as high as five items.
  refine hbelow ?_
  norm_num [tenInSixty, tenItems, sixtyHigh, UniformList.inBounds, UniformList.StartsBelow,
    UniformList.listHeight, UniformList.rowTop, UniformList.row, UniformList.yFlipped,
    UniformList.itemHeight, paddedBounds, Bounds.fromCorners, Bounds.bottomRight]

end Zui.UniformElement
