/-
Scrolling a uniform list to an item.

A request names an item, a strategy, and a number of items by which the viewport is made smaller:
from the top for `top` and `center`, from the bottom for `bottom`.  `prepaint` tests whether the
item is in the viewport without its upper part, whatever the strategy is, and the branch for
`bottom` does not read the number of items at all.  In a flipped list it adds one to the index of
the request, which `scroll_to_bottom` sets to `usize::MAX`.

Main statements:

* `mem_placeItems` — where `prepaint` places an item;
* `updatedScrollOffset_mem` — the scroll offset stays in its range;
* `inside_updated`, `updated_of_inside` — a request whose viewport is made smaller from the top;
* `inside_updated_bottom` — one whose viewport is made smaller from the bottom;
* `prepaint_scrolls_iff` — when a request is served.
-/
import Zui.UniformElement.Basic

namespace Zui.UniformElement

open Gpui (Bounds Edges Point Size)
open Util (addUsize addUsize_ok)

/-! ### Clamping -/

theorem clamp_mem {x high : ℚ} (h : 0 ≤ high) : clamp x 0 high ∈ Set.Icc 0 high := by
  unfold clamp
  split
  · exact ⟨le_rfl, h⟩
  · split
    · exact ⟨h, le_rfl⟩
    · constructor <;> linarith

theorem clamp_within {x high a b : ℚ} (ha : a ≤ x) (hb : x ≤ b) (ha' : a ≤ high) (hb' : 0 ≤ b) :
    a ≤ clamp x 0 high ∧ clamp x 0 high ≤ b := by
  unfold clamp
  split
  · constructor <;> linarith
  · split
    · constructor <;> linarith
    · exact ⟨ha, hb⟩

namespace UniformList

variable {self : UniformList} {request : DeferredScrollToItem} {item r : ℕ} {y : ℚ}

/-! ### Where an item is -/

/-- The row of an item. -/
def row (self : UniformList) (item : ℕ) : ℕ :=
  if self.yFlipped then self.itemCount - (item + 1) else item

/-- The top of a row, from the top of the viewport, at a scroll offset. -/
def rowTop (self : UniformList) (y : ℚ) (r : ℕ) : ℚ := y + self.itemHeight * r

theorem row_lt (h : item < self.itemCount) : self.row item < self.itemCount := by
  unfold row
  split <;> omega

theorem visibleRange_le (scrollOffset : Point ℚ) :
    (self.visibleRange scrollOffset).2 ≤ self.itemCount :=
  min_le_right _ _

theorem reverse_renderItems {count start stop : ℕ} (h : stop ≤ count) :
    (renderItems (count - stop) (count - start)).reverse =
      (renderItems start stop).map fun ix => count - (ix + 1) := by
  refine List.ext_getElem (by simp [renderItems]; omega) fun k hk hk' => ?_
  simp only [renderItems, List.length_reverse, List.length_range'] at hk
  simp only [renderItems, List.getElem_reverse, List.length_range', List.getElem_map,
    List.getElem_range']
  omega

theorem placeItems_eq (scrollOffset : Point ℚ) : self.placeItems scrollOffset =
    (renderItems (self.visibleRange scrollOffset).1 (self.visibleRange scrollOffset).2).map
      fun ix => (self.row ix, ⟨self.paddedBounds.origin.x + scrollOffset.x,
        self.paddedBounds.origin.y + scrollOffset.y + self.itemHeight * ix⟩) := by
  have hitems : (if self.yFlipped then
        (renderItems (self.itemCount - (self.visibleRange scrollOffset).2)
          (self.itemCount - (self.visibleRange scrollOffset).1)).reverse
      else renderItems (self.visibleRange scrollOffset).1 (self.visibleRange scrollOffset).2) =
      (renderItems (self.visibleRange scrollOffset).1 (self.visibleRange scrollOffset).2).map
        self.row := by
    by_cases hflipped : self.yFlipped
    · rw [if_pos hflipped, reverse_renderItems (visibleRange_le scrollOffset)]
      exact List.map_congr_left fun ix _ => by rw [row, if_pos hflipped]
    · rw [if_neg hflipped]
      conv_lhs => rw [← List.map_id (renderItems _ _)]
      exact List.map_congr_left fun ix _ => by rw [row, if_neg hflipped, id]
  have hzip := List.zip_map' (f := self.row) (g := id)
    (l := renderItems (self.visibleRange scrollOffset).1 (self.visibleRange scrollOffset).2)
  rw [List.map_id] at hzip
  unfold placeItems
  simp only [hitems, hzip, List.map_map]
  rfl

theorem row_row (h : item < self.itemCount) : self.row (self.row item) = item := by
  unfold row
  split <;> omega

/-- `prepaint` places the item at its row, if that is visible. -/
theorem mem_placeItems (scrollOffset origin : Point ℚ) :
    (item, origin) ∈ self.placeItems scrollOffset ↔ item < self.itemCount ∧
      (self.visibleRange scrollOffset).1 ≤ self.row item ∧
      self.row item < (self.visibleRange scrollOffset).2 ∧
      origin = ⟨self.paddedBounds.origin.x + scrollOffset.x,
        self.paddedBounds.origin.y + self.rowTop scrollOffset.y (self.row item)⟩ := by
  have hle := self.visibleRange_le scrollOffset
  simp only [placeItems_eq, List.mem_map, renderItems, List.mem_range'_1, Prod.mk.injEq, rowTop,
    ← add_assoc]
  constructor
  · rintro ⟨ix, hix, rfl, rfl⟩
    have hlt : ix < self.itemCount := by omega
    rw [row_row hlt]
    exact ⟨row_lt hlt, by omega, by omega, rfl⟩
  · rintro ⟨hitem, hstart, hstop, rfl⟩
    exact ⟨self.row item, by omega, row_row hitem, rfl⟩

theorem row_visible {scrollOffset : Point ℚ} (hheight : 0 < self.itemHeight)
    (hpadding : 0 ≤ self.padding.top) (hrow : r < self.itemCount)
    (htop : 0 ≤ self.rowTop scrollOffset.y r)
    (hbottom : self.rowTop scrollOffset.y r + self.itemHeight ≤ self.listHeight) :
    (self.visibleRange scrollOffset).1 ≤ r ∧ r < (self.visibleRange scrollOffset).2 := by
  unfold rowTop at htop hbottom
  constructor
  · have hfirst : -(scrollOffset.y + self.padding.top) / self.itemHeight ≤ r := by
      rw [div_le_iff₀ hheight]
      linarith
    have hfloor : ⌊-(scrollOffset.y + self.padding.top) / self.itemHeight⌋ ≤ r := by
      exact_mod_cast (Int.floor_le _).trans hfirst
    show (⌊_⌋).toNat ≤ r
    omega
  · have hlast : (r : ℚ) < (-scrollOffset.y + self.listHeight) / self.itemHeight := by
      rw [lt_div_iff₀ hheight]
      linarith
    have hceil : (r : ℤ) < ⌈(-scrollOffset.y + self.listHeight) / self.itemHeight⌉ := by
      exact_mod_cast hlast.trans_le (Int.le_ceil _)
    show r < min (⌈_⌉).toNat _
    omega

/-! ### The viewport of a request -/

/-- The edges of the viewport that a request leaves, from the top of the whole viewport. -/
def viewport (self : UniformList) (request : DeferredScrollToItem) : ℚ × ℚ :=
  match request.strategy with
  | .top | .center => (self.itemHeight * request.offset, self.listHeight)
  | .bottom => (0, self.listHeight - self.itemHeight * request.offset)
  | .nearest => (0, self.listHeight)

/-- The row is inside the viewport that the request leaves. -/
def RowInside (self : UniformList) (request : DeferredScrollToItem) (r : ℕ) (y : ℚ) : Prop :=
  (self.viewport request).1 ≤ self.rowTop y r ∧
    self.rowTop y r + self.itemHeight ≤ (self.viewport request).2

/-- The item of the request is inside the viewport that the request leaves. -/
def Inside (self : UniformList) (request : DeferredScrollToItem) (y : ℚ) : Prop :=
  self.RowInside request (self.row request.itemIndex) y

theorem placed_of_inside {scrollOffset : Point ℚ} (hheight : 0 < self.itemHeight)
    (hpadding : 0 ≤ self.padding.top) (hitem : request.itemIndex < self.itemCount)
    (hinside : self.Inside request scrollOffset.y) :
    (request.itemIndex, ⟨self.paddedBounds.origin.x + scrollOffset.x,
      self.paddedBounds.origin.y + self.rowTop scrollOffset.y (self.row request.itemIndex)⟩) ∈
        self.placeItems scrollOffset := by
  have hoffset : 0 ≤ self.itemHeight * request.offset :=
    mul_nonneg hheight.le (Nat.cast_nonneg _)
  have hviewport : 0 ≤ (self.viewport request).1 ∧ (self.viewport request).2 ≤ self.listHeight := by
    unfold viewport
    split
    · exact ⟨hoffset, le_rfl⟩
    · exact ⟨hoffset, le_rfl⟩
    · exact ⟨le_rfl, by linarith⟩
    · exact ⟨le_rfl, le_rfl⟩
  obtain ⟨hstart, hstop⟩ := row_visible hheight hpadding (row_lt hitem)
    (hviewport.1.trans hinside.1) (hinside.2.trans hviewport.2)
  exact (mem_placeItems _ _).mpr ⟨hitem, hstart, hstop, rfl⟩

/-- The scroll offsets from the last one to the first. -/
def offsets (self : UniformList) : Set ℚ := Set.Icc (-self.maxScrollOffset) 0

/-- The request changes the scroll offset by its strategy. -/
def Moves (self : UniformList) (request : DeferredScrollToItem) (r : ℕ) (y : ℚ) : Prop :=
  request.scrollStrict ∨ self.isAbove r request.offset y ∨ self.isBelow r y

instance : Decidable (self.Moves request r y) := inferInstanceAs (Decidable (_ ∨ _))

theorem maxScrollOffset_nonneg : 0 ≤ self.maxScrollOffset := le_max_right _ _

theorem neg_clamp_mem (x : ℚ) : -clamp x 0 self.maxScrollOffset ∈ self.offsets := by
  obtain ⟨hlow, hhigh⟩ := clamp_mem (x := x) self.maxScrollOffset_nonneg
  exact ⟨neg_le_neg hhigh, neg_nonpos.mpr hlow⟩

/-- The scroll offset that a strategy asks for. -/
def offsetFor (self : UniformList) (request : DeferredScrollToItem) (r : ℕ) (y : ℚ) :
    ScrollStrategy → ℚ
  | .top => -clamp (self.itemHeight * r - self.itemHeight * request.offset) 0 self.maxScrollOffset
  | .center =>
    (-clamp (self.itemHeight * r + self.itemHeight / 2 - (self.itemHeight * request.offset +
      (self.listHeight - self.itemHeight * request.offset) / 2)) 0 self.maxScrollOffset)
  | .bottom =>
    (-clamp (self.itemHeight * r + self.itemHeight - self.listHeight) 0 self.maxScrollOffset)
  | .nearest => y

theorem updated_of_moves (h : self.Moves request r y) :
    self.updatedScrollOffset request r y = self.offsetFor request r y
      (resolveStrategy request.strategy (self.isAbove r request.offset y) (self.isBelow r y)) :=
  (if_pos h).trans (by cases resolveStrategy _ _ _ <;> rfl)

theorem updated_of_not_moves (h : ¬ self.Moves request r y) :
    self.updatedScrollOffset request r y = y :=
  if_neg h

/-- The scroll offset stays in its range. -/
theorem updatedScrollOffset_mem (hy : y ∈ self.offsets) :
    self.updatedScrollOffset request r y ∈ self.offsets := by
  by_cases hmoves : self.Moves request r y
  · rw [updated_of_moves hmoves]
    cases resolveStrategy _ _ _ with
    | nearest => exact hy
    | _ => exact neg_clamp_mem _
  · rwa [updated_of_not_moves hmoves]

theorem bottom_le (hheight : 0 < self.itemHeight) (hrow : r < self.itemCount) :
    self.itemHeight * r + self.itemHeight - self.listHeight ≤ self.maxScrollOffset := by
  have hcount : (r : ℚ) + 1 ≤ self.itemCount := by exact_mod_cast hrow
  have hcontent := mul_le_mul_of_nonneg_left hcount hheight.le
  have hmax : self.contentHeight - self.listHeight ≤ self.maxScrollOffset := le_max_left _ _
  unfold contentHeight at hmax
  linarith

/-! ### The viewport made smaller from the top -/

/-- The viewport of the request is what the tests of the code take it for. -/
def FromTop (request : DeferredScrollToItem) : Prop :=
  request.offset = 0 ∨ request.strategy = .top ∨ request.strategy = .center

theorem viewport_of_fromTop (h : FromTop request) :
    self.viewport request = (self.itemHeight * request.offset, self.listHeight) := by
  unfold viewport
  rcases h with hzero | htop | hcenter
  · rw [hzero]
    split <;> simp
  · rw [htop]
  · rw [hcenter]

theorem rowInside_iff (h : FromTop request) : self.RowInside request r y ↔
    ¬ self.isAbove r request.offset y ∧ ¬ self.isBelow r y := by
  simp only [RowInside, viewport_of_fromTop h, rowTop, isAbove, isBelow, decide_eq_true_eq, not_lt]
  constructor <;> rintro ⟨habove, hbelow⟩ <;> constructor <;> linarith

/-- A request that is not strict leaves an item in its viewport where it is. -/
theorem updated_of_inside (h : FromTop request) (hstrict : request.scrollStrict = false)
    (hinside : self.RowInside request r y) : self.updatedScrollOffset request r y = y := by
  obtain ⟨habove, hbelow⟩ := (rowInside_iff h).mp hinside
  exact updated_of_not_moves (by simp [Moves, hstrict, habove, hbelow])

theorem fits_of_rowInside (h : FromTop request) (hy : y ∈ self.offsets)
    (hinside : self.RowInside request r y) :
    self.itemHeight * request.offset ≤ self.itemHeight * r ∧
      self.itemHeight * request.offset + self.itemHeight ≤ self.listHeight := by
  obtain ⟨htop, hbottom⟩ := hinside
  have hhigh := hy.2
  rw [viewport_of_fromTop h] at htop hbottom
  simp only [rowTop] at htop hbottom
  constructor <;> linarith

theorem rowInside_neg_clamp (h : FromTop request) {x : ℚ} (hheight : 0 < self.itemHeight)
    (hrow : r < self.itemCount)
    (hlow : self.itemHeight * r + self.itemHeight - self.listHeight ≤ x)
    (hhigh : x ≤ self.itemHeight * r - self.itemHeight * request.offset)
    (hoffset : self.itemHeight * request.offset ≤ self.itemHeight * r) :
    self.RowInside request r (-clamp x 0 self.maxScrollOffset) := by
  obtain ⟨hlow, hhigh⟩ := clamp_within hlow hhigh (bottom_le hheight hrow) (by linarith)
  simp only [RowInside, viewport_of_fromTop h, rowTop]
  constructor <;> linarith

/-- If some scroll offset brings the item into the viewport, then the request does. -/
theorem inside_updated (h : FromTop request) (hheight : 0 < self.itemHeight)
    (hrow : r < self.itemCount) (hsome : ∃ y' ∈ self.offsets, self.RowInside request r y') :
    self.RowInside request r (self.updatedScrollOffset request r y) := by
  obtain ⟨y', hy', hinside⟩ := hsome
  obtain ⟨hoffset, hfits⟩ := fits_of_rowInside h hy' hinside
  have htop : self.RowInside request r (self.offsetFor request r y .top) :=
    rowInside_neg_clamp h hheight hrow (by linarith) le_rfl hoffset
  have hbottom (hzero : request.offset = 0) :
      self.RowInside request r (self.offsetFor request r y .bottom) := by
    refine rowInside_neg_clamp h hheight hrow le_rfl ?_ hoffset
    rw [hzero] at hfits ⊢
    linarith
  by_cases hmoves : self.Moves request r y
  · rw [updated_of_moves hmoves]
    cases hstrategy : request.strategy with
    | top => exact htop
    | center => exact rowInside_neg_clamp h hheight hrow (by linarith) (by linarith) hoffset
    | bottom => exact hbottom (by simpa [FromTop, hstrategy] using h)
    | nearest =>
      cases habove : self.isAbove r request.offset y with
      | true => exact htop
      | false =>
        cases hbelow : self.isBelow r y with
        | true => exact hbottom (by simpa [FromTop, hstrategy] using h)
        | false =>
          have hstays : self.RowInside request r y :=
            (rowInside_iff h).mpr ⟨by simp [habove], by simp [hbelow]⟩
          exact hstays
  · rw [updated_of_not_moves hmoves]
    simp only [Moves, not_or] at hmoves
    exact (rowInside_iff h).mpr hmoves.2

/-! ### The viewport made smaller from the bottom -/

theorem viewport_of_bottom (h : request.strategy = .bottom) : self.viewport request =
    (0, self.listHeight - self.itemHeight * request.offset) := by
  rw [viewport, h]

theorem itemHeight_mul_pos (hheight : 0 < self.itemHeight) (hoffset : 0 < request.offset) :
    0 < self.itemHeight * request.offset :=
  mul_pos hheight (by exact_mod_cast hoffset)

theorem offsetFor_bottom (hheight : 0 < self.itemHeight) (hrow : r < self.itemCount) :
    self.offsetFor request r y .bottom =
      -max 0 (self.itemHeight * r + self.itemHeight - self.listHeight) := by
  have hle := bottom_le hheight hrow
  simp only [offsetFor, clamp, neg_inj]
  split
  · next hneg => exact (max_eq_left hneg.le).symm
  · next hnonneg => rw [if_neg (by linarith), max_eq_right (by linarith)]

/-- A request that moves brings the item to the bottom of the whole viewport: this is inside the
smaller one if the item is there without any scrolling. -/
theorem rowInside_offsetFor_bottom (h : request.strategy = .bottom) (hoffset : 0 < request.offset)
    (hheight : 0 < self.itemHeight) (hrow : r < self.itemCount) :
    self.RowInside request r (self.offsetFor request r y .bottom) ↔ self.RowInside request r 0 := by
  have hpos := itemHeight_mul_pos hheight hoffset
  rw [offsetFor_bottom hheight hrow]
  rcases le_total (self.itemHeight * r + self.itemHeight) self.listHeight with hle | hle
  · rw [max_eq_left (by linarith), neg_zero]
  · rw [max_eq_right (by linarith)]
    simp only [RowInside, viewport_of_bottom h, rowTop]
    constructor <;> rintro ⟨-, hbottom⟩ <;> exact absurd hbottom (by linarith)

/-- An item inside the viewport stays where it is if the request leaves it, or if nothing is
scrolled. -/
theorem updated_eq_bottom (h : request.strategy = .bottom) (hoffset : 0 < request.offset)
    (hheight : 0 < self.itemHeight) (hrow : r < self.itemCount) (hy : y ∈ self.offsets)
    (hinside : self.RowInside request r y) (hmoves : self.Moves request r y) :
    self.updatedScrollOffset request r y = y ↔ y = 0 := by
  have hpos := itemHeight_mul_pos hheight hoffset
  have hhigh := hy.2
  rw [updated_of_moves hmoves, h]
  show self.offsetFor request r y .bottom = y ↔ y = 0
  rw [offsetFor_bottom hheight hrow]
  simp only [RowInside, viewport_of_bottom h, rowTop] at hinside
  rcases le_total (self.itemHeight * r + self.itemHeight) self.listHeight with hle | hle
  · rw [max_eq_left (by linarith), neg_zero]
    exact eq_comm
  · rw [max_eq_right (by linarith)]
    constructor <;> intro heq <;> linarith [hinside.2]

/-! ### Whole requests -/

/-- The claim of the documentation covers the request: it says nothing about `nearest` with an
offset. -/
def Documented (request : DeferredScrollToItem) : Prop :=
  request.strategy = .nearest → request.offset = 0

/-- What a request does to the scroll offset: it stays in its range, the item ends inside the
viewport of the request if some scroll offset brings it there, and a request that is not strict
leaves an item that is there already. -/
structure Scrolled (list : UniformList) (request : DeferredScrollToItem) (y : ℚ) (frame : Frame) :
    Prop where
  range : frame.scrollOffset.y ∈ list.offsets
  visible : request.itemIndex < list.itemCount → Documented request →
    (∃ y' ∈ list.offsets, list.Inside request y') → list.Inside request frame.scrollOffset.y
  stays : request.itemIndex < list.itemCount → Documented request →
    request.scrollStrict = false → list.Inside request y → frame.scrollOffset.y = y

/-- The request is one that the code serves: its index can be flipped, and if it makes the viewport
smaller from the bottom for an item that fits in there, then the item is there already where the
request does not move, and otherwise it is there without any scrolling, and the request is
strict, the item not there already, or nothing scrolled. -/
def Serves (self : UniformList) (request : DeferredScrollToItem) (y : ℚ) : Prop :=
  (self.yFlipped = true → request.itemIndex < usizeMax) ∧
    (request.strategy = .bottom → 0 < request.offset → request.itemIndex < self.itemCount →
      (∃ y' ∈ self.offsets, self.Inside request y') →
        if self.Moves request (self.row request.itemIndex) y then
          self.Inside request 0 ∧
            (request.scrollStrict = true ∨ ¬ self.Inside request y ∨ y = 0)
        else self.Inside request y)

theorem rowOfIndex_of_lt (h : self.yFlipped = true → request.itemIndex < usizeMax) :
    self.rowOfIndex request.itemIndex = .ok (self.row request.itemIndex) := by
  unfold rowOfIndex row
  by_cases hflipped : self.yFlipped
  · rw [if_pos hflipped, if_pos hflipped, addUsize_ok (h hflipped)]
    rfl
  · rw [if_neg hflipped, if_neg hflipped]
    rfl

theorem rowOfIndex_of_ge (hflipped : self.yFlipped = true) (h : usizeMax ≤ request.itemIndex) :
    self.rowOfIndex request.itemIndex = .error .arithmeticOverflow := by
  unfold rowOfIndex
  rw [if_pos hflipped, addUsize, if_neg (by omega)]
  rfl

theorem settleScrollOffset_y {scrollOffset : Point ℚ} (hy : scrollOffset.y ∈ self.offsets) :
    (self.settleScrollOffset scrollOffset).y = scrollOffset.y := by
  obtain ⟨hlow, hhigh⟩ := hy
  refine if_neg ?_
  rintro ⟨hne, hlt⟩
  have hneg : scrollOffset.y < 0 := lt_of_le_of_ne hhigh hne
  have hmax : self.maxScrollOffset = self.contentHeight - self.paddedBounds.size.height ∨
      self.maxScrollOffset = 0 := max_choice _ _
  rcases hmax with hmax | hmax <;> linarith

theorem prepaint_eq {scrollOffset : Point ℚ} (hrequest : self.sharedScrollToItem = some request)
    (hcount : 0 < self.itemCount) (hy : scrollOffset.y ∈ self.offsets) :
    self.prepaint scrollOffset = (self.rowOfIndex request.itemIndex).map fun r =>
      let settled : Point ℚ := { self.settleScrollOffset scrollOffset with
        y := self.updatedScrollOffset request r scrollOffset.y }
      ⟨settled, self.placeItems settled⟩ := by
  unfold prepaint
  rw [if_pos hcount, hrequest]
  simp only [settleScrollOffset_y hy]
  cases self.rowOfIndex request.itemIndex <;> rfl

/-- A request for the viewport that the code tests does what is said of it; one for `nearest` with
an offset has only its range to keep. -/
theorem scrolled_of_not_bottom (h : request.strategy = .bottom → request.offset = 0)
    {frame : Frame} (hheight : 0 < self.itemHeight) (hy : y ∈ self.offsets)
    (hframe : frame.scrollOffset.y =
      self.updatedScrollOffset request (self.row request.itemIndex) y) :
    self.Scrolled request y frame := by
  have hfromTop (hdocumented : Documented request) : FromTop request := by
    cases hstrategy : request.strategy with
    | top => exact .inr (.inl hstrategy)
    | center => exact .inr (.inr hstrategy)
    | bottom => exact .inl (h hstrategy)
    | nearest => exact .inl (hdocumented hstrategy)
  refine ⟨?_, ?_, ?_⟩
  · rw [hframe]
    exact updatedScrollOffset_mem hy
  · intro hitem hdocumented hsome
    rw [hframe]
    exact inside_updated (hfromTop hdocumented) hheight (row_lt hitem) hsome
  · intro _ hdocumented hstrict hinside
    rw [hframe]
    exact updated_of_inside (hfromTop hdocumented) hstrict hinside

/-- A request that makes the viewport smaller from the bottom. -/
theorem scrolled_iff_bottom (h : request.strategy = .bottom) (hoffset : 0 < request.offset)
    {frame : Frame} (hheight : 0 < self.itemHeight) (hy : y ∈ self.offsets)
    (hframe : frame.scrollOffset.y =
      self.updatedScrollOffset request (self.row request.itemIndex) y) :
    self.Scrolled request y frame ↔ (request.itemIndex < self.itemCount →
      (∃ y' ∈ self.offsets, self.Inside request y') →
        if self.Moves request (self.row request.itemIndex) y then
          self.Inside request 0 ∧
            (request.scrollStrict = true ∨ ¬ self.Inside request y ∨ y = 0)
        else self.Inside request y) := by
  have hdocumented : Documented request := fun hnearest => by simp [h] at hnearest
  have hmoved (hitem : request.itemIndex < self.itemCount)
      (hmoves : self.Moves request (self.row request.itemIndex) y) :
      self.Inside request frame.scrollOffset.y ↔ self.Inside request 0 := by
    rw [hframe, updated_of_moves hmoves, h]
    exact rowInside_offsetFor_bottom h hoffset hheight (row_lt hitem)
  constructor
  · intro hscrolled hitem hsome
    have hvisible := hscrolled.visible hitem hdocumented hsome
    split
    · next hmoves =>
      refine ⟨(hmoved hitem hmoves).mp hvisible, ?_⟩
      by_contra hnone
      push Not at hnone
      obtain ⟨hstrict, hinside, hne⟩ := hnone
      have hstays := hscrolled.stays hitem hdocumented (by simpa using hstrict) hinside
      rw [hframe, updated_eq_bottom h hoffset hheight (row_lt hitem) hy hinside hmoves] at hstays
      exact hne hstays
    · next hmoves =>
      rwa [hframe, updated_of_not_moves hmoves] at hvisible
  · intro hserves
    refine ⟨by rw [hframe]; exact updatedScrollOffset_mem hy, ?_, ?_⟩
    · intro hitem _ hsome
      have hcase := hserves hitem hsome
      split at hcase
      · next hmoves => exact (hmoved hitem hmoves).mpr hcase.1
      · next hmoves => rwa [hframe, updated_of_not_moves hmoves]
    · intro hitem _ hstrict hinside
      have hcase := hserves hitem ⟨y, hy, hinside⟩
      rw [hframe]
      split at hcase
      · next hmoves =>
        refine (updated_eq_bottom h hoffset hheight (row_lt hitem) hy hinside hmoves).mpr ?_
        simpa [hstrict, hinside] using hcase.2
      · next hmoves => exact updated_of_not_moves hmoves

end UniformList

open UniformList in
/-- A request is applied without a panic and does what is said of it exactly if it is one that the
code serves. -/
theorem prepaint_scrolls_iff (self : UniformList) (request : DeferredScrollToItem)
    (scrollOffset : Point ℚ) (hrequest : self.sharedScrollToItem = some request)
    (hcount : 0 < self.itemCount) (hheight : 0 < self.itemHeight)
    (hy : scrollOffset.y ∈ self.offsets) :
    (∃ frame, self.prepaint scrollOffset = .ok frame ∧
      self.Scrolled request scrollOffset.y frame) ↔ self.Serves request scrollOffset.y := by
  rw [prepaint_eq hrequest hcount hy]
  by_cases hindex : self.yFlipped = true → request.itemIndex < usizeMax
  · rw [rowOfIndex_of_lt hindex, Except.map, Serves, and_iff_right hindex]
    simp only [Except.ok.injEq, exists_eq_left']
    by_cases hbottom : request.strategy = .bottom ∧ 0 < request.offset
    · rw [scrolled_iff_bottom hbottom.1 hbottom.2 hheight hy rfl]
      exact ⟨fun h _ _ => h, fun h => h hbottom.1 hbottom.2⟩
    · have hnot : request.strategy = .bottom → request.offset = 0 := by
        intro hstrategy
        by_contra hoffset
        exact hbottom ⟨hstrategy, by omega⟩
      refine iff_of_true (scrolled_of_not_bottom hnot hheight hy rfl) ?_
      intro hstrategy hoffset
      exact absurd (hnot hstrategy) (by omega)
  · obtain ⟨hflipped, hmax⟩ := Classical.not_imp.mp hindex
    rw [rowOfIndex_of_ge hflipped (by omega)]
    refine iff_of_false ?_ fun h => hindex h.1
    rintro ⟨frame, hframe, -⟩
    cases hframe

/-- A hundred items of height `10` in a viewport of height `100`. -/
def hundredItems (yFlipped : Bool) (request : DeferredScrollToItem) : UniformList where
  itemCount := 100
  scrollHandle := some ⟨some request, yFlipped⟩
  canScrollHorizontally := false
  longestItemSize := ⟨50, 10⟩
  paddedBounds := ⟨⟨0, 0⟩, ⟨50, 100⟩⟩
  padding := ⟨0, 0, 0, 0⟩

theorem mem_offsets_hundredItems {yFlipped : Bool} {request : DeferredScrollToItem} {y : ℚ}
    (hlow : -900 ≤ y) (hhigh : y ≤ 0) : y ∈ (hundredItems yFlipped request).offsets := by
  refine ⟨?_, hhigh⟩
  have hmax : (hundredItems yFlipped request).maxScrollOffset = 900 := by
    norm_num [hundredItems, UniformList.maxScrollOffset, UniformList.contentHeight,
      UniformList.itemHeight, UniformList.listHeight]
  rwa [hmax]

/-- The item with index `20`, two items above the bottom. -/
theorem prepaint_scrolls_iff_hundred :
    (∃ frame, (hundredItems false ⟨20, .bottom, 2, false⟩).prepaint ⟨0, -50⟩ = .ok frame ∧
      (hundredItems false ⟨20, .bottom, 2, false⟩).Scrolled ⟨20, .bottom, 2, false⟩ (-50) frame) ↔
      (hundredItems false ⟨20, .bottom, 2, false⟩).Serves ⟨20, .bottom, 2, false⟩ (-50) :=
  prepaint_scrolls_iff _ ⟨20, .bottom, 2, false⟩ ⟨0, -50⟩ rfl (by decide)
    (by norm_num [hundredItems, UniformList.itemHeight])
    (mem_offsets_hundredItems (by norm_num) (by norm_num))

/-- The branch for `bottom` leaves the item at the bottom of the whole viewport, below the one that
the request makes smaller; and to scroll a flipped list to the bottom overflows. -/
theorem prepaint_scrolls_not :
    (((hundredItems false ⟨20, .bottom, 2, false⟩).prepaint ⟨0, 0⟩).toOption.map
        (·.scrollOffset.y) = some (-110) ∧
      ¬ ∃ frame, (hundredItems false ⟨20, .bottom, 2, false⟩).prepaint ⟨0, 0⟩ = .ok frame ∧
        (hundredItems false ⟨20, .bottom, 2, false⟩).Scrolled ⟨20, .bottom, 2, false⟩ 0 frame) ∧
    (hundredItems true ⟨usizeMax, .bottom, 0, false⟩).prepaint ⟨0, 0⟩ =
      .error .arithmeticOverflow := by
  have hrun : ((hundredItems false ⟨20, .bottom, 2, false⟩).prepaint ⟨0, 0⟩).toOption.map
      (·.scrollOffset.y) = some (-110) := by decide +kernel
  refine ⟨⟨hrun, ?_⟩, rfl⟩
  rintro ⟨frame, hframe, hscrolled⟩
  have hy : frame.scrollOffset.y = -110 := by
    rw [hframe] at hrun
    exact Option.some.inj hrun
  -- the offset `-150` shows the item between `50` and `60`
  have hinside := hscrolled.visible (by decide) nofun
    ⟨-150, mem_offsets_hundredItems (by norm_num) (by norm_num), by
      norm_num [UniformList.Inside, UniformList.RowInside, UniformList.viewport,
        UniformList.rowTop, UniformList.row, UniformList.yFlipped, UniformList.itemHeight,
        UniformList.listHeight, hundredItems]⟩
  rw [hy] at hinside
  norm_num [UniformList.Inside, UniformList.RowInside, UniformList.viewport,
    UniformList.rowTop, UniformList.row, UniformList.yFlipped, UniformList.itemHeight,
    UniformList.listHeight, hundredItems] at hinside

end Zui.UniformElement
