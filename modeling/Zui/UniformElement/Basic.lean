/-
The uniform list element.

All items of a `UniformList` have the height of one measured item.  Code that owns the list asks its
scroll handle for an item; the next `prepaint` takes the request, moves the scroll offset, and
places the items of the visible range.

Design notes:

* pixels are exact;
* the offset of the element and the copy that `prepaint` works on are one value: the code writes
  both whenever it changes one;
* an element that `render_items` builds is the index of its item, and the decorations, which read
  the result only, are left out.
-/
import Zui.Paint.Scene
import Zui.Util.Wrapped

namespace Zui.UniformElement

open Gpui (Bounds Edges Point Size)
open Util (addUsize)

/-! ### Requests -/

/-- `ScrollStrategy`. -/
inductive ScrollStrategy
  | top
  | center
  | bottom
  | nearest
  deriving DecidableEq

/-- `DeferredScrollToItem`. -/
structure DeferredScrollToItem where
  itemIndex : ℕ
  strategy : ScrollStrategy
  offset : ℕ
  scrollStrict : Bool

/-- What `prepaint` reads of a `UniformListScrollState`. -/
structure UniformListScrollState where
  deferredScrollToItem : Option DeferredScrollToItem
  yFlipped : Bool

namespace UniformListScrollState

/-- `scroll_to_item`. -/
def scrollToItem (self : UniformListScrollState) (ix : ℕ) (strategy : ScrollStrategy) :
    UniformListScrollState :=
  { self with deferredScrollToItem := some ⟨ix, strategy, 0, false⟩ }

/-- `scroll_to_item_strict`. -/
def scrollToItemStrict (self : UniformListScrollState) (ix : ℕ) (strategy : ScrollStrategy) :
    UniformListScrollState :=
  { self with deferredScrollToItem := some ⟨ix, strategy, 0, true⟩ }

/-- `scroll_to_item_with_offset`. -/
def scrollToItemWithOffset (self : UniformListScrollState) (ix : ℕ) (strategy : ScrollStrategy)
    (offset : ℕ) : UniformListScrollState :=
  { self with deferredScrollToItem := some ⟨ix, strategy, offset, false⟩ }

/-- `scroll_to_item_strict_with_offset`. -/
def scrollToItemStrictWithOffset (self : UniformListScrollState) (ix : ℕ)
    (strategy : ScrollStrategy) (offset : ℕ) : UniformListScrollState :=
  { self with deferredScrollToItem := some ⟨ix, strategy, offset, true⟩ }

/-- `scroll_to_bottom`. -/
def scrollToBottom (self : UniformListScrollState) : UniformListScrollState :=
  self.scrollToItem usizeMax .bottom

end UniformListScrollState

/-! ### The element -/

/-- What `prepaint` reads of a `UniformList`, with what it computes first: the size of the measured
item, the bounds inside the border and the padding, and the padding. -/
structure UniformList where
  itemCount : ℕ
  scrollHandle : Option UniformListScrollState
  canScrollHorizontally : Bool
  longestItemSize : Size ℚ
  paddedBounds : Bounds ℚ
  padding : Edges

/-- `prepaint` of a list: the scroll offset behind it, and the items that it places. -/
structure Frame where
  scrollOffset : Point ℚ
  items : List (ℕ × Point ℚ)

/-- `clamp`, for `low ≤ high`. -/
def clamp (x low high : ℚ) : ℚ := if x < low then low else if high < x then high else x

namespace UniformList

variable (self : UniformList)

/-- `item_height`. -/
def itemHeight : ℚ := self.longestItemSize.height

/-- `list_height`. -/
def listHeight : ℚ := self.paddedBounds.size.height

/-- `content_height`. -/
def contentHeight : ℚ := self.itemHeight * self.itemCount

/-- `content_size`. -/
def contentSize : Size ℚ where
  width :=
    if self.canScrollHorizontally then
      max self.paddedBounds.size.width self.longestItemSize.width
    else self.paddedBounds.size.width
  height := self.contentHeight

/-- `max_scroll_offset` of a request. -/
def maxScrollOffset : ℚ := max (self.contentHeight - self.listHeight) 0

/-- `y_flipped`. -/
def yFlipped : Bool :=
  match self.scrollHandle with
  | some scrollState => scrollState.yFlipped
  | none => false

/-- `shared_scroll_to_item`. -/
def sharedScrollToItem : Option DeferredScrollToItem :=
  self.scrollHandle.bind (·.deferredScrollToItem)

/-- The scroll offset, brought back where the content has become smaller. -/
def settleScrollOffset (scrollOffset : Point ℚ) : Point ℚ where
  x :=
    let contentWidth := self.contentSize.width + self.padding.left + self.padding.right
    if (self.canScrollHorizontally ∧ scrollOffset.x ≠ 0) ∧
        contentWidth ≤ self.paddedBounds.size.width then 0
    else scrollOffset.x
  y :=
    let maxScrollOffset := self.paddedBounds.size.height - self.contentHeight
    if scrollOffset.y ≠ 0 ∧ scrollOffset.y < maxScrollOffset then maxScrollOffset
    else scrollOffset.y

/-- The row of the item in a request. -/
def rowOfIndex (itemIndex : ℕ) : Gpui.Result ℕ := do
  if self.yFlipped then
    let next ← addUsize itemIndex 1
    -- `saturating_sub`
    return self.itemCount - next
  else
    return itemIndex

/-- `is_above`. -/
def isAbove (row offset : ℕ) (y : ℚ) : Bool :=
  self.itemHeight * row < -y + self.itemHeight * offset

/-- `is_below`. -/
def isBelow (row : ℕ) (y : ℚ) : Bool :=
  self.itemHeight * row + self.itemHeight > -y + self.listHeight

/-- The strategy of a request that scrolls. -/
def resolveStrategy (strategy : ScrollStrategy) (isAbove isBelow : Bool) : ScrollStrategy :=
  match strategy with
  | .nearest => if isAbove then .top else if isBelow then .bottom else .nearest
  | strategy => strategy

/-- `updated_scroll_offset` for an item in a row. -/
def updatedScrollOffset (request : DeferredScrollToItem) (row : ℕ) (y : ℚ) : ℚ :=
  let itemTop := self.itemHeight * row
  let itemBottom := itemTop + self.itemHeight
  let offsetPixels := self.itemHeight * request.offset
  let isAbove := self.isAbove row request.offset y
  let isBelow := self.isBelow row y
  if request.scrollStrict ∨ isAbove ∨ isBelow then
    match resolveStrategy request.strategy isAbove isBelow with
    | .top => -clamp (itemTop - offsetPixels) 0 self.maxScrollOffset
    | .center =>
      let itemCenter := itemTop + self.itemHeight / 2
      let viewportHeight := self.listHeight - offsetPixels
      let viewportCenter := offsetPixels + viewportHeight / 2
      let targetScrollTop := itemCenter - viewportCenter
      (-clamp targetScrollTop 0 self.maxScrollOffset)
    | .bottom => -clamp (itemBottom - self.listHeight) 0 self.maxScrollOffset
    | .nearest => y
  else y

/-- The range of rows that `prepaint` places. -/
def visibleRange (scrollOffset : Point ℚ) : ℕ × ℕ :=
  -- `as usize` gives `0` below `0`
  let first := ⌊-(scrollOffset.y + self.padding.top) / self.itemHeight⌋.toNat
  let last := ⌈(-scrollOffset.y + self.listHeight) / self.itemHeight⌉.toNat
  (first, min last self.itemCount)

/-- The items of a range. -/
def renderItems (start stop : ℕ) : List ℕ := List.range' start (stop - start)

/-- The items of the visible range with their origins. -/
def placeItems (scrollOffset : Point ℚ) : List (ℕ × Point ℚ) :=
  let (start, stop) := self.visibleRange scrollOffset
  let items :=
    if self.yFlipped then
      (renderItems (self.itemCount - stop) (self.itemCount - start)).reverse
    else renderItems start stop
  (items.zip (renderItems start stop)).map fun (item, ix) =>
    (item, ⟨self.paddedBounds.origin.x + scrollOffset.x,
      self.paddedBounds.origin.y + scrollOffset.y + self.itemHeight * ix⟩)

/-- `prepaint`. -/
def prepaint (scrollOffset : Point ℚ) : Gpui.Result Frame := do
  if self.itemCount > 0 then
    let mut scrollOffset := self.settleScrollOffset scrollOffset
    if let some request := self.sharedScrollToItem then
      let row ← self.rowOfIndex request.itemIndex
      scrollOffset := { scrollOffset with y := self.updatedScrollOffset request row scrollOffset.y }
    return ⟨scrollOffset, self.placeItems scrollOffset⟩
  else
    return ⟨scrollOffset, []⟩

end UniformList

end Zui.UniformElement
