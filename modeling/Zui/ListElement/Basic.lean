/-
The list element.

A `ListState` keeps the items of a list with the heights that they were measured with, and where
the list is scrolled to: at which item, and how far into it.  It is changed by the code that owns
the list, by the listener for the scroll wheel, and by layout, which is in the next module.

Design notes:

* pixels are exact, and heights are not negative, so that a seek by height passes the items
  that end at or before it;
* the tree of items is the list of them: a cursor at an item is its index, and `seekHeight`
  is a seek to a `Height`;
* of a scroll handler, only the events that it is called with are here.
-/
import Zui.Paint.Scene
import Zui.SumTree.Basic

namespace Zui.ListElement

open Gpui (Bounds Edges Point Size)

/-- `FocusHandle`. -/
abbrev FocusHandle : Type := ℕ

/-! ### Items -/

/-- `ListItem`. -/
inductive ListItem
  | unmeasured (sizeHint : Option (Size ℚ)) (focusHandle : Option FocusHandle)
  | measured (size : Size ℚ) (focusHandle : Option FocusHandle)
  deriving DecidableEq

namespace ListItem

/-- `size`. -/
def size : ListItem → Option (Size ℚ)
  | unmeasured _ _ => none
  | measured size _ => some size

/-- `size_hint`. -/
def sizeHint : ListItem → Option (Size ℚ)
  | unmeasured sizeHint _ => sizeHint
  | measured size _ => some size

/-- `focus_handle`. -/
def focusHandle : ListItem → Option FocusHandle
  | unmeasured _ focusHandle => focusHandle
  | measured _ focusHandle => focusHandle

/-- `height` of the summary. -/
def height (self : ListItem) : ℚ :=
  match self.sizeHint with
  | some size => size.height
  | none => 0

/-- `has_unknown_height` of the summary. -/
def hasUnknownHeight (self : ListItem) : Bool := self.sizeHint.isNone

/-- The item, to be measured again. -/
def forget (self : ListItem) : ListItem := unmeasured self.sizeHint self.focusHandle

end ListItem

/-- `height` of the summary of some items. -/
def heightOf (items : List ListItem) : ℚ := (items.map ListItem.height).sum

/-- The items that a seek to a height passes: how many, and how high they are. -/
def passHeight (bias : Bias) (target : ℚ) : List ListItem → ℕ × ℚ → ℕ × ℚ
  | [], start => start
  | item :: items, (count, height) =>
    let childEnd := height + item.height
    if childEnd < target ∨ (childEnd = target ∧ bias = .right) then
      passHeight bias target items (count + 1, childEnd)
    else (count, height)

/-- A seek to a height from the item at an index on: the count and the height in front. -/
def seekHeight (bias : Bias) (target : ℚ) (items : List ListItem) (ix : ℕ) : ℕ × ℚ :=
  passHeight bias target (items.drop ix) (min ix items.length, heightOf (items.take ix))

/-! ### The state -/

/-- `ListOffset`. -/
structure ListOffset where
  itemIx : ℕ
  offsetInItem : ℚ
  deriving DecidableEq

/-- `PendingScroll`. -/
inductive PendingScroll
  | absolute (itemIx : ℕ) (offset : ℚ)
  | proportional (itemIx : ℕ) (fraction : ℚ)
  deriving DecidableEq

/-- `ScrollAnchor`. -/
inductive ScrollAnchor
  | absolute
  | proportional
  deriving DecidableEq

/-- `FollowMode`. -/
inductive FollowMode
  | normal
  | tail
  deriving DecidableEq

/-- `FollowState`. -/
inductive FollowState
  | normal
  | tail (isFollowing : Bool)
  deriving DecidableEq

namespace FollowState

/-- `is_following`. -/
def isFollowing (self : FollowState) : Bool := self = tail true

/-- `has_stopped_following`. -/
def hasStoppedFollowing (self : FollowState) : Bool := self = tail false

/-- `start_following`. -/
def startFollowing (self : FollowState) : FollowState :=
  if self = tail false then tail true else self

/-- `stop_following`. -/
def stopFollowing (self : FollowState) : FollowState :=
  if self = tail true then tail false else self

end FollowState

/-- `ListAlignment`. -/
inductive ListAlignment
  | top
  | bottom
  deriving DecidableEq

/-- `ListMeasuringBehavior`. -/
inductive ListMeasuringBehavior
  | measure (hasMeasured : Bool)
  | visible
  deriving DecidableEq

/-- `ListMeasuringBehavior::reset`. -/
def ListMeasuringBehavior.reset : ListMeasuringBehavior → ListMeasuringBehavior
  | measure _ => measure false
  | visible => visible

/-- `ListScrollEvent`. -/
structure ListScrollEvent where
  visibleRange : ℕ × ℕ
  count : ℕ
  isScrolled : Bool
  isFollowingTail : Bool
  deriving DecidableEq

/-- `StateInner`. -/
structure StateInner where
  lastLayoutBounds : Option (Bounds ℚ)
  lastPadding : Option Edges
  items : List ListItem
  logicalScrollTop : Option ListOffset
  alignment : ListAlignment
  overdraw : ℚ
  reset : Bool
  /-- Whether there is a `scroll_handler`. -/
  scrollHandler : Bool
  scrollbarDragStartHeight : Option ℚ
  measuringBehavior : ListMeasuringBehavior
  pendingScroll : Option PendingScroll
  followState : FollowState
  tailReservation : Option (ℕ × ℚ)
  tailExtra : ℚ
  deriving DecidableEq

/-- The height of some bounds, or of the default ones. -/
def heightOrZero (bounds : Option (Bounds ℚ)) : ℚ :=
  match bounds with
  | some bounds => bounds.size.height
  | none => 0

/-- Some padding, or the default one. -/
def paddingOrZero (padding : Option Edges) : Edges := padding.getD ⟨0, 0, 0, 0⟩

namespace StateInner

variable (self : StateInner)

/-- `logical_scroll_top`. -/
def logicalScrollTopOrEdge : ListOffset :=
  self.logicalScrollTop.getD
    (match self.alignment with
    | .top => ⟨0, 0⟩
    | .bottom => ⟨self.items.length, 0⟩)

/-- `scroll_top`. -/
def scrollTop (logicalScrollTop : ListOffset) : ℚ :=
  heightOf (self.items.take logicalScrollTop.itemIx) + logicalScrollTop.offsetInItem

/-- `rebase_pending_scroll`. -/
def rebasePendingScroll (scrollTop : ListOffset) : StateInner :=
  match self.pendingScroll with
  | none => self
  | some pending =>
    if scrollTop.itemIx ≥ self.items.length then { self with pendingScroll := none }
    else
      { self with
        pendingScroll :=
          match pending with
          | .absolute _ _ => some (.absolute scrollTop.itemIx scrollTop.offsetInItem)
          | .proportional _ _ =>
            ((self.items[scrollTop.itemIx]?.bind ListItem.sizeHint).filter
              (fun size => size.height > 0)).map fun size =>
                .proportional scrollTop.itemIx
                  (max 0 (min 1 (scrollTop.offsetInItem / size.height))) }

/-- `visible_range`.  Its second seek panics if the viewport ends above the item at the scroll
top. -/
def visibleRange (items : List ListItem) (height : ℚ) (scrollTop : ListOffset) : Result (ℕ × ℕ) :=
  let start := heightOf (items.take scrollTop.itemIx)
  let startY := start + scrollTop.offsetInItem
  if startY + height < start then .error .seekBackward
  else .ok (scrollTop.itemIx, (seekHeight .left (startY + height) items scrollTop.itemIx).1 + 1)

/-- The end of the range that a list of some height scrolls over. -/
def scrollMax (height : ℚ) : ℚ :=
  let padding := paddingOrZero self.lastPadding
  max (heightOf self.items + padding.top + padding.bottom - height) 0

/-- The scroll top at a height. -/
def offsetAt (newScrollTop : ℚ) : ListOffset :=
  let (count, height) := seekHeight .right newScrollTop self.items 0
  ⟨count, newScrollTop - height⟩

/-- The list is scrolled to a height in a range up to `scrollMax`. -/
def scrollToHeight (newScrollTop scrollMax : ℚ) : StateInner :=
  if self.alignment = .bottom ∧ newScrollTop = scrollMax then
    { self with pendingScroll := none, logicalScrollTop := none }
  else
    let scrollTop := self.offsetAt newScrollTop
    { self.rebasePendingScroll scrollTop with logicalScrollTop := some scrollTop }

/-- What a scroll handler is called with. -/
def scrollEvent (height : ℚ) (scrollTop : ListOffset) : Result (Option ListScrollEvent) :=
  if self.scrollHandler then do
    let visibleRange ← visibleRange self.items height scrollTop
    return some
      { visibleRange := visibleRange
        count := self.items.length
        isScrolled := self.logicalScrollTop.isSome
        isFollowingTail := self.followState.isFollowing }
  else return none

/-- `scroll`: the state as it leaves it, and the event for the scroll handler or its panic. -/
def scroll (scrollTop : ListOffset) (height : ℚ) (delta : Point ℚ) :
    StateInner × Result (Option ListScrollEvent) :=
  if self.reset then (self, .ok none)
  else
    let newScrollTop := min (max (self.scrollTop scrollTop - delta.y) 0) (self.scrollMax height)
    let scrolled := self.scrollToHeight newScrollTop (self.scrollMax height)
    let stopped :=
      if delta.y > 0 then { scrolled with followState := scrolled.followState.stopFollowing }
      else scrolled
    (stopped, stopped.scrollEvent height scrollTop)

/-- `set_offset_from_scrollbar`. -/
def setOffsetFromScrollbar (point : Point ℚ) : StateInner :=
  match self.lastLayoutBounds with
  | none => self
  | some bounds =>
    let padding := paddingOrZero self.lastPadding
    let contentHeight := self.scrollbarDragStartHeight.getD (heightOf self.items)
    let scrollMax := max (contentHeight + padding.top + padding.bottom - bounds.size.height) 0
    let newScrollTop := min (max (-point.y) 0) scrollMax
    if scrollMax > 0 ∧ newScrollTop ≥ max (scrollMax - 1) 0 ∧ self.followState ≠ .normal then
      { self with
        followState := .tail true
        pendingScroll := none
        logicalScrollTop := some ⟨self.items.length, 0⟩ }
    else
      { self with followState := self.followState.stopFollowing }.scrollToHeight
        newScrollTop scrollMax

/-! ### Calls of `ListState` -/

/-- `clear_tail_extra`. -/
def clearTailExtra : StateInner :=
  if self.tailExtra = 0 ∨ self.items.isEmpty then self
  else
    { self with
      items := self.items.take (self.items.length - 1) ++
        (self.items.drop (self.items.length - 1)).map fun item =>
          .unmeasured
            (item.sizeHint.map fun size =>
              { size with height := max (size.height - self.tailExtra) 0 })
            item.focusHandle
      tailExtra := 0 }

/-- `set_tail_reservation`. -/
def setTailReservation (reservation : Option (ℕ × ℚ)) : StateInner :=
  if self.tailReservation = reservation then self
  else { self.clearTailExtra with tailReservation := reservation }

/-- The items behind a splice. -/
def splicedItems (oldRange : ℕ × ℕ) (focusHandles : List (Option FocusHandle)) : List ListItem :=
  self.items.take oldRange.1 ++ focusHandles.map (.unmeasured none) ++ self.items.drop oldRange.2

/-- The scroll top behind a splice. -/
def splicedScrollTop (oldRange : ℕ × ℕ) (splicedCount : ℕ) (scrollTop : ListOffset) : ListOffset :=
  if oldRange.1 ≤ scrollTop.itemIx ∧ scrollTop.itemIx < oldRange.2 then ⟨oldRange.1, 0⟩
  else if oldRange.2 ≤ scrollTop.itemIx then
    { scrollTop with itemIx := scrollTop.itemIx - (oldRange.2 - oldRange.1) + splicedCount }
  else scrollTop

/-- `splice_focusable`. -/
def spliceFocusable (oldRange : ℕ × ℕ) (focusHandles : List (Option FocusHandle)) : StateInner :=
  let self := self.clearTailExtra
  { self with
    items := self.splicedItems oldRange focusHandles
    logicalScrollTop :=
      self.logicalScrollTop.map (splicedScrollTop oldRange focusHandles.length) }

/-- `splice`. -/
def splice (oldRange : ℕ × ℕ) (count : ℕ) : StateInner :=
  self.spliceFocusable oldRange (List.replicate count none)

/-- The pending scroll of `remeasure_items_with_scroll_anchor`. -/
def pendingFor (scrollAnchor : ScrollAnchor) (scrollTop : ListOffset) : Option PendingScroll :=
  match scrollAnchor with
  | .absolute => some (.absolute scrollTop.itemIx scrollTop.offsetInItem)
  | .proportional =>
    match self.items[scrollTop.itemIx]?.bind ListItem.size with
    | some size =>
      some (.proportional scrollTop.itemIx
        (if size.height > 0 then max 0 (min 1 (scrollTop.offsetInItem / size.height)) else 0))
    | none => self.pendingScroll

/-- `remeasure_items_with_scroll_anchor`. -/
def remeasureItemsWithScrollAnchor (range : ℕ × ℕ) (scrollAnchor : ScrollAnchor) : StateInner :=
  { self with
    pendingScroll :=
      match self.logicalScrollTop with
      | some scrollTop =>
        if range.1 ≤ scrollTop.itemIx ∧ scrollTop.itemIx < range.2 then
          self.pendingFor scrollAnchor scrollTop
        else self.pendingScroll
      | none => self.pendingScroll
    items := self.items.take range.1 ++
      ((self.items.take range.2).drop range.1).map ListItem.forget ++
      self.items.drop (max range.1 range.2)
    measuringBehavior := self.measuringBehavior.reset }

/-- `remeasure`. -/
def remeasure : StateInner :=
  self.remeasureItemsWithScrollAnchor (0, self.items.length) .proportional

/-- `remeasure_items`. -/
def remeasureItems (range : ℕ × ℕ) : StateInner :=
  self.remeasureItemsWithScrollAnchor range .absolute

/-- `ListState::reset`. -/
def resetTo (elementCount : ℕ) : StateInner :=
  { self with
    reset := true
    measuringBehavior := self.measuringBehavior.reset
    logicalScrollTop := none
    pendingScroll := none
    scrollbarDragStartHeight := none }.splice (0, self.items.length) elementCount

/-- The scroll top of `scroll_by`. -/
def scrolledBy (distance : ℚ) : ListOffset :=
  let currentOffset := self.logicalScrollTopOrEdge
  let start := heightOf (self.items.take currentOffset.itemIx)
  let newPixelOffset := max (start + currentOffset.offsetInItem + distance) 0
  let passed :=
    if newPixelOffset ≥ start then
      seekHeight .right newPixelOffset self.items currentOffset.itemIx
    else seekHeight .right newPixelOffset self.items 0
  ⟨passed.1, newPixelOffset - passed.2⟩

/-- `scroll_by`. -/
def scrollBy (distance : ℚ) : StateInner :=
  if distance = 0 then self
  else
    let stopped :=
      if distance < 0 then { self with followState := self.followState.stopFollowing } else self
    let scrollTop := self.scrolledBy distance
    { stopped.rebasePendingScroll scrollTop with logicalScrollTop := some scrollTop }

/-- `scroll_to_end`. -/
def scrollToEnd : StateInner :=
  { self with pendingScroll := none, logicalScrollTop := some ⟨self.items.length, 0⟩ }

/-- `set_follow_mode`. -/
def setFollowMode : FollowMode → StateInner
  | .normal => { self with followState := .normal }
  | .tail =>
    { self with followState := .tail true, logicalScrollTop := some ⟨self.items.length, 0⟩ }

/-- `scroll_to`. -/
def scrollTo (offset : ListOffset) : StateInner :=
  let scrollTop := if offset.itemIx ≥ self.items.length then ⟨self.items.length, 0⟩ else offset
  let stopped :=
    if scrollTop.itemIx < self.items.length then
      { self with followState := self.followState.stopFollowing }
    else self
  { stopped.rebasePendingScroll scrollTop with logicalScrollTop := some scrollTop }

/-- The scroll top of `scroll_to_reveal_item`. -/
def revealingScrollTop (ix : ℕ) : ListOffset :=
  let scrollTop := self.logicalScrollTopOrEdge
  let padding := paddingOrZero self.lastPadding
  if ix ≤ scrollTop.itemIx then ⟨ix, 0⟩
  else
    let bottom := heightOf (self.items.take (ix + 1)) + padding.top
    let goalTop := max 0 (bottom - heightOrZero self.lastLayoutBounds + padding.bottom)
    let (startIx, startItemTop) := seekHeight .left goalTop self.items 0
    if startIx ≥ scrollTop.itemIx then ⟨startIx, goalTop - startItemTop⟩ else scrollTop

/-- `scroll_to_reveal_item`. -/
def scrollToRevealItem (ix : ℕ) : StateInner :=
  let scrollTop := self.revealingScrollTop ix
  { self.rebasePendingScroll scrollTop with logicalScrollTop := some scrollTop }

/-- `scrollbar_drag_started`. -/
def scrollbarDragStarted : StateInner :=
  { self with scrollbarDragStartHeight := some (heightOf self.items) }

/-- `scrollbar_drag_ended`. -/
def scrollbarDragEnded : StateInner := { self with scrollbarDragStartHeight := none }

/-- `ListState::new`. -/
def new (itemCount : ℕ) (alignment : ListAlignment) (overdraw : ℚ) : StateInner :=
  { lastLayoutBounds := none
    lastPadding := none
    items := []
    logicalScrollTop := none
    alignment := alignment
    overdraw := overdraw
    reset := false
    scrollHandler := false
    scrollbarDragStartHeight := none
    measuringBehavior := .visible
    pendingScroll := none
    followState := .normal
    tailReservation := none
    tailExtra := 0 : StateInner }.splice (0, 0) itemCount

end StateInner

end Zui.ListElement
