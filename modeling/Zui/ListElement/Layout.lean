/-
Layout of the list element.

`layout_items` measures the items from the scroll top on until they fill the list, applies a
pending scroll to the first of them, moves the scroll top up when there are too few, and measures
the leading overdraw.  What it measures replaces the items in the state.

Design notes:

* what an element is laid out as is `render`, of its index;
* the elements of a layout are their sizes;
* what an element asks to be scrolled to is a function of its index and of where it is prepainted.
-/
import Zui.ListElement.Basic

namespace Zui.ListElement

open Gpui (Bounds Edges Point Size)

/-- `ItemLayout`. -/
structure ItemLayout where
  index : ℕ
  size : Size ℚ
  deriving DecidableEq

/-- What `layout_items` is called with. -/
structure LayoutInput where
  availableHeight : ℚ
  padding : Edges
  /-- `render_item`, with the layout of the element. -/
  render : ℕ → Size ℚ
  /-- `contains_focused` of a focus handle. -/
  focused : FocusHandle → Bool

/-- `contains_focused`. -/
def ListItem.containsFocused (focused : FocusHandle → Bool) (self : ListItem) : Bool :=
  self.focusHandle.any focused

/-- What `layout_items` has done so far, with the index of its cursor. -/
structure Pass where
  state : StateInner
  cursor : ℕ
  measuredItems : List ListItem
  itemLayouts : List ItemLayout
  renderedHeight : ℚ
  maxItemWidth : ℚ
  scrollTop : ListOffset
  renderedFocusedItem : Bool
  appliedTailExtra : ℚ

/-- `LayoutItemsResponse`. -/
structure LayoutItemsResponse where
  maxItemWidth : ℚ
  scrollTop : ListOffset
  itemLayouts : List ItemLayout

namespace Pass

variable (input : LayoutInput) (oldItems : List ListItem)

/-- A pending scroll is taken, and applied if it is for the item at the scroll top. -/
def applyPendingScroll (elementHeight : ℚ) (self : Pass) : Pass :=
  let taken := { self with state := { self.state with pendingScroll := none } }
  let moved (offset : ℚ) : Pass :=
    let scrollTop := { self.scrollTop with offsetInItem := offset }
    { taken with
      scrollTop := scrollTop
      state := { taken.state with logicalScrollTop := some scrollTop } }
  match self.state.pendingScroll with
  | none => self
  | some (.absolute itemIx offset) =>
    if itemIx = self.scrollTop.itemIx then moved (min offset elementHeight) else taken
  | some (.proportional itemIx fraction) =>
    if itemIx = self.scrollTop.itemIx then moved (fraction * elementHeight) else taken

/-- Whether the item at `ix` behind the scroll top is rendered, and not just taken as measured. -/
def renders (ix : ℕ) (item : ListItem) (self : Pass) : Bool :=
  self.renderedHeight - self.scrollTop.offsetInItem < input.availableHeight ||
    item.size.isNone ||
    (self.state.tailReservation.isSome && self.scrollTop.itemIx + ix + 1 = oldItems.length)

/-- An item is rendered at `ix` behind the scroll top. -/
def renderItem (ix : ℕ) (item : ListItem) (self : Pass) : Pass :=
  let visible := self.renderedHeight - self.scrollTop.offsetInItem < input.availableHeight
  let itemIndex := self.scrollTop.itemIx + ix
  let elementSize := input.render itemIndex
  let applied := if ix = 0 then self.applyPendingScroll elementSize.height else self
  if visible then
    { applied with
      itemLayouts := applied.itemLayouts ++ [⟨itemIndex, elementSize⟩]
      renderedFocusedItem := applied.renderedFocusedItem || item.containsFocused input.focused }
  else applied

/-- An item of a size is behind the items measured so far. -/
def pushBack (size : Size ℚ) (item : ListItem) (self : Pass) : Pass :=
  { self with
    renderedHeight := self.renderedHeight + size.height
    maxItemWidth := max self.maxItemWidth size.width
    measuredItems := self.measuredItems ++ [.measured size item.focusHandle] }

/-- One pass over an item at or behind the scroll top. -/
def forwardItem (ix : ℕ) (item : ListItem) (self : Pass) : Pass :=
  if self.renders input oldItems ix item then
    (self.renderItem input ix item).pushBack (input.render (self.scrollTop.itemIx + ix)) item
  else self.pushBack (item.size.getD ⟨0, 0⟩) item

/-- The loop over the items at and behind the scroll top. -/
def forward : ℕ → List ListItem → Pass → Pass
  | _, [], self => self
  | ix, item :: items, self =>
    if self.renderedHeight - self.scrollTop.offsetInItem ≥
        input.availableHeight + self.state.overdraw then self
    else forward (ix + 1) items (self.forwardItem input oldItems ix item)

/-- `reserve_tail`, of what is measured from the cursor on. -/
def reserveTail (self : Pass) : Pass :=
  match self.state.tailReservation with
  | none => self
  | some (start, inset) =>
    let minimum := max (input.availableHeight - inset) 0
    let measuredStart := self.cursor
    if self.measuredItems = [] ∨ measuredStart + self.measuredItems.length ≠ oldItems.length ∨
        start ≥ oldItems.length then self
    else
      let earlier := (oldItems.take (max measuredStart start)).drop start
      if earlier.any ListItem.hasUnknownHeight then
        { self with state := { self.state with tailExtra := 0 } }
      else
        let natural := heightOf earlier +
          heightOf (self.measuredItems.drop (start - measuredStart)) - self.appliedTailExtra
        let extra := max (minimum - natural) 0
        let delta := extra - self.appliedTailExtra
        { self with
          measuredItems := self.measuredItems.modify (self.measuredItems.length - 1) fun item =>
            match item with
            | .measured size focusHandle =>
              .measured { size with height := size.height + delta } focusHandle
            | .unmeasured sizeHint focusHandle => .unmeasured sizeHint focusHandle
          itemLayouts := self.itemLayouts.modify (self.itemLayouts.length - 1) fun layout =>
            if layout.index + 1 = oldItems.length then
              { layout with size := { layout.size with height := layout.size.height + delta } }
            else layout
          appliedTailExtra := extra
          renderedHeight := self.renderedHeight + delta
          state := { self.state with tailExtra := extra } }

/-- An item of a size is in front of the items measured so far. -/
def pushFront (size : Size ℚ) (item : ListItem) (self : Pass) : Pass :=
  { self with measuredItems := .measured size item.focusHandle :: self.measuredItems }

/-- The loop over the items in front of the scroll top that fill the list. -/
def upward : ℕ → Pass → Pass
  | 0, self => { self with cursor := 0 }
  | ix + 1, self =>
    if self.renderedHeight < input.availableHeight then
      match oldItems[ix]? with
      | some item =>
        let elementSize := input.render ix
        upward ix
          { self.pushFront elementSize item with
            renderedHeight := self.renderedHeight + elementSize.height
            itemLayouts := ⟨ix, elementSize⟩ :: self.itemLayouts
            renderedFocusedItem := self.renderedFocusedItem || item.containsFocused input.focused }
      | none => { self with cursor := ix }
    else { self with cursor := ix + 1 }

/-- The scroll top behind the items that fill the list. -/
def scrollUp (self : Pass) : Pass :=
  let offset := self.renderedHeight - input.availableHeight
  match self.state.alignment with
  | .top =>
    let scrollTop : ListOffset := ⟨self.cursor, max offset 0⟩
    { self with
      scrollTop := scrollTop
      state := { self.state with logicalScrollTop := some scrollTop } }
  | .bottom =>
    { self with
      scrollTop := ⟨self.cursor, offset⟩
      state := { self.state with logicalScrollTop := none } }

/-- The loop over the items of the leading overdraw. -/
def leading : ℕ → ℚ → Pass → Pass
  | 0, _, self => { self with cursor := 0 }
  | ix + 1, leadingOverdraw, self =>
    if leadingOverdraw < self.state.overdraw then
      match oldItems[ix]? with
      | some item =>
        let size := item.size.getD (input.render ix)
        leading ix (leadingOverdraw + size.height) (self.pushFront size item)
      | none => { self with cursor := ix }
    else { self with cursor := ix + 1 }

end Pass

namespace StateInner

variable (input : LayoutInput) (self : StateInner)

/-- The state whose scroll top follows the tail, if it is to. -/
def followTail : StateInner :=
  if self.followState.isFollowing then
    { self with logicalScrollTop := some ⟨self.items.length, 0⟩ }
  else self

/-- `layout_items` before its first loop. -/
def startLayout : Pass where
  state := self.followTail
  cursor := self.followTail.logicalScrollTopOrEdge.itemIx
  measuredItems := []
  itemLayouts := []
  renderedHeight := input.padding.top
  maxItemWidth := 0
  scrollTop := self.followTail.logicalScrollTopOrEdge
  renderedFocusedItem := false
  appliedTailExtra := 0

/-- `layout_items` behind its first loop. -/
def layoutForward : Pass :=
  let start := self.startLayout input
  start.forward input self.items 0 (self.items.drop start.scrollTop.itemIx)

/-- The list is filled from above if the items behind the scroll top do not fill it. -/
def fillUpward (pass : Pass) : Pass :=
  if pass.renderedHeight - pass.scrollTop.offsetInItem < input.availableHeight then
    ((pass.upward input self.items pass.cursor).reserveTail input self.items).scrollUp input
  else pass

/-- The items that were measured replace those of the list. -/
def measuredItems (pass : Pass) : List ListItem :=
  self.items.take pass.cursor ++ pass.measuredItems ++
    self.items.drop (pass.cursor + pass.measuredItems.length)

/-- A list that was scrolled back to its end follows the tail again. -/
def resumeFollowing (availableHeight : ℚ) (scrollTop : ListOffset) : StateInner :=
  let padding := paddingOrZero self.lastPadding
  let totalHeight := heightOf self.items + padding.top + padding.bottom
  if self.followState.hasStoppedFollowing ∧
      self.scrollTop scrollTop + availableHeight ≥ totalHeight - 1 then
    { self with followState := self.followState.startFollowing }
  else self

/-- The layout of an item with the focus, which is rendered even if it is not visible. -/
def focusedLayout : List ItemLayout :=
  match self.items.findIdx? (ListItem.containsFocused input.focused) with
  | some itemIndex => [⟨itemIndex, input.render itemIndex⟩]
  | none => []

/-- `layout_items`. -/
def layoutItems : StateInner × LayoutItemsResponse :=
  let pass := (self.layoutForward input).reserveTail input self.items
  let pass :=
    self.fillUpward input { pass with renderedHeight := pass.renderedHeight + input.padding.bottom }
  let pass := pass.leading input self.items pass.cursor pass.scrollTop.offsetInItem
  let state :=
    { pass.state with items := self.measuredItems pass }.resumeFollowing input.availableHeight
      pass.scrollTop
  (state,
    { maxItemWidth := pass.maxItemWidth
      scrollTop := pass.scrollTop
      itemLayouts :=
        if pass.renderedFocusedItem then pass.itemLayouts
        else pass.itemLayouts ++ state.focusedLayout input })

/-- `layout_all_items`. -/
def layoutAllItems (render : ℕ → Size ℚ) : StateInner :=
  if self.measuringBehavior = .measure false then
    { self with
      measuringBehavior := .measure true
      items := self.items.mapIdx fun ix item =>
        .measured (item.size.getD (render ix)) item.focusHandle }
  else self

/-- The items are measured again when the width of the list has changed. -/
def invalidateWidth (width : ℚ) : StateInner :=
  if self.lastLayoutBounds.all fun lastBounds => lastBounds.size.width ≠ width then
    { self with
      items := self.items.map fun item => .unmeasured none item.focusHandle
      measuringBehavior := self.measuringBehavior.reset }
  else self

/-! ### Autoscroll -/

/-- The height of an item, which is rendered if it has no size. -/
def itemHeight (render : ℕ → Size ℚ) (ix : ℕ) : ℚ :=
  ((self.items[ix]?.bind ListItem.size).getD (render ix)).height

/-- The loop of `prepaint_items` into earlier items, for a request above the list. -/
def scrollAbove (render : ℕ → Size ℚ) : ℕ → ℚ → ListOffset
  | 0, offsetInItem => ⟨0, max offsetInItem 0⟩
  | ix + 1, offsetInItem =>
    if offsetInItem < 0 then scrollAbove render ix (offsetInItem + self.itemHeight render ix)
    else ⟨ix + 1, offsetInItem⟩

/-- The loop of `prepaint_items` over the items that fill the list, for a request below it. -/
def scrollBelow (render : ℕ → Size ℚ) : ℕ → ℚ → ListOffset
  | 0, height => ⟨0, max (-height) 0⟩
  | ix + 1, height =>
    if 0 < height then scrollBelow render ix (height - self.itemHeight render ix)
    else ⟨ix + 1, max (-height) 0⟩

/-- The scroll top that shows what an item at `originY` asks to be scrolled to, if it is outside of
the list. -/
def autoscrollTo (bounds : Bounds ℚ) (padding : Edges) (render : ℕ → Size ℚ) (ix : ℕ) (originY : ℚ)
    (autoscrollBounds : Bounds ℚ) : Option ListOffset :=
  let bottom := autoscrollBounds.origin.y + autoscrollBounds.size.height
  if autoscrollBounds.origin.y < bounds.origin.y then
    some (self.scrollAbove render ix (autoscrollBounds.origin.y - originY))
  else if bounds.origin.y + bounds.size.height < bottom then
    some (self.scrollBelow render ix
      (bounds.size.height - padding.top - padding.bottom - (bottom - originY)))
  else none

/-- The items are prepainted one below the other, up to the first one whose request is honored. -/
def autoscrollRequest (bounds : Bounds ℚ) (padding : Edges) (render : ℕ → Size ℚ)
    (requests : ℕ → Point ℚ → Option (Bounds ℚ)) : List ItemLayout → ℚ → Option ListOffset
  | [], _ => none
  | item :: items, originY =>
    ((requests item.index ⟨bounds.origin.x, originY⟩).bind
      (self.autoscrollTo bounds padding render item.index originY)).or
      (autoscrollRequest bounds padding render requests items (originY + item.size.height))

/-- `prepaint_items` that honors no requests. -/
def prepaintItems (bounds : Bounds ℚ) (padding : Edges) (render : ℕ → Size ℚ)
    (focused : FocusHandle → Bool) : StateInner × LayoutItemsResponse :=
  let (state, layout) := (self.layoutAllItems render).layoutItems
    { availableHeight := bounds.size.height, padding := padding, render := render,
      focused := focused }
  (state,
    if padding.top + padding.bottom < bounds.size.height then layout
    else { layout with itemLayouts := [] })

/-- `prepaint`, whose layout is what is painted.  The first request that is honored sets the scroll
top, and the items are prepainted again. -/
def prepaint (bounds : Bounds ℚ) (padding : Edges) (render : ℕ → Size ℚ)
    (focused : FocusHandle → Bool) (requests : ℕ → Point ℚ → Option (Bounds ℚ)) :
    StateInner × LayoutItemsResponse :=
  let invalidated := { self with reset := false }.invalidateWidth bounds.size.width
  let (state, layout) := invalidated.prepaintItems bounds padding render focused
  let (state, layout) :=
    match state.autoscrollRequest bounds padding render requests layout.itemLayouts
      (bounds.origin.y + padding.top - layout.scrollTop.offsetInItem) with
    | some request =>
      { state with logicalScrollTop := some request }.prepaintItems bounds padding render focused
    | none => (state, layout)
  ({ state with lastLayoutBounds := some bounds, lastPadding := some padding }, layout)

end StateInner

end Zui.ListElement
