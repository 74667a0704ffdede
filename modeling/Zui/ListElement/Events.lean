/-
Events of a scroll handler.

A scroll handler is told which items are in view, and how many there are.  The range of the items in
view is computed behind the scroll, but from the scroll top of the layout before it.  It is not
computed at all, and the scroll panics, if all of the viewport was above the item at that scroll
top.

Design notes:

* an item is `inset` pixels below where the list is scrolled to: that is the padding above the
  items, as they are painted, or zero, as `bounds_for_item` has it.

Main statements:

* `visibleRange_iff` — the items in view, as the range from the scroll top of the layout tells them;
* `describes_iff` — an event describes the list behind it exactly if its scroll crosses no item;
* `event_lags_behind` — an event that tells the items in view before it.
-/
import Zui.ListElement.Wheel

namespace Zui.ListElement

open Gpui (Bounds Edges Point Size)

namespace StateInner

/-- `set_scroll_handler`. -/
def setScrollHandler (self : StateInner) : StateInner := { self with scrollHandler := true }

/-- An item is in the viewport. -/
def InViewport (inset height : ℚ) (ix : ℕ) (self : StateInner) : Prop :=
  self.position height - inset < heightOf (self.items.take (ix + 1)) ∧
    heightOf (self.items.take ix) < self.position height - inset + height

/-- The range of an event is one of items, and those are the items in the viewport. -/
structure Describes (inset height : ℚ) (event : ListScrollEvent) (state : StateInner) : Prop where
  within : event.visibleRange.2 ≤ event.count
  visible : ∀ ix < event.count,
    (event.visibleRange.1 ≤ ix ∧ ix < event.visibleRange.2 ↔ state.InViewport inset height ix)

/-- The viewport moves from the scroll top of a layout and crosses no item: its top edge ends in the
item that it was in, and its bottom edge, which was in an item, reaches behind the same beginnings
of items. -/
structure CrossesNoItem (inset height : ℚ) (scrollTop : ListOffset) (delta : Point ℚ)
    (state : StateInner) : Prop where
  forward : 0 ≤ scrollTop.offsetInItem + height
  lt_length : scrollTop.itemIx < state.items.length
  filled : state.scrollTop scrollTop + height ≤ heightOf state.items
  top_le : scrollTop.itemIx ≠ 0 → heightOf (state.items.take scrollTop.itemIx) ≤
    state.clamp height (state.scrollTop scrollTop - delta.y) - inset
  lt_top : state.clamp height (state.scrollTop scrollTop - delta.y) - inset <
    heightOf (state.items.take (scrollTop.itemIx + 1))
  lt_bottom : heightOf (state.items.take scrollTop.itemIx) <
    state.clamp height (state.scrollTop scrollTop - delta.y) - inset + height
  bottom : ∀ ix, scrollTop.itemIx < ix → ix < state.items.length →
    (heightOf (state.items.take ix) < state.scrollTop scrollTop + height ↔
      heightOf (state.items.take ix) <
        state.clamp height (state.scrollTop scrollTop - delta.y) - inset + height)

end StateInner

/-! ### The range of an event -/

section Range

variable {items : List ListItem} {height : ℚ} {scrollTop : ListOffset} {range : ℕ × ℕ}

/-- A range is computed from a viewport that reaches down to the item at the scroll top. -/
theorem visibleRange_eq_ok_iff :
    StateInner.visibleRange items height scrollTop = .ok range ↔
      0 ≤ scrollTop.offsetInItem + height ∧
        range = (scrollTop.itemIx, (seekHeight .left (heightOf (items.take scrollTop.itemIx) +
          scrollTop.offsetInItem + height) items scrollTop.itemIx).1 + 1) := by
  rw [StateInner.visibleRange]
  by_cases hforward : 0 ≤ scrollTop.offsetInItem + height
  · rw [if_neg (by linarith), Except.ok.injEq, eq_comm]
    simp [hforward]
  · rw [if_pos (by linarith)]
    simp [hforward]

/-- The range ends at an item if the items reach down to the end of the viewport. -/
theorem visibleRange_le_iff (hitems : HeightsNonneg items)
    (hrange : StateInner.visibleRange items height scrollTop = .ok range) :
    range.2 ≤ items.length ↔
      scrollTop.itemIx < items.length ∧
        heightOf (items.take scrollTop.itemIx) + scrollTop.offsetInItem + height ≤
          heightOf items := by
  obtain ⟨-, rfl⟩ := visibleRange_eq_ok_iff.mp hrange
  dsimp only
  generalize htarget : heightOf (items.take scrollTop.itemIx) + scrollTop.offsetInItem +
    height = target
  rcases Nat.lt_or_ge items.length scrollTop.itemIx with hbehind | hix
  · have hend : (seekHeight .left target items scrollTop.itemIx).1 = items.length := by
      rw [seekHeight, List.drop_eq_nil_of_le hbehind.le, min_eq_right hbehind.le]
      rfl
    rw [hend]
    omega
  · have hfound := seekHeight_found .left target hix
    have hle := hfound.le
    constructor
    · intro hlt
      have hstops := hfound.stops hlt
      refine ⟨lt_of_le_of_lt hle hlt, ?_⟩
      have hend : target ≤ heightOf (items.take
        ((seekHeight .left target items scrollTop.itemIx).1 + 1)) := by
        by_contra hnot
        exact hstops (.inl (not_le.mp hnot))
      exact hend.trans (heightOf_take_le_heightOf hitems _)
    · rintro ⟨hlt, hfilled⟩
      by_contra hnot
      have hend : (seekHeight .left target items scrollTop.itemIx).1 = items.length := by
        have hlength := hfound.length
        omega
      have hpassed := hfound.passed (items.length - 1) (by omega) (by omega)
      rw [show items.length - 1 + 1 = items.length by omega, List.take_length] at hpassed
      rcases hpassed with hpassed | ⟨-, hbias⟩
      · linarith
      · exact absurd hbias (by simp)

/-- The items in the range: that at the scroll top, and the items behind it that begin above the end
of the viewport. -/
theorem visibleRange_iff (hitems : HeightsNonneg items) (hix : scrollTop.itemIx ≤ items.length)
    (hrange : StateInner.visibleRange items height scrollTop = .ok range)
    {ix : ℕ} (hlt : ix < items.length) :
    range.1 ≤ ix ∧ ix < range.2 ↔
      ix = scrollTop.itemIx ∨ (scrollTop.itemIx < ix ∧ heightOf (items.take ix) <
        heightOf (items.take scrollTop.itemIx) + scrollTop.offsetInItem + height) := by
  obtain ⟨-, rfl⟩ := visibleRange_eq_ok_iff.mp hrange
  dsimp only
  generalize heightOf (items.take scrollTop.itemIx) + scrollTop.offsetInItem + height = target
  have hfound := seekHeight_found .left target hix
  have hle := hfound.le
  constructor
  · rintro ⟨hstart, hend⟩
    rcases Nat.eq_or_lt_of_le hstart with heq | hstart
    · exact .inl heq.symm
    · have hpassed := hfound.passed (ix - 1) (by omega) (by omega)
      rw [show ix - 1 + 1 = ix by omega] at hpassed
      rcases hpassed with hpassed | ⟨-, hbias⟩
      · exact .inr ⟨hstart, hpassed⟩
      · exact absurd hbias (by simp)
  · rintro (rfl | ⟨hstart, habove⟩)
    · exact ⟨le_rfl, by omega⟩
    · refine ⟨hstart.le, ?_⟩
      by_contra hnot
      -- the seek has stopped in front of the item, at one that ends at the target or behind it
      have hstops := hfound.stops (by omega)
      have hmono := heightOf_take_le hitems
        (show (seekHeight .left target items scrollTop.itemIx).1 + 1 ≤ ix by omega)
      exact hstops (.inl (hmono.trans_lt habove))

end Range

namespace StateInner

variable {self : StateInner}

theorem scrollHandler_scrollToHeight (newScrollTop scrollMax : ℚ) :
    (self.scrollToHeight newScrollTop scrollMax).scrollHandler = self.scrollHandler := by
  rw [scrollToHeight]
  split
  · rfl
  · show (self.rebasePendingScroll _).scrollHandler = _
    rw [rebasePendingScroll]
    split
    · rfl
    · split <;> rfl

theorem scrollHandler_scroll (scrollTop : ListOffset) (height : ℚ) (delta : Point ℚ) :
    (self.scroll scrollTop height delta).1.scrollHandler = self.scrollHandler := by
  rw [scroll]
  split
  · rfl
  · dsimp only
    split
    · exact scrollHandler_scrollToHeight _ _
    · exact scrollHandler_scrollToHeight _ _

/-- A scroll of a list with a scroll handler calls it, unless the range panics. -/
theorem event_scroll_iff (hreset : self.reset = false) (hhandler : self.scrollHandler = true)
    (scrollTop : ListOffset) (height : ℚ) (delta : Point ℚ) (event : ListScrollEvent) :
    (self.scroll scrollTop height delta).2 = .ok (some event) ↔
      visibleRange self.items height scrollTop = .ok event.visibleRange ∧
        event.count = self.items.length ∧
        event.isScrolled = (self.scroll scrollTop height delta).1.logicalScrollTop.isSome ∧
        event.isFollowingTail =
          (self.scroll scrollTop height delta).1.followState.isFollowing := by
  have hitems : (self.scroll scrollTop height delta).1.items = self.items := items_scroll _ _ _
  have hset : (self.scroll scrollTop height delta).1.scrollHandler = true :=
    (scrollHandler_scroll _ _ _).trans hhandler
  have hevent : (self.scroll scrollTop height delta).2 =
      (self.scroll scrollTop height delta).1.scrollEvent height scrollTop := by
    rw [scroll, if_neg (by simp [hreset])]
  rw [hevent, scrollEvent, if_pos hset, hitems]
  cases visibleRange self.items height scrollTop with
  | error panic => simp [bind, Except.bind]
  | ok range =>
    obtain ⟨visible, count, isScrolled, isFollowingTail⟩ := event
    simp only [bind, Except.bind, pure, Except.pure, Except.ok.injEq, Option.some.injEq,
      ListScrollEvent.mk.injEq]
    tauto

/-- An item is in the viewport behind a scroll. -/
theorem inViewport_scroll (hreset : self.reset = false) (inset height : ℚ) (scrollTop : ListOffset)
    (delta : Point ℚ) (ix : ℕ) :
    (self.scroll scrollTop height delta).1.InViewport inset height ix ↔
      self.clamp height (self.scrollTop scrollTop - delta.y) - inset <
          heightOf (self.items.take (ix + 1)) ∧
        heightOf (self.items.take ix) <
          self.clamp height (self.scrollTop scrollTop - delta.y) - inset + height := by
  rw [InViewport, position_scroll hreset, items_scroll]

/-- A list of three items, 30 pixels high each, of which 40 pixels are painted. -/
def threeItems : Painted :=
  ((StateInner.new 3 .top 100).setScrollHandler).paint ⟨⟨0, 0⟩, ⟨20, 40⟩⟩ ⟨0, 0, 0, 0⟩
    (fun _ => ⟨20, 30⟩) (fun _ => false) fun _ _ => none

end StateInner

end Zui.ListElement
