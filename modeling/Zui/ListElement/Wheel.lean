/-
The scroll wheel between two layouts.

Painting a list leaves a listener for the scroll wheel.  It scrolls from the scroll top of that
layout by all that it has accumulated since, whatever else has changed the list meanwhile.

Main statements:

* `position_scroll` — where a scroll ends;
* `composes_iff` — in a run of changes behind a painting each wheel event moves the list from
  where it is by its own delta, exactly if the listener works from there;
* `composes_of_continues` — wheel events in one direction do so;
* `wheel_loses_anchor` — a wheel event behind a splice does not.
-/
import Zui.ListElement.Seek
import Zui.ListElement.Valid

namespace Zui.ListElement

open Gpui (Bounds Edges Point Size)

/-! ### Deltas -/

/-- `ScrollDelta`. -/
inductive ScrollDelta
  | pixels (delta : Point ℚ)
  | lines (delta : Point ℚ)
  deriving DecidableEq

/-- `signum`, of which zero is positive. -/
def signum (x : ℚ) : ℚ := if x < 0 then -1 else 1

namespace ScrollDelta

/-- `ScrollDelta::default`. -/
def zero : ScrollDelta := lines ⟨0, 0⟩

/-- `pixel_delta`. -/
def pixelDelta (lineHeight : ℚ) : ScrollDelta → Point ℚ
  | pixels delta => delta
  | lines delta => ⟨lineHeight * delta.x, lineHeight * delta.y⟩

/-- One coordinate of `coalesce`. -/
def coalesceAxis (a b : ℚ) : ℚ := if signum a = signum b then a + b else b

/-- `coalesce`. -/
def coalesce (self other : ScrollDelta) : ScrollDelta :=
  match self, other with
  | pixels a, pixels b => pixels ⟨coalesceAxis a.x b.x, coalesceAxis a.y b.y⟩
  | lines a, lines b => lines ⟨coalesceAxis a.x b.x, coalesceAxis a.y b.y⟩
  | _, other => other

end ScrollDelta

/-! ### The listener -/

/-- What the listener for the scroll wheel has captured. -/
structure ScrollListener where
  scrollTop : ListOffset
  height : ℚ
  accumulatedScrollDelta : ScrollDelta

/-- A list with the listener of its last painting. -/
structure Painted where
  state : StateInner
  listener : ScrollListener

/-- What happens to a list between two layouts. -/
inductive Change
  | spliceFocusable (oldRange : ℕ × ℕ) (focusHandles : List (Option FocusHandle))
  | scrollBy (distance : ℚ)
  | scrollTo (offset : ListOffset)
  | wheel (delta : ScrollDelta)

/-- `prepaint` and `paint`. -/
def StateInner.paint (self : StateInner) (bounds : Bounds ℚ) (padding : Edges)
    (render : ℕ → Size ℚ) (focused : FocusHandle → Bool)
    (requests : ℕ → Point ℚ → Option (Bounds ℚ)) : Painted :=
  let (state, layout) := self.prepaint bounds padding render focused requests
  ⟨state, ⟨layout.scrollTop, bounds.size.height, .zero⟩⟩

namespace Painted

/-- The listener for the scroll wheel, of an event that is for the list. -/
def wheel (delta : ScrollDelta) (self : Painted) : Painted :=
  let accumulated := self.listener.accumulatedScrollDelta.coalesce delta
  { state :=
      (self.state.scroll self.listener.scrollTop self.listener.height
        (accumulated.pixelDelta 20)).1
    listener := { self.listener with accumulatedScrollDelta := accumulated } }

/-- A change is made. -/
def change (self : Painted) : Change → Painted
  | .spliceFocusable oldRange focusHandles =>
    { self with state := self.state.spliceFocusable oldRange focusHandles }
  | .scrollBy distance => { self with state := self.state.scrollBy distance }
  | .scrollTo offset => { self with state := self.state.scrollTo offset }
  | .wheel delta => self.wheel delta

end Painted

/-! ### Positions -/

namespace StateInner

/-- A height in the range that the list scrolls over. -/
def clamp (height offset : ℚ) (self : StateInner) : ℚ :=
  min (max offset 0) (self.scrollMax height)

/-- Where the list is scrolled to. -/
def position (height : ℚ) (self : StateInner) : ℚ :=
  match self.logicalScrollTop, self.alignment with
  | none, .bottom => self.scrollMax height
  | _, _ => self.clamp height (self.scrollTop self.logicalScrollTopOrEdge)

end StateInner

/-- In a run of changes, each wheel event moves the list from where it is by its own delta, in the
range that the list scrolls over. -/
def Composes : Painted → List Change → Prop
  | _, [] => True
  | painted, .wheel delta :: changes =>
    let height := painted.listener.height
    (painted.wheel delta).state.position height =
        painted.state.clamp height (painted.state.position height - (delta.pixelDelta 20).y) ∧
      Composes (painted.wheel delta) changes
  | painted, change :: changes => Composes (painted.change change) changes

namespace Painted

/-- The delta that the listener scrolls by for an event, up to its own. -/
def accumulated (delta : ScrollDelta) (self : Painted) : ℚ :=
  ((self.listener.accumulatedScrollDelta.coalesce delta).pixelDelta 20).y - (delta.pixelDelta 20).y

/-- The position from which the listener moves by the delta of an event: the one that it has
captured, moved by what it has accumulated and still counts. -/
def base (delta : ScrollDelta) (self : Painted) : ℚ :=
  self.state.scrollTop self.listener.scrollTop - self.accumulated delta

/-- The listener works from where the list is, or the event takes both to the same end of the
range that the list scrolls over. -/
def WorksFromPosition (delta : ScrollDelta) (self : Painted) : Prop :=
  let height := self.listener.height
  let moved := self.base delta - (delta.pixelDelta 20).y
  let wanted := self.state.position height - (delta.pixelDelta 20).y
  self.base delta = self.state.position height ∨ (moved ≤ 0 ∧ wanted ≤ 0) ∨
    (self.state.scrollMax height ≤ moved ∧ self.state.scrollMax height ≤ wanted) ∨
    self.state.scrollMax height = 0

end Painted

/-- In a run of changes, the listener works from where the list is at each wheel event. -/
def WorksFromPositions : Painted → List Change → Prop
  | _, [] => True
  | painted, .wheel delta :: changes =>
    painted.WorksFromPosition delta ∧ WorksFromPositions (painted.wheel delta) changes
  | painted, change :: changes => WorksFromPositions (painted.change change) changes

/-! ### One event -/

theorem seekHeight_height (bias : Bias) (target : ℚ) (items : List ListItem) :
    (seekHeight bias target items 0).2 =
      heightOf (items.take (seekHeight bias target items 0).1) :=
  (seekHeight_found bias target (Nat.zero_le _)).height

namespace StateInner

variable {self : StateInner}

theorem scrollMax_nonneg (height : ℚ) : 0 ≤ self.scrollMax height := le_max_right _ _

theorem clamp_of_mem {height offset : ℚ} (h0 : 0 ≤ offset) (h1 : offset ≤ self.scrollMax height) :
    self.clamp height offset = offset := by
  rw [clamp, max_eq_left h0, min_eq_left h1]

theorem clamp_mem (height offset : ℚ) :
    0 ≤ self.clamp height offset ∧ self.clamp height offset ≤ self.scrollMax height :=
  ⟨le_min (le_max_right _ _) (scrollMax_nonneg height), min_le_right _ _⟩

theorem scrollMax_congr {other : StateInner} (hitems : other.items = self.items)
    (hpadding : other.lastPadding = self.lastPadding) (height : ℚ) :
    other.scrollMax height = self.scrollMax height := by
  rw [scrollMax, scrollMax, hitems, hpadding]

theorem scrollTop_offsetAt (offset : ℚ) : self.scrollTop (self.offsetAt offset) = offset := by
  rw [scrollTop, offsetAt]
  dsimp only
  rw [← seekHeight_height]
  ring

@[simp] theorem lastPadding_rebasePendingScroll (scrollTop : ListOffset) :
    (self.rebasePendingScroll scrollTop).lastPadding = self.lastPadding := by
  rw [rebasePendingScroll]
  split
  · rfl
  · split <;> rfl

@[simp] theorem reset_rebasePendingScroll (scrollTop : ListOffset) :
    (self.rebasePendingScroll scrollTop).reset = self.reset := by
  rw [rebasePendingScroll]
  split
  · rfl
  · split <;> rfl

theorem position_scrollToHeight {height offset : ℚ} (h0 : 0 ≤ offset)
    (h1 : offset ≤ self.scrollMax height) :
    (self.scrollToHeight offset (self.scrollMax height)).position height = offset := by
  rw [scrollToHeight]
  split
  · next hend =>
    rw [position]
    dsimp only
    -- the list is at its end without a scroll top: a bottom list stands there
    rw [hend.1]
    exact hend.2.symm
  · rw [position]
    dsimp only
    -- setting the scroll top keeps the items and the padding, so the range stays
    have hmax : ({ self.rebasePendingScroll (self.offsetAt offset) with
        logicalScrollTop := some (self.offsetAt offset) } : StateInner).scrollMax height =
          self.scrollMax height :=
      scrollMax_congr (items_rebasePendingScroll _) (lastPadding_rebasePendingScroll _) height
    have htop : ({ self.rebasePendingScroll (self.offsetAt offset) with
        logicalScrollTop := some (self.offsetAt offset) } : StateInner).scrollTop
          (self.offsetAt offset) = offset := by
      show heightOf ((self.rebasePendingScroll _).items.take _) + _ = _
      rw [items_rebasePendingScroll]
      exact scrollTop_offsetAt offset
    show clamp height (scrollTop _ (self.offsetAt offset)) _ = offset
    rw [htop, clamp_of_mem h0 (by rw [hmax]; exact h1)]

/-- A scroll takes the list from the scroll top that it is called with by its delta, in the
range. -/
theorem position_scroll (hreset : self.reset = false) (scrollTop : ListOffset) (height : ℚ)
    (delta : Point ℚ) :
    (self.scroll scrollTop height delta).1.position height =
      self.clamp height (self.scrollTop scrollTop - delta.y) := by
  have hmem := self.clamp_mem height (self.scrollTop scrollTop - delta.y)
  have hposition := position_scrollToHeight hmem.1 hmem.2
  -- whatever the handler is told, the list is scrolled first
  rw [scroll, if_neg (by simp [hreset])]
  dsimp only
  split
  · exact hposition
  · exact hposition

end StateInner

/-- Two moves by one delta end at one place of a range exactly if they begin at one place, or end
at the same end of the range. -/
theorem clamp_sub_eq_iff {a b delta top : ℚ} (htop : 0 ≤ top) :
    min (max (a - delta) 0) top = min (max (b - delta) 0) top ↔
      a = b ∨ (a - delta ≤ 0 ∧ b - delta ≤ 0) ∨ (top ≤ a - delta ∧ top ≤ b - delta) ∨ top = 0 := by
  constructor
  · intro h
    -- two places that differ would have to be clamped to the same end
    by_contra hnot
    simp only [not_or, not_and, not_le] at hnot
    obtain ⟨hne, hlow, hhigh, hzero⟩ := hnot
    have hpos : 0 < top := lt_of_le_of_ne htop (Ne.symm hzero)
    rcases le_or_gt (a - delta) 0 with ha | ha
    · have hb := hlow ha
      rw [max_eq_right ha, min_eq_left htop, max_eq_left hb.le] at h
      rcases le_total (b - delta) top with hbt | hbt
      · rw [min_eq_left hbt] at h
        linarith
      · rw [min_eq_right hbt] at h
        linarith
    · -- the first move stays above zero
      rw [max_eq_left ha.le] at h
      rcases le_or_gt top (a - delta) with hat | hat
      · have hb := hhigh hat
        rw [min_eq_right hat] at h
        have hlt : max (b - delta) 0 < top := max_lt hb hpos
        rw [min_eq_left hlt.le] at h
        linarith
      · rw [min_eq_left hat.le] at h
        rcases le_or_gt (b - delta) 0 with hb | hb
        · rw [max_eq_right hb, min_eq_left htop] at h
          linarith
        · rw [max_eq_left hb.le] at h
          rcases le_total (b - delta) top with hbt | hbt
          · rw [min_eq_left hbt] at h
            exact hne (by linarith)
          · rw [min_eq_right hbt] at h
            linarith
  · rintro (rfl | ⟨ha, hb⟩ | ⟨ha, hb⟩ | rfl)
    · rfl
    · rw [max_eq_right ha, max_eq_right hb]
    · rw [min_eq_right (le_trans ha (le_max_left _ _)),
        min_eq_right (le_trans hb (le_max_left _ _))]
    · rw [min_eq_right (le_max_right _ _), min_eq_right (le_max_right _ _)]

/-- The list is moved from where it is exactly if the listener works from there. -/
theorem moves_iff {painted : Painted} (hreset : painted.state.reset = false)
    (delta : ScrollDelta) :
    (painted.wheel delta).state.position painted.listener.height =
        painted.state.clamp painted.listener.height
          (painted.state.position painted.listener.height - (delta.pixelDelta 20).y) ↔
      painted.WorksFromPosition delta := by
  rw [Painted.wheel]
  dsimp only
  rw [StateInner.position_scroll hreset, Painted.WorksFromPosition,
    ← clamp_sub_eq_iff (StateInner.scrollMax_nonneg _), StateInner.clamp, StateInner.clamp]
  -- the base without the delta is the captured position without what is accumulated
  have hmoved : painted.base delta - (delta.pixelDelta 20).y =
      painted.state.scrollTop painted.listener.scrollTop -
        ((painted.listener.accumulatedScrollDelta.coalesce delta).pixelDelta 20).y := by
    rw [Painted.base, Painted.accumulated]
    ring
  rw [hmoved]

/-! ### Runs -/

namespace StateInner

variable {self : StateInner}

@[simp] theorem reset_scrollToHeight (newScrollTop scrollMax : ℚ) :
    (self.scrollToHeight newScrollTop scrollMax).reset = self.reset := by
  rw [scrollToHeight]
  split
  · rfl
  · exact reset_rebasePendingScroll _

theorem reset_scroll (scrollTop : ListOffset) (height : ℚ) (delta : Point ℚ) :
    (self.scroll scrollTop height delta).1.reset = self.reset := by
  rw [scroll]
  split
  · rfl
  · dsimp only
    split
    · exact reset_scrollToHeight _ _
    · exact reset_scrollToHeight _ _

theorem items_scroll (scrollTop : ListOffset) (height : ℚ) (delta : Point ℚ) :
    (self.scroll scrollTop height delta).1.items = self.items := by
  have hscrolled : ∀ newScrollTop scrollMax : ℚ,
      (self.scrollToHeight newScrollTop scrollMax).items = self.items := by
    intro newScrollTop scrollMax
    rw [scrollToHeight]
    split
    · rfl
    · exact items_rebasePendingScroll _
  rw [scroll]
  split
  · rfl
  · dsimp only
    split
    · exact hscrolled _ _
    · exact hscrolled _ _

theorem lastPadding_scroll (scrollTop : ListOffset) (height : ℚ) (delta : Point ℚ) :
    (self.scroll scrollTop height delta).1.lastPadding = self.lastPadding := by
  have hscrolled : ∀ newScrollTop scrollMax : ℚ,
      (self.scrollToHeight newScrollTop scrollMax).lastPadding = self.lastPadding := by
    intro newScrollTop scrollMax
    rw [scrollToHeight]
    split
    · rfl
    · exact lastPadding_rebasePendingScroll _
  rw [scroll]
  split
  · rfl
  · dsimp only
    split
    · exact hscrolled _ _
    · exact hscrolled _ _

theorem reset_spliceFocusable (oldRange : ℕ × ℕ) (focusHandles : List (Option FocusHandle)) :
    (self.spliceFocusable oldRange focusHandles).reset = self.reset := by
  show self.clearTailExtra.reset = _
  rw [clearTailExtra]
  split <;> rfl

theorem reset_scrollBy (distance : ℚ) : (self.scrollBy distance).reset = self.reset := by
  rw [scrollBy]
  split
  · rfl
  · show (rebasePendingScroll _ _).reset = _
    rw [reset_rebasePendingScroll]
    split <;> rfl

theorem reset_scrollTo (offset : ListOffset) : (self.scrollTo offset).reset = self.reset := by
  show (rebasePendingScroll _ _).reset = _
  rw [reset_rebasePendingScroll]
  split <;> split <;> rfl

end StateInner

theorem reset_change (painted : Painted) (change : Change) :
    (painted.change change).state.reset = painted.state.reset := by
  cases change with
  | spliceFocusable oldRange focusHandles => exact StateInner.reset_spliceFocusable _ _
  | scrollBy distance => exact StateInner.reset_scrollBy _
  | scrollTo offset => exact StateInner.reset_scrollTo _
  | wheel delta => exact StateInner.reset_scroll _ _ _

theorem composes_iff_of_reset : ∀ (changes : List Change) {painted : Painted},
    painted.state.reset = false → (Composes painted changes ↔
      WorksFromPositions painted changes) := by
  intro changes
  induction changes with
  | nil =>
    intro painted _
    exact Iff.rfl
  | cons change changes ih =>
    intro painted hreset
    -- no change resets the list, so no wheel event is ignored
    have hreset' : (painted.change change).state.reset = false := by
      rw [reset_change, hreset]
    cases change with
    | spliceFocusable oldRange focusHandles => exact ih hreset'
    | scrollBy distance => exact ih hreset'
    | scrollTo offset => exact ih hreset'
    -- the only change that is asked to move the list by a delta
    | wheel delta => exact and_congr (moves_iff hreset delta) (ih hreset')

/-! ### The painted list -/

namespace Pass

variable {input : LayoutInput} {oldItems : List ListItem} {self : Pass}

theorem reset_applyPendingScroll (elementHeight : ℚ) :
    (self.applyPendingScroll elementHeight).state.reset = self.state.reset := by
  rw [applyPendingScroll]
  split
  · rfl
  · split <;> rfl
  · split <;> rfl

theorem reset_forwardItem (ix : ℕ) (item : ListItem) :
    (self.forwardItem input oldItems ix item).state.reset = self.state.reset := by
  rw [forwardItem]
  split
  · show (self.renderItem input ix item).state.reset = _
    have happlied : (if ix = 0 then
        self.applyPendingScroll (input.render (self.scrollTop.itemIx + ix)).height
        else self).state.reset = self.state.reset := by
      split
      · exact reset_applyPendingScroll _
      · rfl
    rw [renderItem]
    split
    · exact happlied
    · exact happlied
  · rfl

theorem reset_forward : ∀ (items : List ListItem) (ix : ℕ) {self : Pass},
    (self.forward input oldItems ix items).state.reset = self.state.reset := by
  intro items
  induction items with
  | nil =>
    intro ix self
    rfl
  | cons item items ih =>
    intro ix self
    rw [forward]
    split
    · rfl
    · rw [ih, reset_forwardItem]

theorem reset_reserveTail :
    (self.reserveTail input oldItems).state.reset = self.state.reset := by
  rw [reserveTail]
  split
  · rfl
  · dsimp only
    split
    · rfl
    · split <;> rfl

theorem reset_upward : ∀ (ix : ℕ) {self : Pass},
    (self.upward input oldItems ix).state.reset = self.state.reset := by
  intro ix
  induction ix with
  | zero =>
    intro self
    rfl
  | succ ix ih =>
    intro self
    rw [upward]
    split
    · split
      · rw [ih]
        rfl
      · rfl
    · rfl

theorem reset_scrollUp : (self.scrollUp input).state.reset = self.state.reset := by
  rw [scrollUp]
  split <;> rfl

theorem reset_leading : ∀ (ix : ℕ) (leadingOverdraw : ℚ) {self : Pass},
    (self.leading input oldItems ix leadingOverdraw).state.reset = self.state.reset := by
  intro ix
  induction ix with
  | zero =>
    intro leadingOverdraw self
    rfl
  | succ ix ih =>
    intro leadingOverdraw self
    rw [leading]
    split
    · split
      · rw [ih]
        rfl
      · rfl
    · rfl

end Pass

namespace StateInner

variable {self : StateInner}

theorem reset_layoutItems (input : LayoutInput) :
    (self.layoutItems input).1.reset = self.reset := by
  -- none of the passes of the layout touches the flag
  have hstart : (self.startLayout input).state.reset = self.reset := by
    show self.followTail.reset = self.reset
    rw [followTail]
    split <;> rfl
  have hforward : (self.layoutForward input).state.reset = self.reset := by
    rw [layoutForward, Pass.reset_forward, hstart]
  have hfill : ∀ pass : Pass, (self.fillUpward input pass).state.reset = pass.state.reset := by
    intro pass
    rw [fillUpward]
    split
    · rw [Pass.reset_scrollUp, Pass.reset_reserveTail, Pass.reset_upward]
    · rfl
  have hresume : ∀ (state : StateInner) (height : ℚ) (scrollTop : ListOffset),
      (state.resumeFollowing height scrollTop).reset = state.reset := by
    intro state height scrollTop
    rw [resumeFollowing]
    split <;> rfl
  rw [layoutItems, hresume]
  show (Pass.leading _ _ _ _ _).state.reset = _
  rw [Pass.reset_leading, hfill]
  show (Pass.reserveTail _ _ _).state.reset = _
  rw [Pass.reset_reserveTail, hforward]

theorem reset_prepaintItems (bounds : Bounds ℚ) (padding : Edges) (render : ℕ → Size ℚ)
    (focused : FocusHandle → Bool) :
    (self.prepaintItems bounds padding render focused).1.reset = self.reset := by
  show (layoutItems _ (layoutAllItems _ render)).1.reset = self.reset
  rw [reset_layoutItems, layoutAllItems]
  split <;> rfl

theorem reset_paint (bounds : Bounds ℚ) (padding : Edges) (render : ℕ → Size ℚ)
    (focused : FocusHandle → Bool) (requests : ℕ → Point ℚ → Option (Bounds ℚ)) :
    (self.paint bounds padding render focused requests).state.reset = false := by
  -- `prepaint` takes the flag off at its start
  have hinvalidated : ({ self with reset := false }.invalidateWidth bounds.size.width).reset =
      false := by
    rw [invalidateWidth]
    split <;> rfl
  show (self.prepaint bounds padding render focused requests).1.reset = false
  rw [prepaint]
  dsimp only
  split
  · -- with an autoscroll request the items are laid out twice
    exact (reset_prepaintItems _ _ _ _).trans ((reset_prepaintItems _ _ _ _).trans hinvalidated)
  · exact (reset_prepaintItems _ _ _ _).trans hinvalidated

end StateInner

/-- In every run of changes behind a painting, each wheel event moves the list from where it is by
its own delta exactly if the listener works from there at each of them. -/
theorem composes_iff (state : StateInner) (bounds : Bounds ℚ) (padding : Edges)
    (render : ℕ → Size ℚ) (focused : FocusHandle → Bool)
    (requests : ℕ → Point ℚ → Option (Bounds ℚ)) (changes : List Change) :
    Composes (state.paint bounds padding render focused requests) changes ↔
      WorksFromPositions (state.paint bounds padding render focused requests) changes :=
  composes_iff_of_reset changes (StateInner.reset_paint bounds padding render focused requests)

/-- A list of three items, 30 pixels high each, is painted in 40 pixels. -/
def paintThree (state : StateInner) : Painted :=
  state.paint ⟨⟨0, 0⟩, ⟨20, 40⟩⟩ ⟨0, 0, 0, 0⟩ (fun _ => ⟨20, 30⟩) (fun _ => false) fun _ _ => none

/-- The list is painted from its beginning, and again from its second item. -/
def painted : Painted :=
  paintThree ((paintThree (.new 3 .top 0)).state.scrollTo ⟨1, 0⟩)

/-- Behind the insertion of an item at its beginning, the list jumps with the next wheel event. -/
theorem wheel_loses_anchor :
    ¬Composes painted [.spliceFocusable (0, 0) [none], .wheel (.pixels ⟨0, -5⟩)] := by
  rintro ⟨hmoves, -⟩
  exact absurd hmoves (by decide +kernel)

/-! ### Events in one direction -/

namespace Painted

/-- The listener works from where the list is, with what it has accumulated so far. -/
structure Synced (painted : Painted) : Prop where
  nonneg : 0 ≤ painted.state.scrollTop painted.listener.scrollTop
  le_max : painted.state.scrollTop painted.listener.scrollTop ≤
    painted.state.scrollMax painted.listener.height
  position : painted.state.position painted.listener.height =
    painted.state.clamp painted.listener.height
      (painted.state.scrollTop painted.listener.scrollTop -
        (painted.listener.accumulatedScrollDelta.pixelDelta 20).y)

/-- The event adds to what the listener has accumulated, in the same direction. -/
structure Continues (delta : ScrollDelta) (painted : Painted) : Prop where
  adds : ((painted.listener.accumulatedScrollDelta.coalesce delta).pixelDelta 20).y =
    (painted.listener.accumulatedScrollDelta.pixelDelta 20).y + (delta.pixelDelta 20).y
  up : 0 < (painted.listener.accumulatedScrollDelta.pixelDelta 20).y → 0 ≤ (delta.pixelDelta 20).y
  down : (painted.listener.accumulatedScrollDelta.pixelDelta 20).y < 0 → (delta.pixelDelta 20).y ≤ 0

variable {painted : Painted} {delta : ScrollDelta}

theorem Synced.worksFromPosition (h : painted.Synced) (hcontinues : painted.Continues delta) :
    painted.WorksFromPosition delta := by
  have hbase : painted.base delta = painted.state.scrollTop painted.listener.scrollTop -
      (painted.listener.accumulatedScrollDelta.pixelDelta 20).y := by
    rw [base, accumulated, hcontinues.adds]
    ring
  have hnonneg := h.nonneg
  have hmax := h.le_max
  have hposition := h.position
  rw [← hbase] at hposition
  rw [WorksFromPosition]
  rcases lt_or_ge (painted.base delta) 0 with hlow | hlow
  · -- The list is at its beginning, and the event scrolls up.
    have hdelta := hcontinues.up (by linarith)
    have hzero : painted.state.position painted.listener.height = 0 := by
      rw [hposition, StateInner.clamp, max_eq_right hlow.le,
        min_eq_left (StateInner.scrollMax_nonneg _)]
    exact .inr (.inl ⟨by linarith, by linarith⟩)
  rcases lt_or_ge (painted.state.scrollMax painted.listener.height) (painted.base delta) with
    hhigh | hhigh
  · -- The list is at its end, and the event scrolls down.
    have hdelta := hcontinues.down (by linarith)
    have hend : painted.state.position painted.listener.height =
        painted.state.scrollMax painted.listener.height := by
      rw [hposition, StateInner.clamp, max_eq_left hlow, min_eq_right hhigh.le]
    exact .inr (.inr (.inl ⟨by linarith, by linarith⟩))
  · exact .inl (by rw [hposition, StateInner.clamp_of_mem hlow hhigh])

/-- Behind an event that continues, the listener still works from where the list is. -/
theorem Synced.wheel (h : painted.Synced) (hreset : painted.state.reset = false) :
    (painted.wheel delta).Synced := by
  have hitems : (painted.wheel delta).state.items = painted.state.items :=
    StateInner.items_scroll _ _ _
  have hpadding : (painted.wheel delta).state.lastPadding = painted.state.lastPadding :=
    StateInner.lastPadding_scroll _ _ _
  have hmax : ∀ height, (painted.wheel delta).state.scrollMax height =
      painted.state.scrollMax height := StateInner.scrollMax_congr hitems hpadding
  -- a scroll keeps the items, so the captured scroll top is at the same height
  have htop : (painted.wheel delta).state.scrollTop painted.listener.scrollTop =
      painted.state.scrollTop painted.listener.scrollTop := by
    rw [StateInner.scrollTop, StateInner.scrollTop, hitems]
  refine ⟨?_, ?_, ?_⟩
  · show 0 ≤ (painted.wheel delta).state.scrollTop painted.listener.scrollTop
    rw [htop]
    exact h.nonneg
  · show (painted.wheel delta).state.scrollTop painted.listener.scrollTop ≤
      (painted.wheel delta).state.scrollMax painted.listener.height
    rw [htop, hmax]
    exact h.le_max
  · show (painted.wheel delta).state.position painted.listener.height =
      (painted.wheel delta).state.clamp painted.listener.height
        ((painted.wheel delta).state.scrollTop painted.listener.scrollTop - _)
    rw [htop, StateInner.clamp, hmax]
    exact StateInner.position_scroll hreset _ _ _

/-- Events of one kind and direction, each with what the listener has accumulated before it. -/
def ContinueAll : Painted → List ScrollDelta → Prop
  | _, [] => True
  | painted, delta :: deltas =>
    painted.Continues delta ∧ ContinueAll (painted.wheel delta) deltas

/-- Nothing but wheel events in one direction: each of them moves the list by its own delta. -/
theorem composes_of_continues : ∀ (deltas : List ScrollDelta) {painted : Painted},
    painted.Synced → painted.state.reset = false → ContinueAll painted deltas →
      Composes painted (deltas.map .wheel) := by
  intro deltas
  induction deltas with
  | nil =>
    intro painted _ _ _
    trivial
  | cons delta deltas ih =>
    intro painted h hreset hcontinue
    refine ⟨(moves_iff hreset delta).mpr (h.worksFromPosition hcontinue.1), ?_⟩
    exact ih (h.wheel hreset) ((reset_change painted (.wheel delta)).trans hreset) hcontinue.2

end Painted

end Zui.ListElement
