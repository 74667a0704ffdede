/-
The scroll top of a list is at one of its items, or behind the last one.

* `Valid` — this invariant of the state;
* `length_layoutItems` — layout measures items, and keeps how many there are;
* `valid_of_reachable` — each call of the code that owns the list keeps the invariant, and so do
  the scroll wheel and layout.
-/
import Zui.ListElement.Layout

namespace Zui.ListElement

open Gpui (Bounds Edges Point Size)

/-! ### Seeking by height -/

theorem passHeight_le (bias : Bias) (target : ℚ) : ∀ (items : List ListItem) (start : ℕ × ℚ),
    (passHeight bias target items start).1 ≤ start.1 + items.length := by
  intro items
  induction items with
  | nil =>
    intro start
    exact Nat.le_refl _
  | cons item items ih =>
    intro start
    obtain ⟨count, height⟩ := start
    rw [passHeight]
    split
    · have := ih (count + 1, height + item.height)
      simp only [List.length_cons] at this ⊢
      omega
    · show count ≤ count + (item :: items).length
      omega

theorem seekHeight_le (bias : Bias) (target : ℚ) (items : List ListItem) (ix : ℕ) :
    (seekHeight bias target items ix).1 ≤ items.length := by
  have := passHeight_le bias target (items.drop ix)
    (min ix items.length, heightOf (items.take ix))
  rw [List.length_drop] at this
  show (passHeight _ _ _ _).1 ≤ _
  omega

/-! ### The invariant -/

/-- The scroll top is at an item, or behind the last one. -/
def StateInner.Valid (self : StateInner) : Prop :=
  ∀ scrollTop, self.logicalScrollTop = some scrollTop → scrollTop.itemIx ≤ self.items.length

namespace StateInner

variable {self : StateInner}

theorem Valid.of_some {scrollTop : ListOffset} (hsome : self.logicalScrollTop = some scrollTop)
    (hle : scrollTop.itemIx ≤ self.items.length) : self.Valid := by
  intro scrollTop' hsome'
  rw [hsome] at hsome'
  cases hsome'
  exact hle

theorem Valid.of_none (hnone : self.logicalScrollTop = none) : self.Valid := by
  intro scrollTop hsome
  rw [hnone] at hsome
  cases hsome

theorem Valid.congr {other : StateInner} (h : self.Valid)
    (htop : other.logicalScrollTop = self.logicalScrollTop)
    (hlength : other.items.length = self.items.length) : other.Valid := by
  intro scrollTop hsome
  rw [hlength]
  exact h scrollTop (htop ▸ hsome)

theorem Valid.edge (h : self.Valid) : self.logicalScrollTopOrEdge.itemIx ≤ self.items.length := by
  rw [logicalScrollTopOrEdge]
  cases htop : self.logicalScrollTop with
  | none =>
    cases self.alignment with
    | top => exact Nat.zero_le _
    | bottom => exact Nat.le_refl _
  | some scrollTop => exact h scrollTop htop

@[simp] theorem items_rebasePendingScroll (scrollTop : ListOffset) :
    (self.rebasePendingScroll scrollTop).items = self.items := by
  rw [rebasePendingScroll]
  split
  · rfl
  · split <;> rfl

theorem valid_rebased {scrollTop : ListOffset} (h : scrollTop.itemIx ≤ self.items.length) :
    ({ self.rebasePendingScroll scrollTop with
      logicalScrollTop := some scrollTop } : StateInner).Valid := by
  refine .of_some rfl ?_
  show scrollTop.itemIx ≤ (self.rebasePendingScroll scrollTop).items.length
  rw [items_rebasePendingScroll]
  exact h

theorem valid_scrollToHeight (newScrollTop scrollMax : ℚ) :
    (self.scrollToHeight newScrollTop scrollMax).Valid := by
  rw [scrollToHeight]
  split
  · exact .of_none rfl
  · exact valid_rebased (seekHeight_le _ _ _ _)

theorem Valid.scroll (h : self.Valid) (scrollTop : ListOffset) (height : ℚ) (delta : Point ℚ) :
    (self.scroll scrollTop height delta).1.Valid := by
  rw [StateInner.scroll]
  split
  · exact h
  · split
    · exact (valid_scrollToHeight _ _).congr rfl rfl
    · exact valid_scrollToHeight _ _

theorem Valid.setOffsetFromScrollbar (h : self.Valid) (point : Point ℚ) :
    (self.setOffsetFromScrollbar point).Valid := by
  rw [StateInner.setOffsetFromScrollbar]
  split
  · exact h
  · dsimp only
    split
    · exact .of_some rfl (Nat.le_refl _)
    · exact valid_scrollToHeight _ _

/-! ### Calls -/

@[simp] theorem length_clearTailExtra : self.clearTailExtra.items.length = self.items.length := by
  rw [clearTailExtra]
  split
  · rfl
  · simp only [List.length_append, List.length_take, List.length_map, List.length_drop]
    omega

@[simp] theorem logicalScrollTop_clearTailExtra :
    self.clearTailExtra.logicalScrollTop = self.logicalScrollTop := by
  rw [clearTailExtra]
  split <;> rfl

theorem Valid.clearTailExtra (h : self.Valid) : self.clearTailExtra.Valid :=
  h.congr logicalScrollTop_clearTailExtra length_clearTailExtra

theorem length_splicedItems {oldRange : ℕ × ℕ} (focusHandles : List (Option FocusHandle))
    (hstart : oldRange.1 ≤ oldRange.2) (hend : oldRange.2 ≤ self.items.length) :
    (self.splicedItems oldRange focusHandles).length + (oldRange.2 - oldRange.1) =
      self.items.length + focusHandles.length := by
  rw [splicedItems]
  simp only [List.length_append, List.length_take, List.length_map, List.length_drop]
  omega

theorem Valid.spliceFocusable (h : self.Valid) {oldRange : ℕ × ℕ}
    (focusHandles : List (Option FocusHandle)) (hstart : oldRange.1 ≤ oldRange.2)
    (hend : oldRange.2 ≤ self.items.length) :
    (self.spliceFocusable oldRange focusHandles).Valid := by
  intro scrollTop hsome
  obtain ⟨before, hbefore, rfl⟩ := Option.map_eq_some_iff.mp hsome
  have hlength := self.clearTailExtra.length_splicedItems focusHandles hstart (by simpa using hend)
  have hle := h.clearTailExtra before hbefore
  rw [length_clearTailExtra] at hlength hle
  show (splicedScrollTop oldRange focusHandles.length before).itemIx ≤
    (self.clearTailExtra.splicedItems oldRange focusHandles).length
  rw [splicedScrollTop]
  split
  · dsimp only
    omega
  · split
    · dsimp only
      omega
    · omega

theorem Valid.remeasureItemsWithScrollAnchor (h : self.Valid) {range : ℕ × ℕ}
    (scrollAnchor : ScrollAnchor) (hstart : range.1 ≤ range.2) :
    (self.remeasureItemsWithScrollAnchor range scrollAnchor).Valid := by
  refine h.congr rfl ?_
  show (self.items.take range.1 ++ _ ++ self.items.drop _).length = _
  simp only [List.length_append, List.length_take, List.length_map, List.length_drop]
  omega

theorem Valid.scrollBy (h : self.Valid) (distance : ℚ) : (self.scrollBy distance).Valid := by
  rw [StateInner.scrollBy]
  split
  · exact h
  · refine valid_rebased ?_
    have hitems : (if distance < 0 then
        { self with followState := self.followState.stopFollowing } else self).items =
        self.items := by
      split <;> rfl
    rw [hitems, scrolledBy]
    dsimp only
    split
    · exact seekHeight_le _ _ _ _
    · exact seekHeight_le _ _ _ _

theorem valid_scrollTo (offset : ListOffset) : (self.scrollTo offset).Valid := by
  refine valid_rebased ?_
  have hitems : ∀ scrollTop : ListOffset, (if scrollTop.itemIx < self.items.length then
      { self with followState := self.followState.stopFollowing } else self).items =
      self.items := by
    intro scrollTop
    split <;> rfl
  rw [hitems]
  split
  · exact Nat.le_refl _
  · next hlt => exact Nat.le_of_not_le hlt

theorem Valid.scrollToRevealItem (h : self.Valid) (ix : ℕ) :
    (self.scrollToRevealItem ix).Valid := by
  refine valid_rebased ?_
  have hedge := h.edge
  rw [revealingScrollTop]
  split
  · exact Nat.le_trans ‹_› hedge
  · dsimp only
    split
    · exact seekHeight_le _ _ _ _
    · exact hedge

end StateInner

/-! ### Layout -/

/-- The items measured from the cursor on are among `length` items, with `room` behind them, and
the scroll tops and the layouts are in the list. -/
structure Pass.Fits (length room : ℕ) (pass : Pass) : Prop where
  measured : pass.cursor + pass.measuredItems.length + room ≤ length
  scrollTop : pass.scrollTop.itemIx ≤ length
  logical : ∀ scrollTop, pass.state.logicalScrollTop = some scrollTop → scrollTop.itemIx ≤ length
  layouts : ∀ layout ∈ pass.itemLayouts, layout.index ≤ length

namespace Pass

variable {input : LayoutInput} {oldItems : List ListItem} {length room : ℕ} {self : Pass}

theorem Fits.applyPendingScroll (h : self.Fits length room) (elementHeight : ℚ) :
    (self.applyPendingScroll elementHeight).Fits length room := by
  have hmoved : ∀ offset : ℚ, ({ self with
      scrollTop := { self.scrollTop with offsetInItem := offset }
      state := { self.state with
        pendingScroll := none
        logicalScrollTop := some { self.scrollTop with offsetInItem := offset } } } : Pass).Fits
          length room := by
    intro offset
    refine ⟨h.measured, h.scrollTop, ?_, h.layouts⟩
    rintro scrollTop ⟨⟩
    exact h.scrollTop
  have htaken : ({ self with state := { self.state with pendingScroll := none } } : Pass).Fits
      length room := ⟨h.measured, h.scrollTop, h.logical, h.layouts⟩
  rw [Pass.applyPendingScroll]
  split
  · exact h
  · split
    · exact hmoved _
    · exact htaken
  · split
    · exact hmoved _
    · exact htaken

theorem itemIx_applyPendingScroll (elementHeight : ℚ) :
    (self.applyPendingScroll elementHeight).scrollTop.itemIx = self.scrollTop.itemIx := by
  rw [applyPendingScroll]
  split
  · rfl
  · split <;> rfl
  · split <;> rfl

theorem itemIx_forwardItem (ix : ℕ) (item : ListItem) :
    (self.forwardItem input oldItems ix item).scrollTop.itemIx = self.scrollTop.itemIx := by
  rw [forwardItem]
  split
  · show (self.renderItem input ix item).scrollTop.itemIx = _
    rw [Pass.renderItem]
    split <;> split
    · exact itemIx_applyPendingScroll _
    · rfl
    · exact itemIx_applyPendingScroll _
    · rfl
  · rfl

theorem Fits.renderItem (h : self.Fits length room) {ix : ℕ}
    (hix : self.scrollTop.itemIx + ix ≤ length) (item : ListItem) :
    (self.renderItem input ix item).Fits length room := by
  have happlied : (if ix = 0 then
      self.applyPendingScroll (input.render (self.scrollTop.itemIx + ix)).height else self).Fits
        length room := by
    split
    · exact h.applyPendingScroll _
    · exact h
  rw [Pass.renderItem]
  split
  · refine ⟨happlied.measured, happlied.scrollTop, happlied.logical, ?_⟩
    intro layout hlayout
    rcases List.mem_append.mp hlayout with hlayout | hlayout
    · exact happlied.layouts layout hlayout
    · obtain rfl := List.mem_singleton.mp hlayout
      exact hix
  · exact happlied

theorem Fits.pushBack (h : self.Fits length (room + 1)) (size : Size ℚ) (item : ListItem) :
    (self.pushBack size item).Fits length room := by
  refine ⟨?_, h.scrollTop, h.logical, h.layouts⟩
  have := h.measured
  simp only [Pass.pushBack, List.length_append, List.length_singleton]
  omega

theorem Fits.forward : ∀ (items : List ListItem) (ix : ℕ) {self : Pass},
    self.Fits length items.length → self.scrollTop.itemIx + ix + items.length ≤ length →
      (self.forward input oldItems ix items).Fits length 0 := by
  intro items
  induction items with
  | nil =>
    intro ix self h _
    exact h
  | cons item items ih =>
    intro ix self h hix
    rw [List.length_cons] at hix
    rw [Pass.forward]
    split
    · exact ⟨by have := h.measured; omega, h.scrollTop, h.logical, h.layouts⟩
    · refine ih (ix + 1) ?_ (by rw [itemIx_forwardItem]; omega)
      rw [forwardItem]
      split
      · exact (h.renderItem (by omega) item).pushBack _ _
      · exact h.pushBack _ _

theorem Fits.reserveTail (h : self.Fits length room) :
    (self.reserveTail input oldItems).Fits length room := by
  rw [Pass.reserveTail]
  split
  · exact h
  · dsimp only
    split
    · exact h
    · split
      · exact ⟨h.measured, h.scrollTop, h.logical, h.layouts⟩
      · refine ⟨by simpa using h.measured, h.scrollTop, h.logical, ?_⟩
        -- the last layout may become higher, and none gets another index
        intro layout hlayout
        obtain ⟨jx, hjx⟩ := List.mem_iff_getElem?.mp hlayout
        rw [List.getElem?_modify] at hjx
        obtain ⟨other, hother, rfl⟩ := Option.map_eq_some_iff.mp hjx
        have hle := h.layouts other (List.mem_of_getElem? hother)
        split
        · split
          · exact hle
          · exact hle
        · exact hle

theorem Fits.pushFront {ix : ℕ} (h : self.Fits length 0) (hcursor : self.cursor = ix + 1)
    (size : Size ℚ) (item : ListItem) :
    ({ self.pushFront size item with cursor := ix } : Pass).Fits length 0 := by
  refine ⟨?_, h.scrollTop, h.logical, h.layouts⟩
  have := h.measured
  simp only [Pass.pushFront, List.length_cons]
  omega

theorem Fits.upward : ∀ (ix : ℕ) {self : Pass}, ({ self with cursor := ix } : Pass).Fits length 0 →
    (self.upward input oldItems ix).Fits length 0 := by
  intro ix
  induction ix with
  | zero =>
    intro self h
    exact h
  | succ ix ih =>
    intro self h
    rw [Pass.upward]
    split
    · split
      · next item _ =>
        have hfront := h.pushFront rfl (input.render ix) item
        refine ih ⟨hfront.measured, hfront.scrollTop, hfront.logical, ?_⟩
        intro layout hlayout
        rcases List.mem_cons.mp hlayout with rfl | hlayout
        · show ix ≤ length
          have := h.measured
          dsimp only at this
          omega
        · exact h.layouts layout hlayout
      · exact ⟨by have := h.measured; dsimp only at this ⊢; omega,
          h.scrollTop, h.logical, h.layouts⟩
    · exact h

theorem Fits.scrollUp (h : self.Fits length 0) : (self.scrollUp input).Fits length 0 := by
  have hcursor : self.cursor ≤ length := by
    have := h.measured
    omega
  rw [Pass.scrollUp]
  dsimp only
  split
  · refine ⟨h.measured, hcursor, ?_, h.layouts⟩
    rintro scrollTop ⟨⟩
    exact hcursor
  · refine ⟨h.measured, hcursor, ?_, h.layouts⟩
    rintro scrollTop ⟨⟩

theorem Fits.leading : ∀ (ix : ℕ) (leadingOverdraw : ℚ) {self : Pass},
    ({ self with cursor := ix } : Pass).Fits length 0 →
      (self.leading input oldItems ix leadingOverdraw).Fits length 0 := by
  intro ix
  induction ix with
  | zero =>
    intro leadingOverdraw self h
    exact h
  | succ ix ih =>
    intro leadingOverdraw self h
    rw [Pass.leading]
    split
    · split
      · next item _ =>
        have hfront := h.pushFront rfl (item.size.getD (input.render ix)) item
        exact ih _ ⟨hfront.measured, hfront.scrollTop, hfront.logical, hfront.layouts⟩
      · exact ⟨by have := h.measured; dsimp only at this ⊢; omega,
          h.scrollTop, h.logical, h.layouts⟩
    · exact h

end Pass

namespace StateInner

variable {self : StateInner}

theorem Valid.followTail (h : self.Valid) : self.followTail.Valid := by
  rw [StateInner.followTail]
  split
  · exact .of_some rfl (Nat.le_refl _)
  · exact h

@[simp] theorem items_followTail : self.followTail.items = self.items := by
  rw [followTail]
  split <;> rfl

theorem Valid.startLayout (h : self.Valid) (input : LayoutInput) :
    (self.startLayout input).Fits self.items.length
      (self.items.drop (self.startLayout input).scrollTop.itemIx).length := by
  have hedge := h.followTail.edge
  rw [items_followTail] at hedge
  refine ⟨?_, hedge, ?_, fun layout hlayout => absurd hlayout List.not_mem_nil⟩
  · show self.followTail.logicalScrollTopOrEdge.itemIx + 0 +
      (self.items.drop self.followTail.logicalScrollTopOrEdge.itemIx).length ≤ _
    rw [List.length_drop]
    omega
  · intro scrollTop hsome
    have := h.followTail scrollTop hsome
    rwa [items_followTail] at this

theorem fits_layoutForward (h : self.Valid) (input : LayoutInput) :
    (self.layoutForward input).Fits self.items.length 0 := by
  refine Pass.Fits.forward _ 0 (h.startLayout input) ?_
  have hle := (h.startLayout input).scrollTop
  rw [List.length_drop]
  omega

theorem fits_fillUpward {input : LayoutInput} {pass : Pass} (h : pass.Fits self.items.length 0) :
    (self.fillUpward input pass).Fits self.items.length 0 := by
  rw [fillUpward]
  split
  · exact ((Pass.Fits.upward pass.cursor h).reserveTail).scrollUp
  · exact h

@[simp] theorem items_resumeFollowing (availableHeight : ℚ) (scrollTop : ListOffset) :
    (self.resumeFollowing availableHeight scrollTop).items = self.items := by
  rw [resumeFollowing]
  split <;> rfl

@[simp] theorem logicalScrollTop_resumeFollowing (availableHeight : ℚ) (scrollTop : ListOffset) :
    (self.resumeFollowing availableHeight scrollTop).logicalScrollTop = self.logicalScrollTop := by
  rw [resumeFollowing]
  split <;> rfl

theorem index_focusedLayout {input : LayoutInput} {layout : ItemLayout}
    (h : layout ∈ self.focusedLayout input) : layout.index < self.items.length := by
  rw [focusedLayout] at h
  split at h
  · next itemIndex hfound =>
    obtain rfl := List.mem_singleton.mp h
    exact (List.findIdx?_eq_some_iff_getElem.mp hfound).1
  · cases h

/-- Layout keeps the number of items, and behind it the scroll top and the layouts are in the
list. -/
theorem Valid.layoutItems (h : self.Valid) (input : LayoutInput) :
    (self.layoutItems input).1.items.length = self.items.length ∧
      (self.layoutItems input).1.Valid ∧
      ∀ layout ∈ (self.layoutItems input).2.itemLayouts, layout.index ≤ self.items.length := by
  rw [StateInner.layoutItems]
  have hforward : ((self.layoutForward input).reserveTail input self.items).Fits
      self.items.length 0 := (fits_layoutForward h input).reserveTail
  set pass := (self.layoutForward input).reserveTail input self.items
  have hfilled : (self.fillUpward input { pass with
      renderedHeight := pass.renderedHeight + input.padding.bottom }).Fits self.items.length 0 :=
    fits_fillUpward ⟨hforward.measured, hforward.scrollTop, hforward.logical, hforward.layouts⟩
  set filled := self.fillUpward input { pass with
    renderedHeight := pass.renderedHeight + input.padding.bottom }
  have hfits : (filled.leading input self.items filled.cursor filled.scrollTop.offsetInItem).Fits
      self.items.length 0 := Pass.Fits.leading _ _ hfilled
  set last := filled.leading input self.items filled.cursor filled.scrollTop.offsetInItem
  have hlength : (self.measuredItems last).length = self.items.length := by
    have := hfits.measured
    rw [measuredItems]
    simp only [List.length_append, List.length_take, List.length_drop]
    omega
  refine ⟨by simpa using hlength, ?_, ?_⟩
  · intro scrollTop hsome
    simp only [logicalScrollTop_resumeFollowing] at hsome
    simp only [items_resumeFollowing, hlength]
    exact hfits.logical scrollTop hsome
  · intro layout hlayout
    dsimp only at hlayout
    split at hlayout
    · exact hfits.layouts layout hlayout
    · rcases List.mem_append.mp hlayout with hlayout | hlayout
      · exact hfits.layouts layout hlayout
      · -- the item with the focus is one of the list
        have hlt := index_focusedLayout hlayout
        simp only [items_resumeFollowing, hlength] at hlt
        exact hlt.le

theorem itemIx_scrollAbove (render : ℕ → Size ℚ) (ix : ℕ) (offsetInItem : ℚ) :
    (self.scrollAbove render ix offsetInItem).itemIx ≤ ix := by
  induction ix generalizing offsetInItem with
  | zero => exact le_rfl
  | succ ix ih =>
    rw [scrollAbove]
    split
    · exact (ih _).trans (Nat.le_succ ix)
    · exact le_rfl

theorem itemIx_scrollBelow (render : ℕ → Size ℚ) (ix : ℕ) (height : ℚ) :
    (self.scrollBelow render ix height).itemIx ≤ ix := by
  induction ix generalizing height with
  | zero => exact le_rfl
  | succ ix ih =>
    rw [scrollBelow]
    split
    · exact (ih _).trans (Nat.le_succ ix)
    · exact le_rfl

/-- A request leads to the item that makes it, or to one in front of it. -/
theorem itemIx_autoscrollRequest {bounds : Bounds ℚ} {padding : Edges} {render : ℕ → Size ℚ}
    {requests : ℕ → Point ℚ → Option (Bounds ℚ)} {layouts : List ItemLayout} {originY : ℚ}
    {request : ListOffset}
    (h : self.autoscrollRequest bounds padding render requests layouts originY = some request) :
    ∃ layout ∈ layouts, request.itemIx ≤ layout.index := by
  induction layouts generalizing originY with
  | nil => cases h
  | cons item layouts ih =>
    rw [autoscrollRequest, Option.or_eq_some_iff] at h
    rcases h with h | ⟨-, h⟩
    · obtain ⟨target, -, hto⟩ := Option.bind_eq_some_iff.mp h
      refine ⟨item, List.mem_cons_self, ?_⟩
      rw [autoscrollTo] at hto
      split at hto
      · rw [← Option.some.inj hto]
        exact itemIx_scrollAbove _ _ _
      · split at hto
        · rw [← Option.some.inj hto]
          exact itemIx_scrollBelow _ _ _
        · cases hto
    · obtain ⟨layout, hlayout, hle⟩ := ih h
      exact ⟨layout, List.mem_cons_of_mem _ hlayout, hle⟩

theorem Valid.prepaintItems (h : self.Valid) (bounds : Bounds ℚ) (padding : Edges)
    (render : ℕ → Size ℚ) (focused : FocusHandle → Bool) :
    (self.prepaintItems bounds padding render focused).1.Valid ∧
      ∀ layout ∈ (self.prepaintItems bounds padding render focused).2.itemLayouts,
        layout.index ≤ (self.prepaintItems bounds padding render focused).1.items.length := by
  have hmeasured : (self.layoutAllItems render).Valid := by
    rw [layoutAllItems]
    split
    · exact h.congr rfl (by simp)
    · exact h
  obtain ⟨hlength, hvalid, hlayouts⟩ := hmeasured.layoutItems
    { availableHeight := bounds.size.height, padding := padding, render := render,
      focused := focused }
  refine ⟨hvalid, fun layout hlayout => ?_⟩
  rw [StateInner.prepaintItems] at hlayout ⊢
  dsimp only at hlayout ⊢
  rw [hlength]
  split at hlayout
  · exact hlayouts layout hlayout
  · cases hlayout

theorem Valid.prepaint (h : self.Valid) (bounds : Bounds ℚ) (padding : Edges)
    (render : ℕ → Size ℚ) (focused : FocusHandle → Bool)
    (requests : ℕ → Point ℚ → Option (Bounds ℚ)) :
    (self.prepaint bounds padding render focused requests).1.Valid := by
  have hinvalidated : ({ self with reset := false }.invalidateWidth bounds.size.width).Valid := by
    rw [invalidateWidth]
    split
    · exact h.congr rfl (by simp)
    · exact h.congr rfl rfl
  set invalidated := { self with reset := false }.invalidateWidth bounds.size.width with hset
  obtain ⟨hfirst, hlayouts⟩ := hinvalidated.prepaintItems bounds padding render focused
  rw [StateInner.prepaint, ← hset]
  dsimp only
  split
  · next request hrequest =>
    -- the item that is scrolled to is in the list
    obtain ⟨layout, hlayout, hle⟩ := itemIx_autoscrollRequest hrequest
    have hscrolled : ({ (invalidated.prepaintItems bounds padding render focused).1 with
        logicalScrollTop := some request } : StateInner).Valid :=
      .of_some rfl (hle.trans (hlayouts layout hlayout))
    exact (hscrolled.prepaintItems bounds padding render focused).1.congr rfl rfl
  · exact hfirst.congr rfl rfl

end StateInner

/-! ### Runs -/

/-- What changes a list: the code that owns it, the scroll wheel and layout. -/
inductive Call
  | setTailReservation (reservation : Option (ℕ × ℚ))
  | setScrollHandler
  | spliceFocusable (oldRange : ℕ × ℕ) (focusHandles : List (Option FocusHandle))
  | remeasureItems (range : ℕ × ℕ) (scrollAnchor : ScrollAnchor)
  | resetTo (elementCount : ℕ)
  | scrollBy (distance : ℚ)
  | scrollToEnd
  | setFollowMode (mode : FollowMode)
  | scrollTo (offset : ListOffset)
  | scrollToRevealItem (ix : ℕ)
  | scrollbarDragStarted
  | scrollbarDragEnded
  | setOffsetFromScrollbar (point : Point ℚ)
  | scroll (scrollTop : ListOffset) (height : ℚ) (delta : Point ℚ)
  | layoutItems (input : LayoutInput)
  | prepaint (bounds : Bounds ℚ) (padding : Edges) (render : ℕ → Size ℚ)
    (focused : FocusHandle → Bool) (requests : ℕ → Point ℚ → Option (Bounds ℚ))

namespace StateInner

/-- A range is one of items of the list. -/
def Allows (self : StateInner) : Call → Prop
  | .spliceFocusable range _ => range.1 ≤ range.2 ∧ range.2 ≤ self.items.length
  | .remeasureItems range _ => range.1 ≤ range.2 ∧ range.2 ≤ self.items.length
  | _ => True

/-- The call is made. -/
def call (self : StateInner) : Call → StateInner
  | .setTailReservation reservation => self.setTailReservation reservation
  | .setScrollHandler => { self with scrollHandler := true }
  | .spliceFocusable oldRange focusHandles => self.spliceFocusable oldRange focusHandles
  | .remeasureItems range scrollAnchor => self.remeasureItemsWithScrollAnchor range scrollAnchor
  | .resetTo elementCount => self.resetTo elementCount
  | .scrollBy distance => self.scrollBy distance
  | .scrollToEnd => self.scrollToEnd
  | .setFollowMode mode => self.setFollowMode mode
  | .scrollTo offset => self.scrollTo offset
  | .scrollToRevealItem ix => self.scrollToRevealItem ix
  | .scrollbarDragStarted => self.scrollbarDragStarted
  | .scrollbarDragEnded => self.scrollbarDragEnded
  | .setOffsetFromScrollbar point => self.setOffsetFromScrollbar point
  | .scroll scrollTop height delta => (self.scroll scrollTop height delta).1
  | .layoutItems input => (self.layoutItems input).1
  | .prepaint bounds padding render focused requests =>
    (self.prepaint bounds padding render focused requests).1

/-- A state that calls lead to. -/
inductive Reachable : StateInner → Prop
  | new (itemCount : ℕ) (alignment : ListAlignment) (overdraw : ℚ) :
    Reachable (new itemCount alignment overdraw)
  | call {state : StateInner} (h : Reachable state) (call : Call) (hallows : state.Allows call) :
    Reachable (state.call call)

theorem Valid.call {state : StateInner} (h : state.Valid) {call : Call}
    (hallows : state.Allows call) : (state.call call).Valid := by
  cases call with
  | setTailReservation reservation =>
    show (state.setTailReservation reservation).Valid
    rw [setTailReservation]
    split
    · exact h
    · exact h.clearTailExtra.congr rfl rfl
  | setScrollHandler => exact h.congr rfl rfl
  | spliceFocusable oldRange focusHandles =>
    exact h.spliceFocusable focusHandles hallows.1 hallows.2
  | remeasureItems range scrollAnchor =>
    exact h.remeasureItemsWithScrollAnchor scrollAnchor hallows.1
  | resetTo elementCount =>
    refine Valid.spliceFocusable (.of_none rfl) _ (Nat.zero_le _) ?_
    exact Nat.le_refl _
  | scrollBy distance => exact h.scrollBy distance
  | scrollToEnd => exact .of_some rfl (Nat.le_refl _)
  | setFollowMode mode =>
    cases mode with
    | normal => exact h.congr rfl rfl
    | tail => exact .of_some rfl (Nat.le_refl _)
  | scrollTo offset => exact valid_scrollTo offset
  | scrollToRevealItem ix => exact h.scrollToRevealItem ix
  | scrollbarDragStarted => exact h.congr rfl rfl
  | scrollbarDragEnded => exact h.congr rfl rfl
  | setOffsetFromScrollbar point => exact h.setOffsetFromScrollbar point
  | scroll scrollTop height delta => exact h.scroll scrollTop height delta
  | layoutItems input => exact (h.layoutItems input).2.1
  | prepaint bounds padding render focused requests =>
    exact h.prepaint bounds padding render focused requests

/-- In every run the scroll top is in the list. -/
theorem valid_of_reachable {state : StateInner} (h : state.Reachable) : state.Valid := by
  induction h with
  | new itemCount alignment overdraw =>
    exact Valid.spliceFocusable (.of_none rfl) _ (Nat.le_refl _) (Nat.le_refl _)
  | call _ call hallows ih => exact ih.call hallows

/-- The item that the list was scrolled to is taken out. -/
theorem valid_of_reachable_spliced :
    (((new 3 .top 100).call (.scrollTo ⟨2, 0⟩)).call (.spliceFocusable (1, 3) [])).Valid :=
  valid_of_reachable
    (.call (.call (.new 3 .top 100) (.scrollTo ⟨2, 0⟩) trivial) (.spliceFocusable (1, 3) [])
      ⟨by decide, Nat.le_refl 3⟩)

end StateInner

end Zui.ListElement
