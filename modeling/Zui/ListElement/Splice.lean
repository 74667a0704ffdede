/-
What a splice does to the scroll anchor of a list.

A splice moves the scroll top along with the item that it is at, or to the first of the new items
when that one is replaced.  A pending scroll, which a remeasure has left for the next layout,
stays as it is: when the item that it is for moves, it is lost, and when it is for the first item
of the range, it moves the scroll top into the item that is there now.  A scroll top that is not
set stays at the edge of the list, also when items are spliced in front of the one that is there.

Main statements:

* `scrollTop_layoutForward` — layout moves the scroll top only for a pending scroll;
* `keepsAnchor_iff` — a splice keeps the anchor exactly if the pending scroll allows it and the
  items of a list at its top edge stay where they are;
* `splice_loses_anchor` — it does not when the remeasured item at the scroll top is replaced.
-/
import Zui.ListElement.Valid

namespace Zui.ListElement

open Gpui (Edges Size)

namespace PendingScroll

/-- The item that a pending scroll is for. -/
def itemIx : PendingScroll → ℕ
  | absolute itemIx _ => itemIx
  | proportional itemIx _ => itemIx

/-- How far it scrolls into the item, in pixels or as a part of its height. -/
def amount : PendingScroll → ℚ
  | absolute _ offset => offset
  | proportional _ fraction => fraction

/-- The same pending scroll for another item. -/
def at_ (itemIx : ℕ) : PendingScroll → PendingScroll
  | absolute _ offset => absolute itemIx offset
  | proportional _ fraction => proportional itemIx fraction

/-- How far it scrolls into an item of some height, in pixels. -/
def offsetIn (elementHeight : ℚ) : PendingScroll → ℚ
  | absolute _ offset => min offset elementHeight
  | proportional _ fraction => fraction * elementHeight

end PendingScroll

/-! ### The pending scroll in layout -/

namespace Pass

variable {input : LayoutInput} {oldItems : List ListItem} {self : Pass}

theorem scrollTop_applyPendingScroll (elementHeight : ℚ) :
    (self.applyPendingScroll elementHeight).scrollTop =
      match self.state.pendingScroll with
      | some pending =>
        if pending.itemIx = self.scrollTop.itemIx then
          { self.scrollTop with offsetInItem := pending.offsetIn elementHeight }
        else self.scrollTop
      | none => self.scrollTop := by
  rw [applyPendingScroll]
  rcases hpending : self.state.pendingScroll with _ | ⟨itemIx, offset⟩ | ⟨itemIx, fraction⟩
  · rfl
  · by_cases hfor : itemIx = self.scrollTop.itemIx
    · simp [PendingScroll.itemIx, PendingScroll.offsetIn, hfor]
    · simp [PendingScroll.itemIx, hfor]
  · by_cases hfor : itemIx = self.scrollTop.itemIx
    · simp [PendingScroll.itemIx, PendingScroll.offsetIn, hfor]
    · simp [PendingScroll.itemIx, hfor]

theorem scrollTop_renderItem (ix : ℕ) (item : ListItem) :
    (self.renderItem input ix item).scrollTop =
      if ix = 0 then
        (self.applyPendingScroll (input.render (self.scrollTop.itemIx + ix)).height).scrollTop
      else self.scrollTop := by
  rw [renderItem]
  split <;> split <;> rfl

theorem scrollTop_forwardItem (ix : ℕ) (item : ListItem) :
    (self.forwardItem input oldItems ix item).scrollTop =
      if self.renders input oldItems ix item ∧ ix = 0 then
        (self.applyPendingScroll (input.render self.scrollTop.itemIx).height).scrollTop
      else self.scrollTop := by
  rw [forwardItem]
  by_cases hrenders : self.renders input oldItems ix item
  · rw [if_pos hrenders]
    show (self.renderItem input ix item).scrollTop = _
    rw [scrollTop_renderItem]
    by_cases hix : ix = 0
    · rw [if_pos hix, if_pos ⟨hrenders, hix⟩, hix, Nat.add_zero]
    · simp [hix]
  · rw [if_neg hrenders]
    simp [hrenders, pushBack]

theorem scrollTop_forward : ∀ (items : List ListItem) (ix : ℕ) {self : Pass},
    (self.forward input oldItems (ix + 1) items).scrollTop = self.scrollTop := by
  intro items
  induction items with
  | nil =>
    intro ix self
    rfl
  | cons item items ih =>
    intro ix self
    rw [forward]
    split
    · rfl
    · rw [ih, scrollTop_forwardItem]
      simp

end Pass

namespace StateInner

variable {self : StateInner}

theorem followTail_of_normal (h : self.followState = .normal) : self.followTail = self := by
  simp [followTail, FollowState.isFollowing, h]

/-- The item at the scroll top is rendered when there is room for it. -/
def Renders (self : StateInner) (input : LayoutInput) (item : ListItem) : Prop :=
  (self.startLayout input).renderedHeight - (self.startLayout input).scrollTop.offsetInItem <
      input.availableHeight + self.overdraw ∧
    (self.startLayout input).renders input self.items 0 item

theorem logicalScrollTopOrEdge_of_some {scrollTop : ListOffset}
    (htop : self.logicalScrollTop = some scrollTop) : self.logicalScrollTopOrEdge = scrollTop := by
  rw [logicalScrollTopOrEdge, htop, Option.getD_some]

/-- Layout moves the scroll top of a list that does not follow its tail only for a pending scroll
for the item there, when it renders it. -/
theorem scrollTop_layoutForward {scrollTop : ListOffset} (input : LayoutInput)
    (hstays : self.followTail = self) (htop : self.logicalScrollTopOrEdge = scrollTop) :
    (∃ item pending, self.items[scrollTop.itemIx]? = some item ∧ self.Renders input item ∧
        self.pendingScroll = some pending ∧ pending.itemIx = scrollTop.itemIx ∧
        (self.layoutForward input).scrollTop =
          ⟨scrollTop.itemIx, pending.offsetIn (input.render scrollTop.itemIx).height⟩) ∨
      ((∀ item pending, self.items[scrollTop.itemIx]? = some item → self.Renders input item →
          self.pendingScroll = some pending → pending.itemIx ≠ scrollTop.itemIx) ∧
        (self.layoutForward input).scrollTop = scrollTop) := by
  have hstart : (self.startLayout input).scrollTop = scrollTop := by
    rw [startLayout]
    dsimp only
    rw [hstays, htop]
  have hstate : (self.startLayout input).state = self := hstays
  rw [layoutForward, hstart]
  cases hitems : self.items.drop scrollTop.itemIx with
  -- below the scroll top there is nothing to render
  | nil =>
    have hnone : self.items[scrollTop.itemIx]? = none := by
      rw [List.getElem?_eq_none_iff]
      exact List.drop_eq_nil_iff.mp hitems
    refine .inr ⟨?_, hstart⟩
    intro item pending hitem
    rw [hnone] at hitem
    cases hitem
  | cons item items =>
    have hitem : self.items[scrollTop.itemIx]? = some item := by
      rw [← Nat.add_zero scrollTop.itemIx, ← List.getElem?_drop, hitems, List.getElem?_cons_zero]
    rw [Pass.forward, hstate]
    by_cases hroom : (self.startLayout input).renderedHeight -
        (self.startLayout input).scrollTop.offsetInItem ≥ input.availableHeight + self.overdraw
    · -- the viewport is filled before the first item
      rw [if_pos hroom]
      refine .inr ⟨?_, hstart⟩
      intro item' pending _ hrenders
      exact absurd hroom (not_le.mpr hrenders.1)
    rw [if_neg hroom, Pass.scrollTop_forward, Pass.scrollTop_forwardItem]
    by_cases hrenders : (self.startLayout input).renders input self.items 0 item
    · rw [if_pos ⟨hrenders, rfl⟩, Pass.scrollTop_applyPendingScroll, hstate, hstart]
      cases hpending : self.pendingScroll with
      | none => exact .inr ⟨by simp, rfl⟩
      | some pending =>
        dsimp only
        by_cases hfor : pending.itemIx = scrollTop.itemIx
        · -- only here the pending scroll sets the offset
          rw [if_pos hfor]
          exact .inl ⟨item, pending, hitem, ⟨not_le.mp hroom, hrenders⟩, rfl, hfor, rfl⟩
        · rw [if_neg hfor]
          refine .inr ⟨?_, rfl⟩
          rintro item' pending' _ _ ⟨⟩
          exact hfor
    · rw [if_neg fun h => hrenders h.1]
      refine .inr ⟨?_, hstart⟩
      intro item' pending hitem' hrenders'
      rw [hitem] at hitem'
      cases hitem'
      exact absurd hrenders'.2 hrenders

/-! ### Splices -/

variable {oldRange : ℕ × ℕ} {focusHandles : List (Option FocusHandle)}

/-- The range of a splice has the index in it. -/
def Replaces (oldRange : ℕ × ℕ) (ix : ℕ) : Prop := oldRange.1 ≤ ix ∧ ix < oldRange.2

/-- Where the item at an index is behind a splice that does not replace it. -/
def moved (oldRange : ℕ × ℕ) (splicedCount ix : ℕ) : ℕ :=
  if oldRange.2 ≤ ix then ix + splicedCount - (oldRange.2 - oldRange.1) else ix

/-- A splice keeps the anchor of the list: the item at the scroll top, when it survives, or else
the beginning of the range. -/
structure KeepsAnchor (state : StateInner) (oldRange : ℕ × ℕ)
    (focusHandles : List (Option FocusHandle)) : Prop where
  survives : ∀ item, state.clearTailExtra.items[state.logicalScrollTopOrEdge.itemIx]? = some item →
    ¬Replaces oldRange state.logicalScrollTopOrEdge.itemIx →
      (state.spliceFocusable oldRange focusHandles).logicalScrollTopOrEdge =
          ⟨moved oldRange focusHandles.length state.logicalScrollTopOrEdge.itemIx,
            state.logicalScrollTopOrEdge.offsetInItem⟩ ∧
        (state.spliceFocusable oldRange focusHandles).items[
          moved oldRange focusHandles.length state.logicalScrollTopOrEdge.itemIx]? = some item ∧
        ∀ pending, state.pendingScroll = some pending →
          pending.itemIx = state.logicalScrollTopOrEdge.itemIx →
            (state.spliceFocusable oldRange focusHandles).pendingScroll =
              some (pending.at_
                (moved oldRange focusHandles.length state.logicalScrollTopOrEdge.itemIx))
  replaced : Replaces oldRange state.logicalScrollTopOrEdge.itemIx →
    (state.spliceFocusable oldRange focusHandles).logicalScrollTopOrEdge = ⟨oldRange.1, 0⟩ ∧
      ∀ input : LayoutInput, (∀ ix, 0 ≤ (input.render ix).height) →
        ((state.spliceFocusable oldRange focusHandles).layoutForward input).scrollTop =
          ⟨oldRange.1, 0⟩
  bounded : (state.spliceFocusable oldRange focusHandles).logicalScrollTopOrEdge.itemIx ≤
    (state.spliceFocusable oldRange focusHandles).items.length

/-- The pending scroll is not for an item at the scroll top that the splice moves, and when the
splice replaces the item at the scroll top, it is not for the beginning of the range, unless it
does not scroll or no item is there.  Nothing is put in front of the items of a list that is at
its top edge because its scroll top is not set. -/
structure AnchorStays (state : StateInner) (oldRange : ℕ × ℕ) (splicedCount : ℕ) : Prop where
  survives : ∀ pending, state.pendingScroll = some pending →
    pending.itemIx = state.logicalScrollTopOrEdge.itemIx →
      state.logicalScrollTopOrEdge.itemIx < state.items.length →
        oldRange.2 ≤ state.logicalScrollTopOrEdge.itemIx →
          splicedCount = oldRange.2 - oldRange.1
  replaced : ∀ pending, state.pendingScroll = some pending →
    Replaces oldRange state.logicalScrollTopOrEdge.itemIx → pending.itemIx = oldRange.1 →
      pending.amount = 0 ∨ (splicedCount = 0 ∧ oldRange.2 = state.items.length)
  edge : state.logicalScrollTop = none → state.alignment = .top → state.items ≠ [] →
    oldRange.2 = 0 → splicedCount = 0

theorem getElem_splicedItems {ix : ℕ} {item : ListItem} (hstart : oldRange.1 ≤ oldRange.2)
    (hend : oldRange.2 ≤ self.items.length) (hitem : self.items[ix]? = some item)
    (hsurvives : ¬Replaces oldRange ix) :
    (self.splicedItems oldRange focusHandles)[moved oldRange focusHandles.length ix]? =
      some item := by
  obtain ⟨hix, -⟩ := List.getElem?_eq_some_iff.mp hitem
  rw [splicedItems, moved]
  by_cases hbehind : oldRange.2 ≤ ix
  · -- The item is in the rest of the list.
    rw [if_pos hbehind, List.getElem?_append_right, List.getElem?_drop, ← hitem]
    · congr 1
      simp only [List.length_append, List.length_take, List.length_map]
      omega
    · simp only [List.length_append, List.length_take, List.length_map]
      omega
  · have hfront : ix < oldRange.1 := by
      by_contra hle
      exact hsurvives ⟨Nat.le_of_not_lt hle, Nat.lt_of_not_le hbehind⟩
    rw [if_neg hbehind, List.append_assoc, List.getElem?_append_left, List.getElem?_take,
      if_pos hfront, hitem]
    simp only [List.length_take]
    omega

theorem splicedScrollTop_replaced {scrollTop : ListOffset} (splicedCount : ℕ)
    (h : Replaces oldRange scrollTop.itemIx) :
    splicedScrollTop oldRange splicedCount scrollTop = ⟨oldRange.1, 0⟩ := by
  rw [splicedScrollTop]
  exact if_pos h

theorem splicedScrollTop_survives {scrollTop : ListOffset} (splicedCount : ℕ)
    (hstart : oldRange.1 ≤ oldRange.2) (h : ¬Replaces oldRange scrollTop.itemIx) :
    splicedScrollTop oldRange splicedCount scrollTop =
      ⟨moved oldRange splicedCount scrollTop.itemIx, scrollTop.offsetInItem⟩ := by
  have hout : ¬(oldRange.1 ≤ scrollTop.itemIx ∧ scrollTop.itemIx < oldRange.2) := h
  rw [splicedScrollTop, if_neg hout, moved]
  split
  · rw [show scrollTop.itemIx - (oldRange.2 - oldRange.1) + splicedCount =
      scrollTop.itemIx + splicedCount - (oldRange.2 - oldRange.1) by omega]
  · rfl

theorem logicalScrollTop_spliceFocusable {scrollTop : ListOffset}
    (htop : self.logicalScrollTop = some scrollTop) :
    (self.spliceFocusable oldRange focusHandles).logicalScrollTop =
      some (splicedScrollTop oldRange focusHandles.length scrollTop) := by
  show self.clearTailExtra.logicalScrollTop.map _ = _
  rw [logicalScrollTop_clearTailExtra, htop, Option.map_some]

theorem spliceFocusable_of_none (htop : self.logicalScrollTop = none) :
    (self.spliceFocusable oldRange focusHandles).logicalScrollTop = none := by
  show self.clearTailExtra.logicalScrollTop.map _ = _
  rw [logicalScrollTop_clearTailExtra, htop, Option.map_none]

@[simp] theorem alignment_spliceFocusable :
    (self.spliceFocusable oldRange focusHandles).alignment = self.alignment := by
  show self.clearTailExtra.alignment = _
  rw [clearTailExtra]
  split <;> rfl

theorem edge_of_lt (htop : self.logicalScrollTop = none)
    (hlt : self.logicalScrollTopOrEdge.itemIx < self.items.length) :
    self.alignment = .top ∧ self.logicalScrollTopOrEdge = ⟨0, 0⟩ := by
  rw [logicalScrollTopOrEdge, htop, Option.getD_none] at hlt ⊢
  cases halign : self.alignment with
  | top => exact ⟨rfl, rfl⟩
  | bottom =>
    rw [halign] at hlt
    exact absurd hlt (Nat.lt_irrefl _)

/-- The scroll top at an item moves as `spliced_scroll_top` says, unless it is not set and items
are put in front of it. -/
theorem logicalScrollTopOrEdge_spliceFocusable
    (hlt : self.logicalScrollTopOrEdge.itemIx < self.items.length) :
    (self.spliceFocusable oldRange focusHandles).logicalScrollTopOrEdge =
        splicedScrollTop oldRange focusHandles.length self.logicalScrollTopOrEdge ↔
      (self.logicalScrollTop = none → oldRange.2 = 0 → focusHandles.length = 0) := by
  cases htop : self.logicalScrollTop with
  | some scrollTop =>
    rw [logicalScrollTopOrEdge_of_some htop,
      logicalScrollTopOrEdge_of_some (logicalScrollTop_spliceFocusable htop)]
    simp
  | none =>
    obtain ⟨halign, hedge⟩ := edge_of_lt htop hlt
    rw [hedge, logicalScrollTopOrEdge, spliceFocusable_of_none htop, alignment_spliceFocusable,
      halign, Option.getD_none, splicedScrollTop]
    by_cases hempty : oldRange.2 = 0
    · -- Nothing is replaced, and what is put in front moves the item.
      rw [if_neg (by simp [hempty]), if_pos (by simp [hempty])]
      simp [hempty, eq_comm]
    · by_cases hin : oldRange.1 = 0
      · rw [if_pos ⟨by simp [hin], Nat.pos_of_ne_zero hempty⟩]
        simp [hin, hempty]
      · rw [if_neg (by simp [hin]), if_neg (by simp [hempty])]
        simp [hempty]

@[simp] theorem pendingScroll_spliceFocusable :
    (self.spliceFocusable oldRange focusHandles).pendingScroll = self.pendingScroll := by
  show self.clearTailExtra.pendingScroll = _
  rw [clearTailExtra]
  split <;> rfl

@[simp] theorem followState_spliceFocusable :
    (self.spliceFocusable oldRange focusHandles).followState = self.followState := by
  show self.clearTailExtra.followState = _
  rw [clearTailExtra]
  split <;> rfl

theorem length_spliceFocusable (hstart : oldRange.1 ≤ oldRange.2)
    (hend : oldRange.2 ≤ self.items.length) :
    (self.spliceFocusable oldRange focusHandles).items.length + (oldRange.2 - oldRange.1) =
      self.items.length + focusHandles.length := by
  have := self.clearTailExtra.length_splicedItems focusHandles hstart (by simpa using hend)
  rwa [length_clearTailExtra] at this

end StateInner

theorem PendingScroll.offsetIn_eq_zero {pending : PendingScroll} (h : pending.amount = 0)
    {elementHeight : ℚ} (hheight : 0 ≤ elementHeight) : pending.offsetIn elementHeight = 0 := by
  cases pending with
  | absolute itemIx offset =>
    have hoffset : offset = 0 := h
    rw [offsetIn, hoffset, min_eq_left hheight]
  | proportional itemIx fraction =>
    have hfraction : fraction = 0 := h
    rw [offsetIn, hfraction, zero_mul]

theorem PendingScroll.exists_offsetIn {pending : PendingScroll} (h : pending.amount ≠ 0) :
    ∃ elementHeight : ℚ, 0 ≤ elementHeight ∧ pending.offsetIn elementHeight ≠ 0 := by
  cases pending with
  | absolute itemIx offset =>
    refine ⟨|offset|, abs_nonneg offset, ?_⟩
    rw [offsetIn, min_eq_left (le_abs_self offset)]
    exact h
  | proportional itemIx fraction =>
    refine ⟨1, by norm_num, ?_⟩
    rw [offsetIn, mul_one]
    exact h

@[simp] theorem PendingScroll.at_eq_self_iff {pending : PendingScroll} {itemIx : ℕ} :
    pending = pending.at_ itemIx ↔ pending.itemIx = itemIx := by
  cases pending <;> simp [at_, PendingScroll.itemIx]

namespace StateInner

variable {self : StateInner} {oldRange : ℕ × ℕ} {focusHandles : List (Option FocusHandle)}

/-- A layout with room for the item at the scroll top. -/
def roomy (overdraw elementHeight offset : ℚ) : LayoutInput where
  availableHeight := |overdraw| + |offset| + 1
  padding := ⟨0, 0, 0, 0⟩
  render _ := ⟨0, elementHeight⟩
  focused _ := false

theorem renders_roomy {item : ListItem} {scrollTop : ListOffset}
    (hnormal : self.followState = .normal) (htop : self.logicalScrollTopOrEdge = scrollTop)
    (elementHeight : ℚ) :
    self.Renders (roomy self.overdraw elementHeight scrollTop.offsetInItem) item := by
  have hstart : (self.startLayout (roomy self.overdraw elementHeight
      scrollTop.offsetInItem)).scrollTop = scrollTop := by
    rw [startLayout]
    dsimp only
    rw [followTail_of_normal hnormal, htop]
  have hoverdraw := neg_abs_le self.overdraw
  have hoverdraw' := abs_nonneg self.overdraw
  have hoffset := neg_abs_le scrollTop.offsetInItem
  refine ⟨?_, ?_⟩
  · rw [hstart]
    show (0 : ℚ) - scrollTop.offsetInItem <
      |self.overdraw| + |scrollTop.offsetInItem| + 1 + self.overdraw
    linarith
  · have hvisible : (self.startLayout (roomy self.overdraw elementHeight
        scrollTop.offsetInItem)).renderedHeight - scrollTop.offsetInItem <
          (roomy self.overdraw elementHeight scrollTop.offsetInItem).availableHeight := by
      show (0 : ℚ) - scrollTop.offsetInItem < |self.overdraw| + |scrollTop.offsetInItem| + 1
      linarith
    rw [Pass.renders, hstart]
    simp [hvisible]

theorem edge_of_replaces (hend : oldRange.2 ≤ self.items.length)
    (hin : Replaces oldRange self.logicalScrollTopOrEdge.itemIx) :
    (self.spliceFocusable oldRange focusHandles).logicalScrollTopOrEdge = ⟨oldRange.1, 0⟩ := by
  rw [(logicalScrollTopOrEdge_spliceFocusable (hin.2.trans_le hend)).mpr,
    splicedScrollTop_replaced _ hin]
  intro _ hempty
  have := hin.2
  omega

/-- A splice of a list that does not follow its tail keeps the anchor exactly if the pending scroll
allows it and the items of a list at its top edge stay where they are. -/
theorem keepsAnchor_iff (h : self.Valid) (hnormal : self.followState = .normal)
    (hstart : oldRange.1 ≤ oldRange.2) (hend : oldRange.2 ≤ self.items.length) :
    self.KeepsAnchor oldRange focusHandles ↔ self.AnchorStays oldRange focusHandles.length := by
  have hnormal' : (self.spliceFocusable oldRange focusHandles).followState = .normal := by
    rw [followState_spliceFocusable, hnormal]
  have hlength : (self.spliceFocusable oldRange focusHandles).items.length +
      (oldRange.2 - oldRange.1) = self.items.length + focusHandles.length :=
    self.length_spliceFocusable hstart hend
  constructor
  · intro hkeeps
    have hsurvives (hlt : self.logicalScrollTopOrEdge.itemIx < self.items.length) :=
      hkeeps.survives _ (List.getElem?_eq_getElem (by simpa using hlt))
    refine ⟨?_, ?_, ?_⟩
    · intro pending hpending hfor hlt hbehind
      obtain ⟨-, -, hpend⟩ := hsurvives hlt fun hin => absurd hin.2 (Nat.not_lt.mpr hbehind)
      have hat := hpend pending hpending hfor
      rw [pendingScroll_spliceFocusable, hpending, Option.some.injEq,
        PendingScroll.at_eq_self_iff, hfor, moved, if_pos hbehind] at hat
      omega
    · intro pending hpending hin hfor
      by_contra hneither
      obtain ⟨hamount, hthere⟩ := not_or.mp hneither
      obtain ⟨elementHeight, hheight, hoffset⟩ := PendingScroll.exists_offsetIn hamount
      obtain ⟨htop', hlayout⟩ := hkeeps.replaced hin
      have hlt : oldRange.1 < (self.spliceFocusable oldRange focusHandles).items.length := by
        have := hin.1
        have := hin.2
        omega
      -- The layout renders the item that is at the beginning of the range now.
      let input := roomy (self.spliceFocusable oldRange focusHandles).overdraw elementHeight 0
      have hstays := hlayout input fun _ => hheight
      rcases scrollTop_layoutForward input (followTail_of_normal hnormal') htop' with
        ⟨item, pending', hitem, -, hpending', -, hmoves⟩ | ⟨hno, -⟩
      · rw [pendingScroll_spliceFocusable, hpending] at hpending'
        cases hpending'
        rw [hstays] at hmoves
        exact hoffset (congrArg ListOffset.offsetInItem hmoves).symm
      · exact hno _ pending (List.getElem?_eq_getElem hlt)
          (renders_roomy hnormal' htop' elementHeight)
          (by rw [pendingScroll_spliceFocusable, hpending]) hfor
    · -- The first item is not replaced, so it takes the scroll top along.
      intro htop halign hne hempty
      have hlt : self.logicalScrollTopOrEdge.itemIx < self.items.length := by
        rw [logicalScrollTopOrEdge, htop, halign]
        exact List.length_pos_iff.mpr hne
      have hout : ¬Replaces oldRange self.logicalScrollTopOrEdge.itemIx := fun hin => by
        have := hin.2
        omega
      have hmoves := (hsurvives hlt hout).1
      rw [← splicedScrollTop_survives _ hstart hout] at hmoves
      exact (logicalScrollTopOrEdge_spliceFocusable hlt).mp hmoves htop hempty
  · intro hstays
    refine ⟨?_, ?_, ?_⟩
    · intro item hitem hsurvives
      obtain ⟨hlt, -⟩ := List.getElem?_eq_some_iff.mp hitem
      rw [length_clearTailExtra] at hlt
      refine ⟨?_, ?_, ?_⟩
      · rw [(logicalScrollTopOrEdge_spliceFocusable hlt).mpr,
          splicedScrollTop_survives _ hstart hsurvives]
        intro htop
        exact hstays.edge htop (edge_of_lt htop hlt).1 (List.length_pos_iff.mp (by omega))
      · exact getElem_splicedItems hstart (by simpa using hend) hitem hsurvives
      · intro pending hpending hfor
        rw [pendingScroll_spliceFocusable, hpending, Option.some.injEq,
          PendingScroll.at_eq_self_iff, hfor, moved]
        split
        · next hbehind =>
          have := hstays.survives pending hpending hfor hlt hbehind
          omega
        · rfl
    · intro hin
      have htop' : (self.spliceFocusable oldRange focusHandles).logicalScrollTopOrEdge =
          ⟨oldRange.1, 0⟩ := edge_of_replaces hend hin
      refine ⟨htop', ?_⟩
      intro input hheights
      rcases scrollTop_layoutForward input (followTail_of_normal hnormal') htop' with
        ⟨item, pending, hitem, -, hpending, hfor, hmoves⟩ | ⟨-, hkept⟩
      · rw [hmoves]
        rw [pendingScroll_spliceFocusable] at hpending
        rcases hstays.replaced pending hpending hin hfor with hzero | ⟨hcount, hlast⟩
        · rw [PendingScroll.offsetIn_eq_zero hzero (hheights _)]
        · -- Nothing is at the beginning of the range any more.
          obtain ⟨hlt, -⟩ := List.getElem?_eq_some_iff.mp hitem
          dsimp only at hlt
          omega
      · exact hkept
    · exact (h.spliceFocusable focusHandles hstart hend).edge

/-- A list of two items, 30 pixels high each, in 40 pixels, that was scrolled 10 pixels into the
first one, which is to be measured again. -/
def remeasured : StateInner :=
  (((new 2 .top 0).prepaint ⟨⟨0, 0⟩, ⟨20, 40⟩⟩ ⟨0, 0, 0, 0⟩ (fun _ => ⟨20, 30⟩)
    (fun _ => false) fun _ _ => none).1.scrollTo ⟨0, 10⟩).remeasureItems (0, 1)

theorem scrollTop_remeasured : remeasured.logicalScrollTopOrEdge = ⟨0, 10⟩ := by
  decide +kernel

/-- The second item is replaced, and the anchor stays. -/
theorem keepsAnchor_iff_remeasured : remeasured.KeepsAnchor (1, 2) [none, none] := by
  have hvalid : remeasured.Valid :=
    .of_some (show remeasured.logicalScrollTop = some ⟨0, 10⟩ by decide +kernel)
      (by decide +kernel)
  refine (keepsAnchor_iff hvalid (by decide +kernel) (by decide) (by decide +kernel)).mpr
    ⟨?_, ?_, ?_⟩
  · rintro pending - - - hbehind
    rw [scrollTop_remeasured] at hbehind
    exact absurd hbehind (by decide)
  · rintro pending - hin -
    rw [scrollTop_remeasured] at hin
    exact absurd hin.1 (by decide)
  · exact fun _ _ _ hempty => absurd hempty (by decide)

/-- The first item is replaced by one that is as high, and the next layout scrolls into that one. -/
theorem splice_loses_anchor : ¬remeasured.KeepsAnchor (0, 1) [none] := by
  intro h
  have hin : Replaces (0, 1) remeasured.logicalScrollTopOrEdge.itemIx := by
    rw [scrollTop_remeasured]
    exact ⟨by decide, by decide⟩
  have hlayout := (h.replaced hin).2
    ⟨40, ⟨0, 0, 0, 0⟩, fun _ => ⟨20, 30⟩, fun _ => false⟩ fun _ => by norm_num
  exact absurd hlayout (by decide +kernel)

end StateInner

end Zui.ListElement
