/-
What the two phases change.

Prepainting adds hitboxes and deferred draws to the next frame.  The scopes are left as they were,
and so is the last frame, but for the element states.  Painting leaves hitboxes and deferred draws
as they are, but for the ranges of what was painted.

* `Extends` — what prepainting leaves and adds, and `prepaint_extends` for an element;
* `prepaintDeferredDraw_visited` — what a visit to a deferred draw can do;
* `Painted` — what painting leaves, and `paint_painted` for an element;
* `traversalOrder_perm` — a round visits every deferred draw once.
-/
import Zui.Drawing.Basic

namespace Zui

open Gpui

namespace Drawing

open Transact (EntityId Hitbox HitboxBehavior)

variable {Style : Type}

/-- A deferred draw that is not prepainted: with its element, or as it was in the last frame. -/
def DeferredDraw.Fresh (rendered : List (DeferredDraw Style)) (draw : DeferredDraw Style) : Prop :=
  (∃ element, draw.element = some (.requested element)) ∨
    draw.element = none ∧ ∃ other ∈ rendered,
      other.contentMask = draw.contentMask ∧ other.prepaintRange = draw.prepaintRange

/-- What is left as it was, and what is only added to. -/
structure Extends (before after : Window Style) : Prop where
  viewport : after.viewport = before.viewport
  contentMaskStack : after.contentMaskStack = before.contentMaskStack
  dirtyViews : after.dirtyViews = before.dirtyViews
  refreshing : after.refreshing = before.refreshing
  renderedHitboxes : after.renderedFrame.hitboxes = before.renderedFrame.hitboxes
  renderedDraws : after.renderedFrame.deferredDraws = before.renderedFrame.deferredDraws
  controls : after.nextFrame.windowControlHitboxes = before.nextFrame.windowControlHitboxes
  nextHitboxId : before.nextHitboxId ≤ after.nextHitboxId
  hitboxes : before.nextFrame.hitboxes <+: after.nextFrame.hitboxes
  draws : ∃ draws, after.nextFrame.deferredDraws = before.nextFrame.deferredDraws ++ draws ∧
    ∀ draw ∈ draws, draw.Fresh before.renderedFrame.deferredDraws

namespace Extends

theorem noDraws {before after : Window Style}
    (h : after.nextFrame.deferredDraws = before.nextFrame.deferredDraws) :
    ∃ draws, after.nextFrame.deferredDraws = before.nextFrame.deferredDraws ++ draws ∧
      ∀ draw ∈ draws, draw.Fresh before.renderedFrame.deferredDraws :=
  ⟨[], by rw [h, List.append_nil], fun _ hdraw => absurd hdraw List.not_mem_nil⟩

theorem refl (window : Window Style) : Extends window window :=
  ⟨rfl, rfl, rfl, rfl, rfl, rfl, rfl, le_rfl, List.prefix_rfl, noDraws rfl⟩

theorem trans {a b c : Window Style} (hab : Extends a b) (hbc : Extends b c) : Extends a c where
  viewport := hbc.viewport.trans hab.viewport
  contentMaskStack := hbc.contentMaskStack.trans hab.contentMaskStack
  dirtyViews := hbc.dirtyViews.trans hab.dirtyViews
  refreshing := hbc.refreshing.trans hab.refreshing
  renderedHitboxes := hbc.renderedHitboxes.trans hab.renderedHitboxes
  renderedDraws := hbc.renderedDraws.trans hab.renderedDraws
  controls := hbc.controls.trans hab.controls
  nextHitboxId := hab.nextHitboxId.trans hbc.nextHitboxId
  hitboxes := hab.hitboxes.trans hbc.hitboxes
  draws := by
    obtain ⟨draws, hdraws, hfresh⟩ := hab.draws
    obtain ⟨draws', hdraws', hfresh'⟩ := hbc.draws
    refine ⟨draws ++ draws', by rw [hdraws', hdraws, List.append_assoc], ?_⟩
    intro draw hdraw
    rcases List.mem_append.mp hdraw with hdraw | hdraw
    · exact hfresh draw hdraw
    · exact hab.renderedDraws ▸ hfresh' draw hdraw

theorem contentMask {before after : Window Style} (h : Extends before after) :
    after.contentMask = before.contentMask := by
  rw [Window.contentMask, Window.contentMask, h.contentMaskStack, h.viewport]

end Extends

namespace Window

variable (window : Window Style)

theorem insertHitbox_extends (bounds : Bounds ℚ) (behavior : HitboxBehavior) :
    Extends window (window.insertHitbox bounds behavior).2 where
  viewport := rfl
  contentMaskStack := rfl
  dirtyViews := rfl
  refreshing := rfl
  renderedHitboxes := rfl
  renderedDraws := rfl
  controls := rfl
  nextHitboxId := Nat.le_succ _
  hitboxes := List.prefix_append _ _
  draws := Extends.noDraws rfl

theorem deferDraw_extends (element : Element Style) (priority : ℕ) (mask : Option ContentMask) :
    Extends window (window.deferDraw element priority mask) := by
  refine ⟨rfl, rfl, rfl, rfl, rfl, rfl, rfl, le_rfl, List.prefix_rfl, _, rfl, ?_⟩
  intro draw hdraw
  obtain rfl := List.mem_singleton.mp hdraw
  exact .inl ⟨element, rfl⟩

theorem reusePrepaint_extends (range : PrepaintStateIndex × PrepaintStateIndex) :
    Extends window (window.reusePrepaint range) := by
  refine ⟨rfl, rfl, rfl, rfl, rfl, rfl, rfl, le_rfl, List.prefix_append _ _, _, rfl, ?_⟩
  intro draw hdraw
  obtain ⟨other, hother, rfl⟩ := List.mem_map.mp hdraw
  exact .inr ⟨rfl, other, List.mem_of_mem_take (List.mem_of_mem_drop hother), rfl, rfl⟩

theorem takeState_extends (key : GlobalElementId) : Extends window (window.takeState key).2 := by
  unfold takeState
  split <;>
    exact ⟨rfl, rfl, rfl, rfl, rfl, rfl, rfl, le_rfl, List.prefix_rfl, Extends.noDraws rfl⟩

theorem putState_extends (key : GlobalElementId) (state : Option (ViewElementState Style)) :
    Extends window (window.putState key state) :=
  ⟨rfl, rfl, rfl, rfl, rfl, rfl, rfl, le_rfl, List.prefix_rfl, Extends.noDraws rfl⟩

variable {window} {α : Type} {f : Window Style → α × Window Style}

theorem withContentMask_extends (hf : ∀ window, Extends window (f window).2)
    (mask : Option ContentMask) : Extends window (window.withContentMask mask f).2 := by
  cases mask with
  | none => exact hf window
  | some mask =>
    have hin := hf { window with
      contentMaskStack := mask.intersect window.contentMask :: window.contentMaskStack }
    exact { hin with contentMaskStack := rfl }

theorem whileRefreshing_extends (hf : ∀ window, Extends window (f window).2) :
    Extends window (window.whileRefreshing f).2 := by
  have hin := hf { window with refreshing := true }
  exact { hin with refreshing := rfl }

end Window

@[simp] theorem modifyDraw_draws (window : Window Style) (ix : ℕ)
    (f : DeferredDraw Style → DeferredDraw Style) :
    (window.modifyDraw ix f).nextFrame.deferredDraws =
      window.nextFrame.deferredDraws.modify ix f := rfl

theorem getElem?_modifyDraw {window : Window Style} {ix : ℕ} {draw : DeferredDraw Style}
    (hdraw : window.nextFrame.deferredDraws[ix]? = some draw)
    (f : DeferredDraw Style → DeferredDraw Style) :
    (window.modifyDraw ix f).nextFrame.deferredDraws[ix]? = some (f draw) := by
  rw [modifyDraw_draws, List.getElem?_modify_eq, hdraw]
  rfl

section Prepaint

variable [DecidableEq Style]

/-- Prepainting an element. -/
theorem prepaint_extends (element : Element Style) (window : Window Style) :
    Extends window (element.prepaint window).2 := by
  induction element generalizing window with
  | empty => exact .refl window
  | both first second ih ih' => exact (ih window).trans (ih' _)
  | hitbox bounds behavior => exact window.insertHitbox_extends bounds behavior
  | contentMask mask child ih => exact Window.withContentMask_extends ih mask
  | deferred priority mask child => exact window.deferDraw_extends child priority mask
  | view globalId entityId bounds textStyle child ih =>
    have htake := window.takeState_extends globalId
    rw [Element.prepaint, prepaintView]
    dsimp only
    split
    · exact htake.trans ((Window.reusePrepaint_extends _ _).trans (Window.putState_extends _ _ _))
    · exact htake.trans ((Window.whileRefreshing_extends ih).trans
        (Window.putState_extends _ _ _))

/-! ### Deferred draws -/

omit [DecidableEq Style] in
theorem Extends.getElem? {before after : Window Style} (h : Extends before after) {ix : ℕ}
    {draw : DeferredDraw Style} (hdraw : before.nextFrame.deferredDraws[ix]? = some draw) :
    after.nextFrame.deferredDraws[ix]? = some draw := by
  obtain ⟨draws, hdraws, -⟩ := h.draws
  have hlt : ix < before.nextFrame.deferredDraws.length := (List.getElem?_eq_some_iff.mp hdraw).1
  rw [hdraws, List.getElem?_append_left hlt]
  exact hdraw

omit [DecidableEq Style] in
theorem Extends.length_draws {before after : Window Style} (h : Extends before after) :
    before.nextFrame.deferredDraws.length ≤ after.nextFrame.deferredDraws.length := by
  obtain ⟨draws, hdraws, -⟩ := h.draws
  rw [hdraws, List.length_append]
  exact Nat.le_add_right _ _

/-- What a visit to a deferred draw can do. -/
inductive Visited (ix : ℕ) (window : Window Style) : Window Style → Prop
  /-- There is nothing to prepaint. -/
  | settled (hdraw : ∀ draw, window.nextFrame.deferredDraws[ix]? = some draw →
      ∃ painting, draw.element = some (.prepainted painting)) : Visited ix window window
  | rendered {draw : DeferredDraw Style} {element : Element Style}
      (hdraw : window.nextFrame.deferredDraws[ix]? = some draw)
      (helement : draw.element = some (.requested element)) :
      Visited ix window <| (element.prepaint window).2.modifyDraw ix fun draw =>
        { draw with
          element := some (.prepainted (element.prepaint window).1)
          prepaintRange := (window.prepaintIndex, (element.prepaint window).2.prepaintIndex) }
  | reused {draw : DeferredDraw Style}
      (hdraw : window.nextFrame.deferredDraws[ix]? = some draw) (helement : draw.element = none) :
      Visited ix window <| (window.reusePrepaint draw.prepaintRange).modifyDraw ix fun other =>
        { other with
          prepaintRange :=
            (window.prepaintIndex, (window.reusePrepaint draw.prepaintRange).prepaintIndex) }

theorem prepaintDeferredDraw_visited (ix : ℕ) (window : Window Style) :
    Visited ix window (prepaintDeferredDraw ix window) := by
  unfold prepaintDeferredDraw
  split
  · rename_i hnone
    exact .settled fun draw hdraw => absurd (hnone.symm.trans hdraw) (by simp)
  · rename_i draw hdraw
    split
    · rename_i element helement
      exact .rendered hdraw helement
    · rename_i painting helement
      refine .settled fun other hother => ⟨painting, ?_⟩
      rw [← Option.some.inj (hdraw.symm.trans hother), helement]
    · rename_i helement
      exact .reused hdraw helement

theorem length_prepaintDeferredDraw (ix : ℕ) (window : Window Style) :
    window.nextFrame.deferredDraws.length ≤
      (prepaintDeferredDraw ix window).nextFrame.deferredDraws.length := by
  have hvisited := prepaintDeferredDraw_visited ix window
  generalize prepaintDeferredDraw ix window = after at hvisited ⊢
  cases hvisited with
  | settled => exact le_rfl
  | @rendered draw element =>
    rw [modifyDraw_draws, List.length_modify]
    exact (prepaint_extends element window).length_draws
  | @reused draw =>
    rw [modifyDraw_draws, List.length_modify]
    exact (Window.reusePrepaint_extends window draw.prepaintRange).length_draws

theorem getElem?_prepaintDeferredDraw {ix jx : ℕ} {window : Window Style} (hne : ix ≠ jx)
    {draw : DeferredDraw Style} (hdraw : window.nextFrame.deferredDraws[jx]? = some draw) :
    (prepaintDeferredDraw ix window).nextFrame.deferredDraws[jx]? = some draw := by
  have hvisited := prepaintDeferredDraw_visited ix window
  generalize prepaintDeferredDraw ix window = after at hvisited ⊢
  cases hvisited with
  | settled => exact hdraw
  | @rendered _ element =>
    rw [modifyDraw_draws, List.getElem?_modify_ne _ _ hne]
    exact (prepaint_extends element window).getElem? hdraw
  | @reused other =>
    rw [modifyDraw_draws, List.getElem?_modify_ne _ _ hne]
    exact (Window.reusePrepaint_extends window other.prepaintRange).getElem? hdraw

/-- Between the deferred draws: outside of every scope, and nothing is registered yet. -/
def Outside (viewport : ContentMask) (window : Window Style) : Prop :=
  window.viewport = viewport ∧ window.contentMaskStack = [] ∧
    window.nextFrame.windowControlHitboxes = []

omit [DecidableEq Style] in
theorem Outside.contentMask {viewport : ContentMask} {window : Window Style}
    (h : Outside viewport window) : window.contentMask = viewport := by
  rw [Window.contentMask, h.2.1, List.head?_nil, Option.getD_none, h.1]

omit [DecidableEq Style] in
theorem Outside.of_extends {viewport : ContentMask} {before after : Window Style}
    (h : Outside viewport before) (hextends : Extends before after) : Outside viewport after :=
  ⟨hextends.viewport.trans h.1, hextends.contentMaskStack.trans h.2.1,
    hextends.controls.trans h.2.2⟩

omit [DecidableEq Style] in
theorem Outside.modifyDraw {viewport : ContentMask} {window : Window Style}
    (h : Outside viewport window) (ix : ℕ) (f : DeferredDraw Style → DeferredDraw Style) :
    Outside viewport (window.modifyDraw ix f) := h

theorem Outside.visit {viewport : ContentMask} {window : Window Style}
    (h : Outside viewport window) (ix : ℕ) : Outside viewport (prepaintDeferredDraw ix window) := by
  have hvisited := prepaintDeferredDraw_visited ix window
  generalize prepaintDeferredDraw ix window = after at hvisited ⊢
  cases hvisited with
  | settled => exact h
  | rendered => exact (h.of_extends (prepaint_extends _ window)).modifyDraw ix _
  | reused => exact (h.of_extends (Window.reusePrepaint_extends window _)).modifyDraw ix _

end Prepaint

/-! ### Painting -/

/-- What painting leaves as it is. -/
structure Painted (before after : Window Style) : Prop where
  viewport : after.viewport = before.viewport
  nextHitboxId : after.nextHitboxId = before.nextHitboxId
  hitboxes : after.nextFrame.hitboxes = before.nextFrame.hitboxes
  draws : after.nextFrame.deferredDraws = before.nextFrame.deferredDraws

theorem Painted.refl (window : Window Style) : Painted window window := ⟨rfl, rfl, rfl, rfl⟩

theorem Painted.trans {a b c : Window Style} (hab : Painted a b) (hbc : Painted b c) :
    Painted a c where
  viewport := hbc.viewport.trans hab.viewport
  nextHitboxId := hbc.nextHitboxId.trans hab.nextHitboxId
  hitboxes := hbc.hitboxes.trans hab.hitboxes
  draws := hbc.draws.trans hab.draws

theorem Window.takeState_painted (window : Window Style) (key : GlobalElementId) :
    Painted window (window.takeState key).2 := by
  unfold Window.takeState
  split <;> exact ⟨rfl, rfl, rfl, rfl⟩

/-- Painting an element. -/
theorem paint_painted (painting : Painting) (window : Window Style) :
    Painted window (painting.paint window) := by
  induction painting generalizing window with
  | empty => exact .refl window
  | both first second ih ih' => exact (ih window).trans (ih' _)
  | hitbox inserted mouseCursor windowControl =>
    cases mouseCursor <;> cases windowControl <;> exact ⟨rfl, rfl, rfl, rfl⟩
  | rendered globalId child ih =>
    have hchild := ih { (window.takeState globalId).2 with refreshing := true }
    have hpainted : Painted (window.takeState globalId).2
        ((Painting.rendered globalId child).paint window) :=
      ⟨hchild.viewport, hchild.nextHitboxId, hchild.hitboxes, hchild.draws⟩
    exact (window.takeState_painted globalId).trans hpainted
  | reused globalId =>
    refine (window.takeState_painted globalId).trans ?_
    rw [Painting.paint, paintView]
    dsimp only
    split <;> exact ⟨rfl, rfl, rfl, rfl⟩

/-- The deferred draws without the ranges of what they painted. -/
def Window.draws (window : Window Style) : List (DeferredDraw Style) :=
  window.nextFrame.deferredDraws.map fun draw => { draw with paintRange := ({}, {}) }

theorem draws_modifyDraw (window : Window Style) (ix : ℕ) (range : PaintIndex × PaintIndex) :
    (window.modifyDraw ix fun draw => { draw with paintRange := range }).draws = window.draws := by
  rw [Window.draws, Window.draws, modifyDraw_draws]
  apply List.ext_getElem?
  intro jx
  simp only [List.getElem?_map, List.getElem?_modify]
  cases window.nextFrame.deferredDraws[jx]? with
  | none => rfl
  | some draw =>
    by_cases h : ix = jx
    · simp [h]
    · simp [h]

theorem paintDeferredDraw_draws (ix : ℕ) (window : Window Style) :
    (paintDeferredDraw ix window).draws = window.draws ∧
      (paintDeferredDraw ix window).nextFrame.hitboxes = window.nextFrame.hitboxes ∧
      (paintDeferredDraw ix window).nextHitboxId = window.nextHitboxId := by
  have hmodify : ∀ {after : Window Style} (range : PaintIndex × PaintIndex),
      Painted window after →
        (after.modifyDraw ix fun draw => { draw with paintRange := range }).draws = window.draws ∧
        after.nextFrame.hitboxes = window.nextFrame.hitboxes ∧
        after.nextHitboxId = window.nextHitboxId := by
    intro after range hpainted
    refine ⟨?_, hpainted.hitboxes, hpainted.nextHitboxId⟩
    rw [draws_modifyDraw, Window.draws, Window.draws, hpainted.draws]
  unfold paintDeferredDraw
  split
  · exact ⟨rfl, rfl, rfl⟩
  · rename_i draw hdraw
    dsimp only
    split
    · rename_i painting helement
      refine hmodify _ ?_
      cases draw.contentMask with
      | none => exact paint_painted painting window
      | some mask =>
        have hin := paint_painted painting { window with
          contentMaskStack := mask.intersect window.contentMask :: window.contentMaskStack }
        exact ⟨hin.viewport, hin.nextHitboxId, hin.hitboxes, hin.draws⟩
    · exact hmodify _ (.refl window)
    · exact hmodify _ ⟨rfl, rfl, rfl, rfl⟩

theorem foldl_paintDeferredDraw_draws (order : List ℕ) (window : Window Style) :
    (order.foldl (fun window ix => paintDeferredDraw ix window) window).draws = window.draws ∧
      (order.foldl (fun window ix => paintDeferredDraw ix window) window).nextFrame.hitboxes =
        window.nextFrame.hitboxes ∧
      (order.foldl (fun window ix => paintDeferredDraw ix window) window).nextHitboxId =
        window.nextHitboxId := by
  induction order generalizing window with
  | nil => exact ⟨rfl, rfl, rfl⟩
  | cons ix order ih =>
    obtain ⟨hdraws, hhitboxes, hid⟩ := paintDeferredDraw_draws ix window
    obtain ⟨hdraws', hhitboxes', hid'⟩ := ih (paintDeferredDraw ix window)
    exact ⟨hdraws'.trans hdraws, hhitboxes'.trans hhitboxes, hid'.trans hid⟩

/-- A round visits every deferred draw once. -/
theorem traversalOrder_perm (first last : ℕ) (window : Window Style) :
    (traversalOrder first last window).Perm (List.range' first (last - first)) :=
  List.mergeSort_perm _ _

theorem nodup_traversalOrder (first last : ℕ) (window : Window Style) :
    (traversalOrder first last window).Nodup := by
  rw [(traversalOrder_perm first last window).nodup_iff]
  exact List.nodup_range' _

theorem mem_traversalOrder (first last : ℕ) (window : Window Style) (ix : ℕ) :
    ix ∈ traversalOrder first last window ↔ first ≤ ix ∧ ix < last := by
  rw [(traversalOrder_perm first last window).mem_iff, List.mem_range'_1]
  omega

end Drawing

end Zui
