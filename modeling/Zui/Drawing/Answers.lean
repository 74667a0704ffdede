/-
Window controls under the mouse.

The platform asks which window control is under the mouse, and is answered with the first control
whose hitbox is hit.  Where no reused view has a control, and where what was copied is what the
views would have inserted, the answer is that of a frame that renders all views again.

The two frames are drawn in step.  They insert the same boxes in the same order, but not with the
same ids: a copied hitbox has its old one.  The hitbox of a control is new in both of them, and its
two ids occur at the same places.

Main statements:

* `prepaint_alike`, `prepaintDeferredDraw_alike` — an element, and a deferred draw;
* `hitTestWindowControl_eq` — tied controls get the same answers;
* `drawFrame_alike` — a frame answers as the one that renders all views again;
* `window_controls_survive_iff` — the controls are those of rendering again exactly if no view with
  a control is reused, and so are the answers if the reused views are clean;
* `reused_drag_area_lost` — a drag area that is gone in the second frame.
-/
import Zui.Drawing.Controls

namespace Zui

open Gpui

namespace Drawing

open Transact (EntityId Hitbox HitboxBehavior)

variable {Style : Type}

/-! ### Lists in step -/

theorem forall₂_forall {α β : Type} {R : ℕ → α → β → Prop} {xs : List α} {ys : List β}
    (h : ∀ n, List.Forall₂ (R n) xs ys) : List.Forall₂ (fun x y => ∀ n, R n x y) xs ys := by
  induction xs generalizing ys with
  | nil =>
    cases h 0
    exact .nil
  | cons x xs ih =>
    cases h 0 with
    | cons _ _ =>
      exact .cons (fun n => (List.forall₂_cons.mp (h n)).1)
        (ih fun n => (List.forall₂_cons.mp (h n)).2)

theorem forall₂_of_length {α β : Type} {R : α → β → Prop} {xs : List α} {ys : List β}
    (hlength : xs.length = ys.length) (h : ∀ x ∈ xs, ∀ y ∈ ys, R x y) : List.Forall₂ R xs ys := by
  induction xs generalizing ys with
  | nil =>
    rw [List.length_eq_zero_iff.mp hlength.symm]
    exact .nil
  | cons x xs ih =>
    cases ys with
    | nil => exact absurd hlength (by simp)
    | cons y ys =>
      refine .cons (h x List.mem_cons_self y List.mem_cons_self)
        (ih (Nat.succ.inj hlength) ?_)
      exact fun x hx y hy => h x (List.mem_cons_of_mem _ hx) y (List.mem_cons_of_mem _ hy)

theorem forall₂_join {α β γ : Type} {R : α → γ → Prop} {S : β → γ → Prop} {T : α → β → Prop}
    (hT : ∀ x y z, R x z → S y z → T x y) {xs : List α} {ys : List β} {zs : List γ}
    (h : List.Forall₂ R xs zs) (h' : List.Forall₂ S ys zs) : List.Forall₂ T xs ys := by
  induction h generalizing ys with
  | nil =>
    cases h'
    exact .nil
  | cons hx _ ih =>
    cases h' with
    | cons hy hys => exact .cons (hT _ _ _ hx hy) (ih hys)

theorem forall₂_and {α β : Type} {R S : α → β → Prop} {xs : List α} {ys : List β}
    (h : List.Forall₂ R xs ys) (h' : List.Forall₂ S xs ys) :
    List.Forall₂ (fun x y => R x y ∧ S x y) xs ys := by
  induction h with
  | nil => exact .nil
  | cons hxy _ ih =>
    cases h' with
    | cons hxy' h' => exact .cons ⟨hxy, hxy'⟩ (ih h')

theorem forall₂_getElem? {α β : Type} {R : α → β → Prop} {xs : List α} {ys : List β}
    (h : List.Forall₂ R xs ys) {ix : ℕ} {y : β} (hy : ys[ix]? = some y) :
    ∃ x, xs[ix]? = some x ∧ R x y := by
  induction h generalizing ix with
  | nil => exact absurd hy (by simp)
  | cons hxy _ ih =>
    cases ix with
    | zero => exact ⟨_, rfl, Option.some.inj hy ▸ hxy⟩
    | succ ix => exact ih (by simpa using hy)

theorem forall₂_modify {α β : Type} {R : α → β → Prop} {xs : List α} {ys : List β}
    (h : List.Forall₂ R xs ys) {ix : ℕ} {x : α} {y : β} (hx : xs[ix]? = some x)
    (hy : ys[ix]? = some y) {f : α → α} {g : β → β} (hfg : R (f x) (g y)) :
    List.Forall₂ R (xs.modify ix f) (ys.modify ix g) := by
  induction h generalizing ix with
  | nil => exact absurd hx (by simp)
  | cons hxy h ih =>
    cases ix with
    | zero =>
      obtain rfl := Option.some.inj hx
      obtain rfl := Option.some.inj hy
      exact .cons hfg h
    | succ ix => exact .cons hxy (ih (by simpa using hx) (by simpa using hy))

theorem forall₂_flatMap {α β γ : Type} {R : α → β → Prop} {f : γ → List α} {g : γ → List β}
    (h : ∀ item, List.Forall₂ R (f item) (g item)) (items : List γ) :
    List.Forall₂ R (items.flatMap f) (items.flatMap g) := by
  induction items with
  | nil => exact .nil
  | cons item items ih => exact List.rel_append (h item) ih

/-! ### What rendering inserts -/

/-- A hitbox but for its id. -/
abbrev Box : Type := Bounds ℚ × ContentMask × HitboxBehavior

/-- The box of a hitbox. -/
def box (hitbox : Hitbox) : Box := (hitbox.bounds, hitbox.contentMask, hitbox.behavior)

/-- The boxes that an element inserts when all of it is rendered, but for its deferred draws. -/
def Element.boxes : Element Style → ContentMask → List Box
  | empty, _ => []
  | both first second, mask => first.boxes mask ++ second.boxes mask
  | hitbox bounds behavior _ _, mask => [(bounds, mask, behavior)]
  | contentMask scope child, mask =>
    child.boxes (scope.elim mask fun scope => scope.intersect mask)
  | deferred .., _ => []
  | view _ _ _ _ child, mask => child.boxes mask

/-- The deferred draws of an element when all of it is rendered, with their priorities. -/
def Element.deferrals : Element Style → List (ℕ × Element Style)
  | empty => []
  | both first second => first.deferrals ++ second.deferrals
  | hitbox .. => []
  | contentMask _ child => child.deferrals
  | deferred priority _ child => [(priority, child)]
  | view _ _ _ _ child => child.deferrals

/-- A range of the last frame holds what an element inserts when it is rendered, and so do the
ranges of its deferred draws down to a depth. -/
def Frame.Holds (rendered : Frame Style) (viewport : ContentMask) :
    ℕ → Element Style → ContentMask → PrepaintStateIndex × PrepaintStateIndex → Prop
  | 0, _, _, _ => True
  | depth + 1, element, mask, range =>
    (slice range.1.hitboxesIndex range.2.hitboxesIndex rendered.hitboxes).map box =
        element.boxes mask ∧
      List.Forall₂ (fun draw deferral => draw.priority = deferral.1 ∧
          rendered.Holds viewport depth deferral.2 viewport draw.prepaintRange)
        (slice range.1.deferredDrawsIndex range.2.deferredDrawsIndex rendered.deferredDraws)
        element.deferrals

section Clean

variable [DecidableEq Style]

/-- Of every view that is reused while an element is prepainted, the last frame holds what it would
insert. -/
def Element.ReusesClean : Element Style → Window Style → Prop
  | empty, _ => True
  | both first second, window =>
    first.ReusesClean window ∧ second.ReusesClean (first.prepaint window).2
  | hitbox .., _ => True
  | contentMask mask child, window =>
    match mask with
    | some mask => child.ReusesClean
      { window with contentMaskStack := mask.intersect window.contentMask ::
        window.contentMaskStack }
    | none => child.ReusesClean window
  | deferred .., _ => True
  | view globalId entityId bounds textStyle child, window =>
    let (state, window) := window.takeState globalId
    match reusable state entityId bounds textStyle window with
    | some state => ∀ depth, window.renderedFrame.Holds window.viewport depth child
        window.contentMask state.prepaintRange
    | none => child.ReusesClean { window with refreshing := true }

/-- The same while a deferred draw is prepainted. -/
def DrawReusesClean (ix : ℕ) (window : Window Style) : Prop :=
  match window.nextFrame.deferredDraws[ix]? with
  | none => True
  | some draw =>
    match draw.element with
    | some (.requested element) => element.ReusesClean window
    | _ => True

/-- The same while a frame is drawn. -/
def FrameInput.ReusesClean (frame : FrameInput Style) (window : Window Style) : Prop :=
  frame.root.ReusesClean (window.begin frame) ∧
    RoundsMeet (fun window => window.nextFrame.deferredDraws.length) traversalOrder
      prepaintDeferredDraw DrawReusesClean 10 0 (frame.root.prepaint (window.begin frame)).2

end Clean

/-! ### Hitboxes that are tied -/

/-- Two ids that were taken since `base` and are at the same places. -/
structure Tied (base : ℕ) (window rendering : Window Style) (id id' : ℕ) : Prop where
  base_le : base ≤ id
  lt : id < window.nextHitboxId
  lt' : id' < rendering.nextHitboxId
  places : List.Forall₂ (fun hitbox hitbox' => hitbox.id = id ↔ hitbox'.id = id')
    window.nextFrame.hitboxes rendering.nextFrame.hitboxes

/-- Controls of the same areas, for hitboxes that are tied. -/
def ControlsTied (base : ℕ) (window rendering : Window Style)
    (controls controls' : List (WindowControlArea × Hitbox)) : Prop :=
  List.Forall₂ (fun control control' => control.1 = control'.1 ∧
    Tied base window rendering control.2.id control'.2.id) controls controls'

/-- A deferred draw of a frame, and that of the frame that renders all views. -/
def DrawsAlike (base : ℕ) (window rendering : Window Style) (draw draw' : DeferredDraw Style) :
    Prop :=
  draw.priority = draw'.priority ∧
    match draw'.element with
    | some (.requested element) => draw.element = some (.requested element) ∨
        draw.element = none ∧ element.registers window.viewport window.viewport = 0 ∧
          ∀ depth, window.renderedFrame.Holds window.viewport depth element window.viewport
            draw.prepaintRange
    | some (.prepainted painting) =>
      ControlsTied base window rendering (elementControls draw.element) painting.controls
    | none => False

/-- A window that draws a frame, and one that draws it with all views rendered again. -/
structure Alike (base : ℕ) (window rendering : Window Style) : Prop where
  viewport : rendering.viewport = window.viewport
  contentMaskStack : rendering.contentMaskStack = window.contentMaskStack
  refreshing : rendering.refreshing = true
  base_le : base ≤ window.nextHitboxId
  rendered : ∀ hitbox ∈ window.renderedFrame.hitboxes, hitbox.id < base
  ids : ∀ hitbox ∈ window.nextFrame.hitboxes, hitbox.id < window.nextHitboxId
  ids' : ∀ hitbox ∈ rendering.nextFrame.hitboxes, hitbox.id < rendering.nextHitboxId
  boxes : List.Forall₂ (fun hitbox hitbox' => box hitbox = box hitbox')
    window.nextFrame.hitboxes rendering.nextFrame.hitboxes
  draws : List.Forall₂ (DrawsAlike base window rendering) window.nextFrame.deferredDraws
    rendering.nextFrame.deferredDraws

theorem Alike.contentMask {base : ℕ} {window rendering : Window Style}
    (h : Alike base window rendering) : rendering.contentMask = window.contentMask := by
  rw [Window.contentMask, Window.contentMask, h.contentMaskStack, h.viewport]

/-- Both windows insert hitboxes, with ids that tie with none of before. -/
structure Inserts (base : ℕ) (window rendering after after' : Window Style) : Prop where
  viewport : after.viewport = window.viewport
  renderedHitboxes : after.renderedFrame.hitboxes = window.renderedFrame.hitboxes
  renderedDraws : after.renderedFrame.deferredDraws = window.renderedFrame.deferredDraws
  next_le : window.nextHitboxId ≤ after.nextHitboxId
  next_le' : rendering.nextHitboxId ≤ after'.nextHitboxId
  hitboxes : ∃ hitboxes hitboxes' : List Hitbox,
    after.nextFrame.hitboxes = window.nextFrame.hitboxes ++ hitboxes ∧
      after'.nextFrame.hitboxes = rendering.nextFrame.hitboxes ++ hitboxes' ∧
        hitboxes.length = hitboxes'.length ∧
          (∀ hitbox ∈ hitboxes, hitbox.id < base ∨ window.nextHitboxId ≤ hitbox.id) ∧
            ∀ hitbox ∈ hitboxes', rendering.nextHitboxId ≤ hitbox.id

namespace Inserts

variable {base : ℕ} {window rendering after after' : Window Style}

/-- Nothing is inserted. -/
theorem nothing (hviewport : after.viewport = window.viewport)
    (hhitboxes : after.renderedFrame.hitboxes = window.renderedFrame.hitboxes)
    (hdraws : after.renderedFrame.deferredDraws = window.renderedFrame.deferredDraws)
    (hid : after.nextHitboxId = window.nextHitboxId)
    (hid' : after'.nextHitboxId = rendering.nextHitboxId)
    (hsame : after.nextFrame.hitboxes = window.nextFrame.hitboxes)
    (hsame' : after'.nextFrame.hitboxes = rendering.nextFrame.hitboxes) :
    Inserts base window rendering after after' :=
  ⟨hviewport, hhitboxes, hdraws, hid.ge, hid'.ge, [], [], by rw [hsame, List.append_nil],
    by rw [hsame', List.append_nil], rfl, by simp, by simp⟩

theorem trans {last last' : Window Style} (h : Inserts base window rendering after after')
    (h' : Inserts base after after' last last') : Inserts base window rendering last last' where
  viewport := h'.viewport.trans h.viewport
  renderedHitboxes := h'.renderedHitboxes.trans h.renderedHitboxes
  renderedDraws := h'.renderedDraws.trans h.renderedDraws
  next_le := h.next_le.trans h'.next_le
  next_le' := h.next_le'.trans h'.next_le'
  hitboxes := by
    obtain ⟨new, new', hnew, hnew', hlength, hids, hids'⟩ := h.hitboxes
    obtain ⟨more, more', hmore, hmore', hlength', hmoreIds, hmoreIds'⟩ := h'.hitboxes
    refine ⟨new ++ more, new' ++ more', by rw [hmore, hnew, List.append_assoc],
      by rw [hmore', hnew', List.append_assoc],
      by rw [List.length_append, List.length_append, hlength, hlength'], ?_, ?_⟩
    · intro hitbox hmem
      rcases List.mem_append.mp hmem with hmem | hmem
      · exact hids hitbox hmem
      · exact (hmoreIds hitbox hmem).imp_right h.next_le.trans
    · intro hitbox hmem
      rcases List.mem_append.mp hmem with hmem | hmem
      · exact hids' hitbox hmem
      · exact h.next_le'.trans (hmoreIds' hitbox hmem)

/-- Hitboxes that are inserted later have other ids than two that are tied. -/
theorem tied (h : Inserts base window rendering after after') {id id' : ℕ}
    (htied : Tied base window rendering id id') : Tied base after after' id id' := by
  obtain ⟨new, new', hnew, hnew', hlength, hids, hids'⟩ := h.hitboxes
  refine ⟨htied.base_le, htied.lt.trans_le h.next_le, htied.lt'.trans_le h.next_le', ?_⟩
  rw [hnew, hnew']
  refine List.rel_append htied.places (forall₂_of_length hlength ?_)
  intro hitbox hmem hitbox' hmem'
  have hid := hids hitbox hmem
  have hid' := hids' hitbox' hmem'
  have hbase := htied.base_le
  have hlt := htied.lt
  have hlt' := htied.lt'
  constructor
  · rintro rfl
    omega
  · rintro rfl
    omega

theorem controlsTied (h : Inserts base window rendering after after')
    {controls controls' : List (WindowControlArea × Hitbox)}
    (htied : ControlsTied base window rendering controls controls') :
    ControlsTied base after after' controls controls' :=
  htied.imp fun _ _ hcontrol => ⟨hcontrol.1, h.tied hcontrol.2⟩

theorem holds (h : Inserts base window rendering after after') :
    ∀ (depth : ℕ) (element : Element Style) (mask : ContentMask)
      (range : PrepaintStateIndex × PrepaintStateIndex),
      window.renderedFrame.Holds window.viewport depth element mask range →
        after.renderedFrame.Holds after.viewport depth element mask range := by
  intro depth
  induction depth with
  | zero => exact fun _ _ _ _ => trivial
  | succ depth ih =>
    rintro element mask range ⟨hboxes, hdraws⟩
    rw [Frame.Holds, h.renderedHitboxes, h.renderedDraws]
    exact ⟨hboxes, hdraws.imp fun _ _ hdraw =>
      ⟨hdraw.1, h.viewport.symm ▸ ih _ _ _ hdraw.2⟩⟩

theorem drawsAlike (h : Inserts base window rendering after after')
    {draw draw' : DeferredDraw Style} (hdraw : DrawsAlike base window rendering draw draw') :
    DrawsAlike base after after' draw draw' := by
  refine ⟨hdraw.1, ?_⟩
  have helement := hdraw.2
  split at helement
  · refine helement.imp_right ?_
    rintro ⟨hnone, hregisters, hholds⟩
    rw [h.viewport]
    refine ⟨hnone, hregisters, fun depth => ?_⟩
    have hafter := h.holds depth _ _ _ (hholds depth)
    rwa [h.viewport] at hafter
  · exact h.controlsTied helement
  · exact helement

end Inserts

/-- What the relation is about is left as it was. -/
theorem Alike.congr {base : ℕ} {window rendering after after' : Window Style}
    (h : Alike base window rendering) (hinserts : Inserts base window rendering after after')
    (hviewport : after'.viewport = after.viewport)
    (hstack : after'.contentMaskStack = after.contentMaskStack)
    (hrefreshing : after'.refreshing = true)
    (hid : after.nextHitboxId = window.nextHitboxId)
    (hid' : after'.nextHitboxId = rendering.nextHitboxId)
    (hhitboxes : after.nextFrame.hitboxes = window.nextFrame.hitboxes)
    (hhitboxes' : after'.nextFrame.hitboxes = rendering.nextFrame.hitboxes)
    (hdraws : after.nextFrame.deferredDraws = window.nextFrame.deferredDraws)
    (hdraws' : after'.nextFrame.deferredDraws = rendering.nextFrame.deferredDraws) :
    Alike base after after' where
  viewport := hviewport
  contentMaskStack := hstack
  refreshing := hrefreshing
  base_le := hid ▸ h.base_le
  rendered := hinserts.renderedHitboxes ▸ h.rendered
  ids := by rw [hhitboxes, hid]; exact h.ids
  ids' := by rw [hhitboxes', hid']; exact h.ids'
  boxes := by rw [hhitboxes, hhitboxes']; exact h.boxes
  draws := by rw [hdraws, hdraws']; exact h.draws.imp fun _ _ hdraw => hinserts.drawsAlike hdraw

/-! ### Prepainting in step -/

section Prepaint

variable [DecidableEq Style]

/-- What rendering an element adds to a frame. -/
structure Renders (element : Element Style) (before after : Window Style) : Prop where
  hitboxes : ∃ hitboxes : List Hitbox,
    after.nextFrame.hitboxes = before.nextFrame.hitboxes ++ hitboxes ∧
      hitboxes.map box = element.boxes before.contentMask ∧
        ∀ hitbox ∈ hitboxes, before.nextHitboxId ≤ hitbox.id ∧ hitbox.id < after.nextHitboxId
  draws : ∃ draws : List (DeferredDraw Style),
    after.nextFrame.deferredDraws = before.nextFrame.deferredDraws ++ draws ∧
      List.Forall₂ (fun draw deferral => draw.priority = deferral.1 ∧
        draw.element = some (.requested deferral.2)) draws element.deferrals

/-- While the window refreshes, all of an element is rendered. -/
theorem prepaint_renders (element : Element Style) {window : Window Style}
    (h : window.refreshing = true) : Renders element window (element.prepaint window).2 := by
  induction element generalizing window with
  | empty => exact ⟨⟨[],
      by simp [Element.prepaint], rfl, by simp⟩, [], by simp [Element.prepaint], .nil⟩
  | both first second ih ih' =>
    have hextends := prepaint_extends first window
    have hextends' := prepaint_extends second (first.prepaint window).2
    obtain ⟨new, hnew, hboxes, hids⟩ := (ih h).hitboxes
    obtain ⟨draws, hdraws, hrel⟩ := (ih h).draws
    obtain ⟨new', hnew', hboxes', hids'⟩ := (ih' (hextends.refreshing.trans h)).hitboxes
    obtain ⟨draws', hdraws', hrel'⟩ := (ih' (hextends.refreshing.trans h)).draws
    rw [hextends.contentMask] at hboxes'
    refine ⟨⟨new ++ new', ?_, ?_, ?_⟩, draws ++ draws', ?_, List.rel_append hrel hrel'⟩
    · exact hnew'.trans (by rw [hnew, List.append_assoc])
    · rw [List.map_append, hboxes, hboxes']
      rfl
    · intro hitbox hmem
      rcases List.mem_append.mp hmem with hmem | hmem
      · exact ⟨(hids hitbox hmem).1, (hids hitbox hmem).2.trans_le hextends'.nextHitboxId⟩
      · exact ⟨hextends.nextHitboxId.trans (hids' hitbox hmem).1, (hids' hitbox hmem).2⟩
    · exact hdraws'.trans (by rw [hdraws, List.append_assoc])
  | hitbox bounds behavior mouseCursor windowControl =>
    refine ⟨⟨[_], rfl, rfl, ?_⟩, [], (List.append_nil _).symm, .nil⟩
    intro hitbox hmem
    obtain rfl := List.mem_singleton.mp hmem
    exact ⟨le_rfl, Nat.lt_succ_self _⟩
  -- the child is drawn under the intersected mask
  | contentMask mask child ih =>
    cases mask with
    | none => exact ⟨(ih h).hitboxes, (ih h).draws⟩
    | some mask =>
      have hin := @ih { window with
        contentMaskStack := mask.intersect window.contentMask :: window.contentMaskStack } h
      exact ⟨hin.hitboxes, hin.draws⟩
  -- a deferred draw has no hitboxes yet
  | deferred priority mask child =>
    exact ⟨⟨[], (List.append_nil _).symm, rfl, by simp⟩, [_], rfl, .cons ⟨rfl, rfl⟩ .nil⟩
  | view globalId entityId bounds textStyle child ih =>
    -- taking the state of the view touches no list
    have htake := window.takeState_extends globalId
    have hlists : (window.takeState globalId).2.nextFrame.hitboxes = window.nextFrame.hitboxes ∧
        (window.takeState globalId).2.nextFrame.deferredDraws = window.nextFrame.deferredDraws ∧
        (window.takeState globalId).2.nextHitboxId = window.nextHitboxId := by
      unfold Window.takeState
      split <;> exact ⟨rfl, rfl, rfl⟩
    have hin := @ih { (window.takeState globalId).2 with refreshing := true } rfl
    rw [Element.prepaint, prepaintView]
    dsimp only
    -- a window that refreshes reuses no view
    rw [reusable_of_refreshing (htake.refreshing.trans h)]
    obtain ⟨new, hnew, hboxes, hids⟩ := hin.hitboxes
    obtain ⟨draws, hdraws, hrel⟩ := hin.draws
    refine ⟨⟨new, hnew.trans (by rw [hlists.1]), hboxes.trans ?_, ?_⟩, draws,
      hdraws.trans (by rw [hlists.2.1]), hrel⟩
    · exact congrArg child.boxes htake.contentMask
    · intro hitbox hmem
      rw [← hlists.2.2]
      exact hids hitbox hmem

/-- An element that has no window control paints none, and neither do its deferred draws. -/
theorem controls_of_registers {element : Element Style} {window : Window Style}
    {draws : List (DeferredDraw Style)}
    (hnone : element.registers window.viewport window.contentMask = 0)
    (hdraws : (element.prepaint window).2.nextFrame.deferredDraws =
      window.nextFrame.deferredDraws ++ draws) :
    (element.prepaint window).1.controls = [] ∧
      ∀ draw ∈ draws, draw.registers window.viewport = 0 := by
  have hsum := prepaint_registers element window
  have hadded := waiting_append window _ (prepaint_extends element window).viewport hdraws
  rw [hnone, add_zero, hadded] at hsum
  have hzero : (element.prepaint window).1.registers +
      ((draws.map (DeferredDraw.registers window.viewport)).sum +
        element.reusedControls window) = 0 := by
    refine add_left_cancel (a := window.waiting) ?_
    rw [add_zero]
    refine Eq.trans ?_ hsum
    abel
  obtain ⟨hpainting, hrest⟩ := add_eq_zero.mp hzero
  refine ⟨?_, ?_⟩
  · rw [Painting.registers, Multiset.coe_eq_zero] at hpainting
    exact List.map_eq_nil_iff.mp hpainting
  · intro draw hdraw
    exact List.sum_eq_zero_iff.mp (add_eq_zero.mp hrest).1 _ (List.mem_map_of_mem hdraw)

variable {base : ℕ} {window rendering : Window Style}

/-- A range is copied, and what it holds is rendered. -/
theorem reusePrepaint_alike (h : Alike base window rendering) {element : Element Style}
    {range : PrepaintStateIndex × PrepaintStateIndex}
    (hholds : ∀ depth, window.renderedFrame.Holds window.viewport depth element
      window.contentMask range)
    (hnone : element.registers window.viewport window.contentMask = 0) :
    Inserts base window rendering (window.reusePrepaint range) (element.prepaint rendering).2 ∧
      Alike base (window.reusePrepaint range) (element.prepaint rendering).2 ∧
      (element.prepaint rendering).1.controls = [] := by
  have hextends := prepaint_extends element rendering
  obtain ⟨⟨new, hnew, hboxes, hids⟩, draws, hdraws, hrel⟩ := prepaint_renders element h.refreshing
  obtain ⟨hcontrols, hregisters⟩ := controls_of_registers
    (by rw [h.viewport, h.contentMask]; exact hnone) hdraws
  have hcopied : List.Forall₂ (fun hitbox hitbox' => box hitbox = box hitbox')
      (slice range.1.hitboxesIndex range.2.hitboxesIndex window.renderedFrame.hitboxes) new := by
    refine List.forall₂_map_right_iff.mp (List.forall₂_map_left_iff.mp ?_)
    rw [List.forall₂_eq_eq_eq, (hholds 1).1, hboxes, h.contentMask]
  have hold : ∀ hitbox ∈ slice range.1.hitboxesIndex range.2.hitboxesIndex
      window.renderedFrame.hitboxes, hitbox.id < base := fun hitbox hmem =>
    h.rendered hitbox (List.mem_of_mem_take (List.mem_of_mem_drop hmem))
  have hinserts : Inserts base window rendering (window.reusePrepaint range)
      (element.prepaint rendering).2 :=
    ⟨rfl, rfl, rfl, le_rfl, hextends.nextHitboxId, _, new, rfl, hnew, hcopied.length_eq,
      fun hitbox hmem => .inl (hold hitbox hmem), fun hitbox hmem => (hids hitbox hmem).1⟩
  refine ⟨hinserts, ⟨?_, ?_, ?_, h.base_le, h.rendered, ?_, ?_, ?_, ?_⟩, hcontrols⟩
  · exact hextends.viewport.trans h.viewport
  · exact hextends.contentMaskStack.trans h.contentMaskStack
  · exact hextends.refreshing.trans h.refreshing
  · intro hitbox hmem
    rcases List.mem_append.mp hmem with hmem | hmem
    · exact h.ids hitbox hmem
    · exact (hold hitbox hmem).trans_le h.base_le
  · intro hitbox hmem
    rw [hnew] at hmem
    rcases List.mem_append.mp hmem with hmem | hmem
    · exact (h.ids' hitbox hmem).trans_le hextends.nextHitboxId
    · exact (hids hitbox hmem).2
  · rw [hnew]
    exact List.rel_append h.boxes hcopied
  · rw [hdraws]
    refine List.rel_append (h.draws.imp fun _ _ hdraw => hinserts.drawsAlike hdraw) ?_
    refine List.forall₂_map_left_iff.mpr (forall₂_join ?_
      (forall₂_forall fun depth => (hholds (depth + 1)).2)
      ((List.forall₂_and_left _ _).mpr ⟨hregisters, hrel⟩))
    rintro draw draw' deferral hdraw ⟨hzero, hpriority, helement⟩
    refine ⟨(hdraw 0).1.trans hpriority.symm, ?_⟩
    rw [DeferredDraw.registers, helement, h.viewport] at hzero
    rw [helement]
    exact .inr ⟨rfl, hzero, fun depth => (hdraw depth).2⟩

omit [DecidableEq Style] in
theorem Alike.takeState (h : Alike base window rendering) (key : GlobalElementId) :
    Inserts base window rendering (window.takeState key).2 (rendering.takeState key).2 ∧
      Alike base (window.takeState key).2 (rendering.takeState key).2 := by
  have hinserts : Inserts base window rendering (window.takeState key).2
      (rendering.takeState key).2 := by
    unfold Window.takeState
    split <;> split <;> exact .nothing rfl rfl rfl rfl rfl rfl rfl
  refine ⟨hinserts, ?_⟩
  revert hinserts
  unfold Window.takeState
  split <;> split <;> exact fun hinserts =>
    h.congr hinserts h.viewport h.contentMaskStack h.refreshing rfl rfl rfl rfl rfl rfl

/-- An element whose reused views are clean and have no window control. -/
theorem prepaint_alike (element : Element Style) (h : Alike base window rendering)
    (hclean : element.ReusesClean window) (hnone : element.reusedControls window = 0) :
    Inserts base window rendering (element.prepaint window).2 (element.prepaint rendering).2 ∧
      Alike base (element.prepaint window).2 (element.prepaint rendering).2 ∧
      ControlsTied base (element.prepaint window).2 (element.prepaint rendering).2
        (element.prepaint window).1.controls (element.prepaint rendering).1.controls := by
  induction element generalizing window rendering with
  | empty => exact ⟨.nothing rfl rfl rfl rfl rfl rfl rfl, h, .nil⟩
  | both first second ih ih' =>
    obtain ⟨hfirst, hsecond⟩ := add_eq_zero.mp hnone
    obtain ⟨hinserts, halike, htied⟩ := ih h hclean.1 hfirst
    obtain ⟨hinserts', halike', htied'⟩ := ih' halike hclean.2 hsecond
    exact ⟨hinserts.trans hinserts', halike',
      List.rel_append (hinserts'.controlsTied htied) htied'⟩
  | hitbox bounds behavior mouseCursor windowControl =>
    have hinserts : Inserts base window rendering
        ((Element.hitbox bounds behavior mouseCursor windowControl).prepaint window).2
        ((Element.hitbox bounds behavior mouseCursor windowControl).prepaint rendering).2 :=
      ⟨rfl, rfl, rfl, Nat.le_succ _, Nat.le_succ _, [_], [_], rfl, rfl, rfl, by simp, by simp⟩
    have hmask := h.contentMask
    refine ⟨hinserts, ⟨h.viewport, h.contentMaskStack, h.refreshing,
      h.base_le.trans (Nat.le_succ _), h.rendered, ?_, ?_, ?_, ?_⟩, ?_⟩
    · intro hitbox hmem
      rcases List.mem_append.mp hmem with hmem | hmem
      · exact (h.ids hitbox hmem).trans (Nat.lt_succ_self _)
      · rw [List.mem_singleton.mp hmem]
        exact Nat.lt_succ_self _
    · intro hitbox hmem
      rcases List.mem_append.mp hmem with hmem | hmem
      · exact (h.ids' hitbox hmem).trans (Nat.lt_succ_self _)
      · rw [List.mem_singleton.mp hmem]
        exact Nat.lt_succ_self _
    · refine List.rel_append h.boxes (.cons ?_ .nil)
      rw [box, box, hmask]
    · exact h.draws.imp fun _ _ hdraw => hinserts.drawsAlike hdraw
    · -- the ids of the new hitboxes are at no place in front of them
      have htied : Tied base
          ((Element.hitbox bounds behavior mouseCursor windowControl).prepaint window).2
          ((Element.hitbox bounds behavior mouseCursor windowControl).prepaint rendering).2
          window.nextHitboxId rendering.nextHitboxId := by
        refine ⟨h.base_le, Nat.lt_succ_self _, Nat.lt_succ_self _, List.rel_append
          (forall₂_of_length h.boxes.length_eq ?_) (.cons (iff_of_true rfl rfl) .nil)⟩
        intro hitbox hmem hitbox' hmem'
        exact iff_of_false (h.ids hitbox hmem).ne (h.ids' hitbox' hmem').ne
      cases windowControl with
      | none => exact .nil
      | some area => exact .cons ⟨rfl, htied⟩ .nil
  | contentMask mask child ih =>
    cases mask with
    | none => exact ih h hclean hnone
    | some mask =>
      have hpush : Inserts base window rendering
          { window with
            contentMaskStack := mask.intersect window.contentMask :: window.contentMaskStack }
          { rendering with
            contentMaskStack :=
              mask.intersect rendering.contentMask :: rendering.contentMaskStack } :=
        .nothing rfl rfl rfl rfl rfl rfl rfl
      have hin : Alike base
          { window with
            contentMaskStack := mask.intersect window.contentMask :: window.contentMaskStack }
          { rendering with
            contentMaskStack :=
              mask.intersect rendering.contentMask :: rendering.contentMaskStack } :=
        h.congr hpush h.viewport (by rw [h.contentMask, h.contentMaskStack]) h.refreshing
          rfl rfl rfl rfl rfl rfl
      obtain ⟨hinserts, halike, htied⟩ := ih hin hclean hnone
      -- the scope is left in both windows
      have hpop : Inserts base
          (child.prepaint { window with
            contentMaskStack := mask.intersect window.contentMask :: window.contentMaskStack }).2
          (child.prepaint { rendering with
            contentMaskStack :=
              mask.intersect rendering.contentMask :: rendering.contentMaskStack }).2
          ((Element.contentMask (some mask) child).prepaint window).2
          ((Element.contentMask (some mask) child).prepaint rendering).2 :=
        .nothing rfl rfl rfl rfl rfl rfl rfl
      exact ⟨(hpush.trans hinserts).trans hpop,
        halike.congr hpop halike.viewport h.contentMaskStack halike.refreshing
          rfl rfl rfl rfl rfl rfl, hpop.controlsTied htied⟩
  | deferred priority mask child =>
    have hinserts : Inserts base window rendering (window.deferDraw child priority mask)
        (rendering.deferDraw child priority mask) :=
      .nothing rfl rfl rfl rfl rfl rfl rfl
    refine ⟨hinserts, ⟨h.viewport, h.contentMaskStack, h.refreshing, h.base_le, h.rendered, h.ids,
      h.ids', h.boxes, ?_⟩, .nil⟩
    exact List.rel_append (h.draws.imp fun _ _ hdraw => hinserts.drawsAlike hdraw)
      (.cons ⟨rfl, .inl rfl⟩ .nil)
  | view globalId entityId bounds textStyle child ih =>
    obtain ⟨htakes, htaken⟩ := h.takeState globalId
    have hrenders := reusable_of_refreshing htaken.refreshing (rendering.takeState globalId).1
      entityId bounds textStyle
    rw [Element.reusedControls] at hnone
    rw [Element.ReusesClean] at hclean
    simp only [Element.prepaint, prepaintView, hrenders]
    dsimp only at hnone hclean
    -- a window that refreshes renders the view in any case
    have hstart : Inserts base (window.takeState globalId).2 (rendering.takeState globalId).2
        (window.takeState globalId).2
        { (rendering.takeState globalId).2 with refreshing := true } :=
      .nothing rfl rfl rfl rfl rfl rfl rfl
    have hstarted : Alike base (window.takeState globalId).2
        { (rendering.takeState globalId).2 with refreshing := true } :=
      htaken.congr hstart htaken.viewport htaken.contentMaskStack rfl rfl rfl rfl rfl rfl rfl
    cases hreusable : reusable (window.takeState globalId).1 entityId bounds textStyle
        (window.takeState globalId).2 with
    | some state =>
      rw [hreusable] at hnone hclean
      obtain ⟨hinserts, halike, hcontrols⟩ := reusePrepaint_alike hstarted hclean hnone
      refine ⟨(htakes.trans hstart).trans (hinserts.trans (.nothing rfl rfl rfl rfl rfl rfl rfl)),
        halike.congr (.nothing rfl rfl rfl rfl rfl rfl rfl) halike.viewport
          halike.contentMaskStack htaken.refreshing rfl rfl rfl rfl rfl rfl, ?_⟩
      show List.Forall₂ _ [] (child.prepaint _).1.controls
      rw [hcontrols]
      exact .nil
    | none =>
      rw [hreusable] at hnone hclean
      have hboth : Inserts base (window.takeState globalId).2
          { (rendering.takeState globalId).2 with refreshing := true }
          { (window.takeState globalId).2 with refreshing := true }
          { (rendering.takeState globalId).2 with refreshing := true } :=
        .nothing rfl rfl rfl rfl rfl rfl rfl
      obtain ⟨hinserts, halike, htied⟩ := ih
        (hstarted.congr hboth hstarted.viewport hstarted.contentMaskStack rfl rfl rfl rfl rfl rfl
          rfl) hclean hnone
      refine ⟨((htakes.trans hstart).trans hboth).trans
          (hinserts.trans (.nothing rfl rfl rfl rfl rfl rfl rfl)),
        halike.congr (.nothing rfl rfl rfl rfl rfl rfl rfl) halike.viewport
          halike.contentMaskStack htaken.refreshing rfl rfl rfl rfl rfl rfl, ?_⟩
      show List.Forall₂ _ (child.prepaint _).1.controls (child.prepaint _).1.controls
      exact htied.imp fun _ _ hsame =>
        ⟨hsame.1, hsame.2.base_le, hsame.2.lt, hsame.2.lt', hsame.2.places⟩

/-! ### Deferred draws in step -/

omit [DecidableEq Style] in
theorem Alike.modifyDraw (h : Alike base window rendering) {ix : ℕ}
    {draw draw' : DeferredDraw Style} (hdraw : window.nextFrame.deferredDraws[ix]? = some draw)
    (hdraw' : rendering.nextFrame.deferredDraws[ix]? = some draw')
    {f g : DeferredDraw Style → DeferredDraw Style}
    (hfg : DrawsAlike base window rendering (f draw) (g draw')) :
    Alike base (window.modifyDraw ix f) (rendering.modifyDraw ix g) := by
  have hinserts : Inserts base window rendering (window.modifyDraw ix f)
      (rendering.modifyDraw ix g) := .nothing rfl rfl rfl rfl rfl rfl rfl
  exact ⟨h.viewport, h.contentMaskStack, h.refreshing, h.base_le, h.rendered, h.ids, h.ids',
    h.boxes, (forall₂_modify h.draws hdraw hdraw' hfg).imp fun _ _ => hinserts.drawsAlike⟩

/-- A deferred draw waits with its element. -/
def Requested (ix : ℕ) (window : Window Style) : Prop :=
  ∃ draw element, window.nextFrame.deferredDraws[ix]? = some draw ∧
    draw.element = some (.requested element)

/-- A deferred draw whose reused views are clean and have no window control. -/
theorem prepaintDeferredDraw_alike {ix : ℕ} (h : Alike base window rendering)
    (hstack : window.contentMaskStack = []) (hclean : DrawReusesClean ix window)
    (hnone : drawReusedControls ix window = 0) (hrequested : Requested ix rendering) :
    Inserts base window rendering (prepaintDeferredDraw ix window)
        (prepaintDeferredDraw ix rendering) ∧
      Alike base (prepaintDeferredDraw ix window) (prepaintDeferredDraw ix rendering) := by
  obtain ⟨draw', element, hdraw', helement'⟩ := hrequested
  obtain ⟨draw, hdraw, hpriority, halike⟩ := forall₂_getElem? h.draws hdraw'
  have hextends' := prepaint_extends element rendering
  rw [helement'] at halike
  rcases halike with helement | ⟨helement, hregisters, hholds⟩
  · -- both are prepainted
    have hextends := prepaint_extends element window
    simp only [DrawReusesClean, hdraw, helement] at hclean
    simp only [drawReusedControls, hdraw, helement] at hnone
    obtain ⟨hinserts, hafter, htied⟩ := prepaint_alike element h hclean hnone
    simp only [prepaintDeferredDraw, hdraw, hdraw', helement, helement']
    exact ⟨hinserts.trans (.nothing rfl rfl rfl rfl rfl rfl rfl),
      hafter.modifyDraw (hextends.getElem? hdraw) (hextends'.getElem? hdraw')
        ⟨hpriority, htied⟩⟩
  · -- the one of the last frame is copied
    have hmask : window.contentMask = window.viewport := by
      rw [Window.contentMask, hstack]
      rfl
    have hextends := Window.reusePrepaint_extends window draw.prepaintRange
    obtain ⟨hinserts, hafter, hcontrols⟩ := reusePrepaint_alike h
      (fun depth => by rw [hmask]; exact hholds depth) (by rw [hmask]; exact hregisters)
    simp only [prepaintDeferredDraw, hdraw, hdraw', helement, helement']
    refine ⟨hinserts.trans (.nothing rfl rfl rfl rfl rfl rfl rfl),
      hafter.modifyDraw (hextends.getElem? hdraw) (hextends'.getElem? hdraw') ⟨hpriority, ?_⟩⟩
    show List.Forall₂ _ (elementControls draw.element) (element.prepaint rendering).1.controls
    rw [helement, hcontrols]
    exact .nil

omit [DecidableEq Style] in
theorem Alike.traversalOrder_eq (h : Alike base window rendering) (first last : ℕ) :
    traversalOrder first last window = traversalOrder first last rendering := by
  have hpriorities : window.nextFrame.deferredDraws.map DeferredDraw.priority =
      rendering.nextFrame.deferredDraws.map DeferredDraw.priority := by
    rw [← List.forall₂_eq_eq_eq]
    exact List.forall₂_map_right_iff.mpr (List.forall₂_map_left_iff.mpr
      (h.draws.imp fun _ _ hdraw => hdraw.1))
  simp only [traversalOrder, ← List.getElem?_map, hpriorities]

/-- The deferred draws that a window that refreshes adds wait with their elements. -/
theorem requested_added {ix : ℕ} (hrefreshing : rendering.refreshing = true)
    (hrequested : Requested ix rendering) {jx : ℕ}
    (hle : rendering.nextFrame.deferredDraws.length ≤ jx)
    (hlt : jx < (prepaintDeferredDraw ix rendering).nextFrame.deferredDraws.length) :
    Requested jx (prepaintDeferredDraw ix rendering) := by
  obtain ⟨draw, element, hdraw, helement⟩ := hrequested
  obtain ⟨draws, hdraws, hrel⟩ := (prepaint_renders element hrefreshing).draws
  have hix : ix < rendering.nextFrame.deferredDraws.length :=
    (List.getElem?_eq_some_iff.mp hdraw).1
  simp only [prepaintDeferredDraw, hdraw, helement, modifyDraw_draws, List.length_modify,
    hdraws, List.length_append] at hlt
  have hnew : jx - rendering.nextFrame.deferredDraws.length < draws.length := by omega
  obtain ⟨deferral, -, -, hnewElement⟩ := forall₂_getElem? hrel.flip
    (List.getElem?_eq_getElem hnew)
  refine ⟨_, deferral.2, ?_, hnewElement⟩
  simp only [prepaintDeferredDraw, hdraw, helement, modifyDraw_draws]
  rw [List.getElem?_modify_ne _ _ (by omega), hdraws, List.getElem?_append_right hle]
  exact List.getElem?_eq_getElem hnew

/-- The visits to the deferred draws keep the windows in step. -/
theorem lockstep (base : ℕ) (viewport : ContentMask) (first first' : Window Style) :
    Lockstep (fun window : Window Style => window.nextFrame.deferredDraws.length) traversalOrder
      prepaintDeferredDraw
      (fun window rendering => Alike base window rendering ∧ Outside viewport window ∧
        Inserts base first first' window rendering)
      (fun ix window => DrawReusesClean ix window ∧ drawReusedControls ix window = 0)
      Requested where
  len_eq := fun _ _ h => h.1.draws.length_eq
  order_eq := fun _ _ h first last => h.1.traversalOrder_eq first last
  len_le := length_prepaintDeferredDraw
  keep := by
    rintro ix window rendering ⟨halike, houtside, hinserts⟩ - ⟨hclean, hnone⟩ hrequested
    obtain ⟨hinserts', hafter⟩ :=
      prepaintDeferredDraw_alike halike houtside.2.1 hclean hnone hrequested
    exact ⟨hafter, houtside.visit ix, hinserts.trans hinserts'⟩
  added := fun _ _ _ h hrequested _ hle hlt => requested_added h.1.refreshing hrequested hle hlt
  fresh := by
    rintro ix window jx hne ⟨draw, element, hdraw, helement⟩
    exact ⟨draw, element, getElem?_prepaintDeferredDraw hne.symm hdraw, helement⟩

end Prepaint

/-! ### Hit tests -/

theorem mem_hitTestFrom_iff {position : Point ℚ} {id id' : ℕ} {hitboxes hitboxes' : List Hitbox}
    (h : List.Forall₂ (fun hitbox hitbox' =>
      box hitbox = box hitbox' ∧ (hitbox.id = id ↔ hitbox'.id = id')) hitboxes hitboxes')
    {ids ids' : List ℕ} {hover hover' : Option ℕ} (hids : id ∈ ids ↔ id' ∈ ids') :
    id ∈ (Frame.hitTestFrom position hitboxes ids hover).1 ↔
      id' ∈ (Frame.hitTestFrom position hitboxes' ids' hover').1 := by
  induction h generalizing ids ids' hover hover' with
  | nil => exact hids
  | @cons hitbox hitbox' hitboxes hitboxes' hhitbox _ ih =>
    obtain ⟨hbox, hid⟩ := hhitbox
    obtain ⟨hbounds, hmask, hbehavior⟩ : hitbox.bounds = hitbox'.bounds ∧
        hitbox.contentMask = hitbox'.contentMask ∧ hitbox.behavior = hitbox'.behavior := by
      simpa [box] using hbox
    have hids' : id ∈ ids ++ [hitbox.id] ↔ id' ∈ ids' ++ [hitbox'.id] := by
      rw [List.mem_append, List.mem_append, List.mem_singleton, List.mem_singleton, hids,
        eq_comm, hid, eq_comm]
    simp only [Frame.hitTestFrom, hbounds, hmask, hbehavior]
    split
    · split
      · exact hids'
      · exact ih hids'
    · exact ih hids

/-- Frames with the same boxes and controls at the same places give the same answers. -/
theorem hitTestWindowControl_eq {frame frame' : Frame Style}
    (hboxes : List.Forall₂ (fun hitbox hitbox' => box hitbox = box hitbox') frame.hitboxes
      frame'.hitboxes)
    (hcontrols : List.Forall₂ (fun control control' => control.1 = control'.1 ∧
      List.Forall₂ (fun hitbox hitbox' => hitbox.id = control.2.id ↔ hitbox'.id = control'.2.id)
        frame.hitboxes frame'.hitboxes) frame.windowControlHitboxes frame'.windowControlHitboxes)
    (position : Point ℚ) :
    frame.hitTestWindowControl position = frame'.hitTestWindowControl position := by
  rw [Frame.hitTestWindowControl, Frame.hitTestWindowControl]
  generalize frame.windowControlHitboxes = controls at hcontrols ⊢
  generalize frame'.windowControlHitboxes = controls' at hcontrols ⊢
  induction hcontrols with
  | nil => rfl
  | @cons control control' _ _ hcontrol _ ih =>
    obtain ⟨harea, hplaces⟩ := hcontrol
    have hhit : (frame.hitTest position).1.contains control.2.id =
        (frame'.hitTest position).1.contains control'.2.id := by
      rw [Bool.eq_iff_iff, List.contains_iff_mem, List.contains_iff_mem]
      exact mem_hitTestFrom_iff (List.rel_reverse (forall₂_and hboxes hplaces)) (by simp)
    rw [List.find?_cons, List.find?_cons, hhit]
    split
    · exact congrArg some harea
    · exact ih

/-! ### Frames in step -/

section Frames

variable [DecidableEq Style] {base : ℕ} {window rendering : Window Style}

omit [DecidableEq Style] in
theorem Alike.elementControls_tied (h : Alike base window rendering)
    (hsettled : ∀ ix < rendering.nextFrame.deferredDraws.length, Settled ix rendering) (ix : ℕ) :
    ControlsTied base window rendering
      (window.draws[ix]?.elim [] fun draw => elementControls draw.element)
      (rendering.draws[ix]?.elim [] fun draw => elementControls draw.element) := by
  rw [Window.draws, Window.draws, List.getElem?_map, List.getElem?_map]
  cases hdraw' : rendering.nextFrame.deferredDraws[ix]? with
  | none =>
    have hlength := h.draws.length_eq
    rw [List.getElem?_eq_none_iff] at hdraw'
    rw [List.getElem?_eq_none (hlength.trans_le hdraw')]
    exact .nil
  | some draw' =>
    obtain ⟨draw, hdraw, -, halike⟩ := forall₂_getElem? h.draws hdraw'
    obtain ⟨other, hother, helement⟩ := hsettled ix (List.getElem?_eq_some_iff.mp hdraw').1
    obtain rfl : draw' = other := Option.some.inj (hdraw'.symm.trans hother)
    rw [hdraw]
    split at halike
    · rename_i element heq
      exact absurd heq (helement element)
    · rename_i painting heq
      show ControlsTied base window rendering (elementControls draw.element)
        (elementControls draw'.element)
      rw [heq]
      exact halike
    · exact halike.elim

omit [DecidableEq Style] in
/-- Painting the root and the deferred draws registers tied controls in both windows. -/
theorem Alike.controls_tied (h : Alike base window rendering) {root root' : Painting}
    (hroot : ControlsTied base window rendering root.controls root'.controls)
    (hempty : window.nextFrame.windowControlHitboxes = [])
    (hempty' : rendering.nextFrame.windowControlHitboxes = [])
    (hsettled : ∀ ix < rendering.nextFrame.deferredDraws.length, Settled ix rendering) :
    ControlsTied base window rendering
      (paintDeferredDraws (root.paint window)).nextFrame.windowControlHitboxes
      (paintDeferredDraws (root'.paint rendering)).nextFrame.windowControlHitboxes := by
  have hpainted := paint_painted root window
  have hpainted' := paint_painted root' rendering
  have horder : traversalOrder 0 (root.paint window).nextFrame.deferredDraws.length
      (root.paint window) = traversalOrder 0
        (root'.paint rendering).nextFrame.deferredDraws.length (root'.paint rendering) := by
    have heq := h.traversalOrder_eq 0 window.nextFrame.deferredDraws.length
    rw [traversalOrder, traversalOrder] at heq ⊢
    rw [hpainted.draws, hpainted'.draws, heq, h.draws.length_eq]
  rw [paintDeferredDraws, paintDeferredDraws, foldl_paintDeferredDraw_controls,
    foldl_paintDeferredDraw_controls, paint_controls, paint_controls, hempty, hempty', horder,
    Window.draws, Window.draws, hpainted.draws, hpainted'.draws]
  exact List.rel_append hroot (forall₂_flatMap (h.elementControls_tied hsettled) _)

/-- A frame of which the reused views are clean and have no window control answers as the frame
that renders all views again. -/
theorem drawFrame_alike {frame : FrameInput Style} {window after : Window Style}
    (hnew : window.nextFrame = .new)
    (hids : ∀ hitbox ∈ window.renderedFrame.hitboxes, hitbox.id < window.nextHitboxId)
    (hclean : frame.ReusesClean window) (hnone : frame.reusedControls window = 0)
    (h : drawFrame frame window = some after) :
    (∃ rendered, drawFrame { frame with refreshing := true } window = some rendered ∧
      ∀ position, after.renderedFrame.hitTestWindowControl position =
        rendered.renderedFrame.hitTestWindowControl position) ∧
      after.nextFrame = .new ∧
      ∀ hitbox ∈ after.renderedFrame.hitboxes, hitbox.id < after.nextHitboxId := by
  obtain ⟨settled, hrounds, rfl⟩ := Option.map_eq_some_iff.mp h
  obtain ⟨hrootNone, hdrawsNone⟩ := add_eq_zero.mp hnone
  have hbegin : Alike window.nextHitboxId (window.begin frame)
      (window.begin { frame with refreshing := true }) := by
    have hnil : window.nextFrame.hitboxes = [] ∧ window.nextFrame.deferredDraws = [] := by
      rw [hnew]
      exact ⟨rfl, rfl⟩
    refine ⟨rfl, rfl, rfl, le_rfl, hids, ?_, ?_, ?_, ?_⟩ <;> simp [Window.begin, hnil.1, hnil.2]
  have hempty : window.nextFrame.windowControlHitboxes = [] := by
    rw [hnew]
    rfl
  obtain ⟨-, hprepainted, htied⟩ := prepaint_alike frame.root hbegin hclean.1 hrootNone
  have hstart : ∀ frame : FrameInput Style, Outside frame.viewport (window.begin frame) :=
    fun _ => ⟨rfl, rfl, hempty⟩
  have houtside : Outside frame.viewport (frame.root.prepaint (window.begin frame)).2 :=
    (hstart frame).of_extends (prepaint_extends _ _)
  have houtside' : Outside frame.viewport
      (frame.root.prepaint (window.begin { frame with refreshing := true })).2 :=
    (hstart { frame with refreshing := true }).of_extends (prepaint_extends _ _)
  -- all deferred draws of the root wait with their elements
  have hrequested : ∀ ix, 0 ≤ ix → ix < (frame.root.prepaint
      (window.begin { frame with refreshing := true })).2.nextFrame.deferredDraws.length →
        Requested ix (frame.root.prepaint (window.begin { frame with refreshing := true })).2 := by
    rintro ix - hix
    obtain ⟨draws, hdraws, hrel⟩ := (prepaint_renders frame.root hbegin.refreshing).draws
    have hnil : (window.begin { frame with refreshing := true }).nextFrame.deferredDraws = [] := by
      rw [Window.begin, hnew]
      rfl
    rw [hnil, List.nil_append] at hdraws
    rw [hdraws] at hix
    obtain ⟨deferral, -, -, helement⟩ := forall₂_getElem? hrel.flip (List.getElem?_eq_getElem hix)
    exact ⟨_, deferral.2, by rw [hdraws]; exact List.getElem?_eq_getElem hix, helement⟩
  obtain ⟨settled', hrounds', halike, -, hinserts⟩ := (lockstep window.nextHitboxId frame.viewport
    _ _).rounds nodup_traversalOrder mem_traversalOrder
      ⟨hprepainted, houtside, .nothing rfl rfl rfl rfl rfl rfl rfl⟩ hrequested
      (hclean.2.and (roundsMeet_of_sum_eq_zero hdrawsNone)) hrounds
  obtain ⟨houtsideAfter, -, -⟩ := (settling frame.viewport).rounds nodup_traversalOrder
    mem_traversalOrder houtside (Nat.zero_le _) (fun ix hix => absurd hix (Nat.not_lt_zero ix))
    (fun _ _ _ => trivial) hrounds
  obtain ⟨houtsideAfter', hsettled, -⟩ := (settling frame.viewport).rounds nodup_traversalOrder
    mem_traversalOrder houtside' (Nat.zero_le _) (fun ix hix => absurd hix (Nat.not_lt_zero ix))
    (fun _ _ _ => trivial) hrounds'
  have hcontrols := halike.controls_tied (hinserts.controlsTied htied) houtsideAfter.2.2
    houtsideAfter'.2.2 hsettled
  -- painting inserts no hitboxes
  have hkept : ∀ (root : Painting) (window : Window Style),
      (paintDeferredDraws (root.paint window)).nextFrame.hitboxes = window.nextFrame.hitboxes ∧
        (paintDeferredDraws (root.paint window)).nextHitboxId = window.nextHitboxId := by
    intro root window
    have hpainted := paint_painted root window
    obtain ⟨-, hhitboxes, hid⟩ := foldl_paintDeferredDraw_draws
      (traversalOrder 0 (root.paint window).nextFrame.deferredDraws.length (root.paint window))
      (root.paint window)
    exact ⟨hhitboxes.trans hpainted.hitboxes, hid.trans hpainted.nextHitboxId⟩
  refine ⟨⟨_, Option.map_eq_some_iff.mpr ⟨settled', hrounds', rfl⟩, ?_⟩, rfl, ?_⟩
  · refine hitTestWindowControl_eq ?_ ?_
    · show List.Forall₂ _ (paintDeferredDraws _).nextFrame.hitboxes
        (paintDeferredDraws _).nextFrame.hitboxes
      rw [(hkept _ settled).1, (hkept _ settled').1]
      exact halike.boxes
    · refine hcontrols.imp ?_
      rintro control control' ⟨harea, hids⟩
      refine ⟨harea, ?_⟩
      show List.Forall₂ _ (paintDeferredDraws _).nextFrame.hitboxes
        (paintDeferredDraws _).nextFrame.hitboxes
      rw [(hkept _ settled).1, (hkept _ settled').1]
      exact hids.places
  · show ∀ hitbox ∈ (paintDeferredDraws _).nextFrame.hitboxes,
      hitbox.id < (paintDeferredDraws _).nextHitboxId
    rw [(hkept _ settled).1, (hkept _ settled).2]
    exact halike.ids

/-! ### Runs -/

/-- In every frame the registered controls are those of rendering all views again. -/
def RegistersAll : Window Style → List (FrameInput Style) → Prop
  | _, [] => True
  | window, frame :: frames => ∀ after, drawFrame frame window = some after →
      after.renderedFrame.registers = frame.registers ∧ RegistersAll after frames

/-- In every frame the registered controls are those of rendering all views again, and so are the
answers to the platform. -/
def SurvivesCaching : Window Style → List (FrameInput Style) → Prop
  | _, [] => True
  | window, frame :: frames => ∀ after, drawFrame frame window = some after →
      after.renderedFrame.registers = frame.registers ∧
        (∃ rendered, drawFrame { frame with refreshing := true } window = some rendered ∧
          ∀ position, after.renderedFrame.hitTestWindowControl position =
            rendered.renderedFrame.hitTestWindowControl position) ∧
        SurvivesCaching after frames

/-- In no frame a view is reused that has a window control, itself or in a deferred draw. -/
def ReusesNoControl : Window Style → List (FrameInput Style) → Prop
  | _, [] => True
  | window, frame :: frames => ∀ after, drawFrame frame window = some after →
      frame.reusedControls window = 0 ∧ ReusesNoControl after frames

/-- In every frame the views that are reused are clean. -/
def ReusesOnlyClean : Window Style → List (FrameInput Style) → Prop
  | _, [] => True
  | window, frame :: frames => ∀ after, drawFrame frame window = some after →
      frame.ReusesClean window ∧ ReusesOnlyClean after frames

theorem nextFrame_drawFrame {frame : FrameInput Style} {window after : Window Style}
    (h : drawFrame frame window = some after) : after.nextFrame = .new := by
  obtain ⟨settled, -, rfl⟩ := Option.map_eq_some_iff.mp h
  rfl

theorem registersAll_iff (frames : List (FrameInput Style)) {window : Window Style}
    (hnew : window.nextFrame = .new) :
    RegistersAll window frames ↔ ReusesNoControl window frames := by
  induction frames generalizing window with
  | nil => exact Iff.rfl
  | cons frame frames ih =>
    refine forall_congr' fun after => forall_congr' fun h => ?_
    have hsum := registers_add_reusedControls hnew h
    refine and_congr ?_ (ih (nextFrame_drawFrame h))
    rw [← hsum]
    exact left_eq_add

theorem survivesCaching_of_clean (frames : List (FrameInput Style)) {window : Window Style}
    (hnew : window.nextFrame = .new)
    (hids : ∀ hitbox ∈ window.renderedFrame.hitboxes, hitbox.id < window.nextHitboxId)
    (hcontrols : ReusesNoControl window frames) (hclean : ReusesOnlyClean window frames) :
    SurvivesCaching window frames := by
  induction frames generalizing window with
  | nil => trivial
  | cons frame frames ih =>
    intro after h
    obtain ⟨hnone, hcontrols⟩ := hcontrols after h
    obtain ⟨hframe, hclean⟩ := hclean after h
    obtain ⟨hanswers, hafter, hids'⟩ := drawFrame_alike hnew hids hframe hnone h
    have hsum := registers_add_reusedControls hnew h
    rw [hnone, add_zero] at hsum
    exact ⟨hsum, hanswers, ih hafter hids' hcontrols hclean⟩

/-- A frame that renders all views again registers all window controls.  In a run, the registered
controls are those of rendering all views again in every frame exactly if no view with a window
control is reused; and if moreover the views that are reused are clean, the platform gets the
answers of rendering all views again in every frame and at every position. -/
theorem window_controls_survive_iff :
    (∀ (frame : FrameInput Style) (window after : Window Style), window.nextFrame = .new →
      drawFrame { frame with refreshing := true } window = some after →
        after.renderedFrame.registers = frame.registers) ∧
    (∀ frames : List (FrameInput Style),
      RegistersAll .new frames ↔ ReusesNoControl .new frames) ∧
    ∀ frames : List (FrameInput Style), ReusesNoControl .new frames →
      ReusesOnlyClean .new frames → SurvivesCaching .new frames := by
  refine ⟨?_, ?_, ?_⟩
  · intro frame window after hnew h
    have hsum := registers_add_reusedControls hnew h
    rwa [reusedControls_refreshing, add_zero] at hsum
  · exact fun frames => registersAll_iff frames rfl
  · exact fun frames => survivesCaching_of_clean frames rfl
      (fun _ hmem => absurd hmem List.not_mem_nil)

end Frames

/-- A cached view that fills its window, and a drag area in front of it. -/
def barFrame : FrameInput Unit where
  viewport := ⟨⟨⟨0, 0⟩, ⟨100, 100⟩⟩⟩
  root := .both
    (.view 1 1 ⟨⟨0, 0⟩, ⟨100, 100⟩⟩ () (.hitbox ⟨⟨0, 0⟩, ⟨100, 100⟩⟩ .normal none none))
    (.hitbox ⟨⟨0, 0⟩, ⟨100, 10⟩⟩ .normal none (some .drag))
  dirtyViews := []
  refreshing := false

/-- The view is reused in the second frame, with its old hitbox, and the drag area is still
there. -/
theorem window_controls_survive_beside :
    SurvivesCaching .new [barFrame, barFrame] ∧
      (lastFrame [barFrame, barFrame]).map (fun frame => frame.hitboxes.map Hitbox.id) =
        some [0, 2] ∧
      (lastFrame [barFrame, barFrame]).bind (Frame.hitTestWindowControl ⟨50, 5⟩) = some .drag := by
  -- what the first frame leaves for the second
  have hnone : barFrame.reusedControls .new = 0 ∧
      (drawFrame barFrame .new).map (fun after => barFrame.reusedControls after) = some 0 := by
    decide +kernel
  have hleft : (drawFrame barFrame .new).map (fun after =>
      ((after.renderedFrame.elementStates 1).map fun state =>
        (state.prepaintRange.1.hitboxesIndex, state.prepaintRange.2.hitboxesIndex,
          state.prepaintRange.1.deferredDrawsIndex, state.prepaintRange.2.deferredDrawsIndex),
        after.renderedFrame.hitboxes)) = some (some (0, 1, 0, 0), [
          ⟨0, ⟨⟨0, 0⟩, ⟨100, 100⟩⟩, barFrame.viewport, .normal⟩,
          ⟨1, ⟨⟨0, 0⟩, ⟨100, 10⟩⟩, barFrame.viewport, .normal⟩]) := by
    decide +kernel
  have hdraws : ((barFrame.root.prepaint
    (Window.new.begin barFrame)).2.nextFrame.deferredDraws.length,
      (drawFrame barFrame .new).map fun after =>
        (barFrame.root.prepaint (after.begin barFrame)).2.nextFrame.deferredDraws.length) =
          (0, some 0) := by
    decide +kernel
  refine ⟨window_controls_survive_iff.2.2 _ ?_ ?_, by decide +kernel, by decide +kernel⟩
  · intro after h
    rw [h] at hnone
    exact ⟨hnone.1, fun _ _ => ⟨Option.some.inj hnone.2, trivial⟩⟩
  · have hmeet : ∀ window : Window Unit, window.nextFrame.deferredDraws.length = 0 →
        RoundsMeet (fun window => window.nextFrame.deferredDraws.length) traversalOrder
          prepaintDeferredDraw DrawReusesClean 10 0 window := by
      intro window hzero
      rw [RoundsMeet, if_pos hzero.symm]
      trivial
    intro after h
    rw [h] at hleft hdraws
    obtain ⟨hrange, hhitboxes⟩ := Prod.mk.inj (Option.some.inj hleft)
    obtain ⟨hzero, hzero'⟩ := Prod.mk.inj hdraws
    have hnew := nextFrame_drawFrame h
    refine ⟨⟨⟨trivial, trivial⟩, hmeet _ hzero⟩, fun last _ =>
      ⟨⟨⟨?_, trivial⟩, hmeet _ (Option.some.inj hzero')⟩, trivial⟩⟩
    rw [Element.ReusesClean]
    have htake : ((after.begin barFrame).takeState 1).1 = after.renderedFrame.elementStates 1 ∧
        ((after.begin barFrame).takeState 1).2.renderedFrame.hitboxes =
          after.renderedFrame.hitboxes := by
      unfold Window.takeState Window.begin
      simp only [hnew]
      exact ⟨rfl, rfl⟩
    dsimp only
    split
    · rename_i state hstate
      have hsome := (Option.filter_eq_some_iff.mp hstate).1
      rw [htake.1] at hsome
      rw [hsome] at hrange
      simp only [Option.map_some, Option.some.injEq, Prod.mk.injEq] at hrange
      obtain ⟨hfirst, hlast, hdraw, hdraw'⟩ := hrange
      intro depth
      cases depth with
      | zero => trivial
      | succ depth =>
        rw [Frame.Holds, htake.2, hhitboxes, hfirst, hlast, hdraw, hdraw']
        have hmask : ((after.begin barFrame).takeState 1).2.contentMask = barFrame.viewport :=
          ((after.begin barFrame).takeState_extends 1).contentMask
        rw [hmask]
        exact ⟨rfl, .nil⟩
    · trivial

/-- A window of 100 by 100 pixels with a cached view, of which all is a drag area. -/
def dragFrame : FrameInput Unit where
  viewport := ⟨⟨⟨0, 0⟩, ⟨100, 100⟩⟩⟩
  root := .view 1 1 ⟨⟨0, 0⟩, ⟨100, 100⟩⟩ () (.hitbox ⟨⟨0, 0⟩, ⟨100, 100⟩⟩ .normal none (some .drag))
  dirtyViews := []
  refreshing := false

/-- The view is reused in the second frame: its hitbox is still there, its drag area is not. -/
theorem reused_drag_area_lost :
    ¬ SurvivesCaching .new [dragFrame, dragFrame] ∧
      (lastFrame [dragFrame]).bind (Frame.hitTestWindowControl ⟨50, 50⟩) = some .drag ∧
      (lastFrame [dragFrame, dragFrame]).map (Frame.hitTest ⟨50, 50⟩) = some ([0], 1) ∧
      (lastFrame [dragFrame, dragFrame]).bind (Frame.hitTestWindowControl ⟨50, 50⟩) = none := by
  refine ⟨?_, by decide +kernel, by decide +kernel, by decide +kernel⟩
  intro hsurvives
  have hlast : (lastFrame [dragFrame, dragFrame]).map Frame.windowControlHitboxes = some [] := by
    decide +kernel
  simp only [lastFrame, List.foldlM_cons, List.foldlM_nil, Option.map_eq_some_iff] at hlast
  obtain ⟨frame, ⟨window, hrun, rfl⟩, hnone⟩ := hlast
  obtain ⟨first, hfirst, hrest⟩ := Option.bind_eq_some_iff.mp hrun
  obtain ⟨second, hsecond, hwindow⟩ := Option.bind_eq_some_iff.mp hrest
  obtain rfl : second = window := Option.some.inj hwindow
  have hsame : second.renderedFrame.registers = dragFrame.registers :=
    ((hsurvives first hfirst).2.2 second hsecond).1
  rw [Frame.registers, hnone] at hsame
  exact absurd (congrArg Multiset.card hsame) (by decide)

end Drawing

end Zui
