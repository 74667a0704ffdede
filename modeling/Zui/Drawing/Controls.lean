/-
Window controls and cached views.

A frame starts without window controls, and an element registers its own when it is painted.  The
indices of a cached view do not count them and nothing copies them, so that the controls of a view
that is reused are missing.

Every control of the frame, as it would be rendered, is either registered or one of a view that is
reused; the proof counts them while deferred draws go from waiting to painted.

Main statements:

* `prepaint_registers` — each control of an element is painted, waits or is left out;
* `registers_add_reusedControls` — what a frame registers, and what its reused views leave out.
-/
import Zui.Drawing.Phases

namespace Zui

open Gpui

namespace Drawing

open Transact (EntityId Hitbox HitboxBehavior)

variable {Style : Type}

/-- A window control with its hitbox, but for the id. -/
abbrev Registered : Type := WindowControlArea × Bounds ℚ × ContentMask × HitboxBehavior

/-- A window control without the id of its hitbox. -/
def registered (control : WindowControlArea × Hitbox) : Registered :=
  (control.1, control.2.bounds, control.2.contentMask, control.2.behavior)

/-! ### What would be registered -/

/-- What an element registers when all of it is rendered, with its deferred draws. -/
def Element.registers (viewport : ContentMask) : Element Style → ContentMask → Multiset Registered
  | empty, _ => 0
  | both first second, mask => first.registers viewport mask + second.registers viewport mask
  | hitbox bounds behavior _ windowControl, mask =>
    match windowControl with
    | some area => {(area, bounds, mask, behavior)}
    | none => 0
  | contentMask scope child, mask =>
    child.registers viewport (scope.elim mask fun scope => scope.intersect mask)
  | deferred _ _ child, _ => child.registers viewport viewport
  | view _ _ _ _ child, mask => child.registers viewport mask

/-- The window controls of what is painted, in order. -/
def Painting.controls : Painting → List (WindowControlArea × Hitbox)
  | empty => []
  | both first second => first.controls ++ second.controls
  | hitbox inserted _ windowControl =>
    match windowControl with
    | some area => [(area, inserted)]
    | none => []
  | rendered _ child => child.controls
  | reused _ => []

/-- What is registered when it is painted. -/
def Painting.registers (painting : Painting) : Multiset Registered :=
  (painting.controls.map registered : List Registered)

/-- What a deferred draw has still to register. -/
def DeferredDraw.registers (viewport : ContentMask) (draw : DeferredDraw Style) :
    Multiset Registered :=
  match draw.element with
  | some (.requested element) => element.registers viewport viewport
  | some (.prepainted painting) => painting.registers
  | none => 0

/-- What the deferred draws have still to register. -/
def Window.waiting (window : Window Style) : Multiset Registered :=
  (window.nextFrame.deferredDraws.map (DeferredDraw.registers window.viewport)).sum

/-- What a frame has registered. -/
def Frame.registers (frame : Frame Style) : Multiset Registered :=
  (frame.windowControlHitboxes.map registered : List Registered)

theorem waiting_append (before after : Window Style) {draws : List (DeferredDraw Style)}
    (hviewport : after.viewport = before.viewport)
    (hdraws : after.nextFrame.deferredDraws = before.nextFrame.deferredDraws ++ draws) :
    after.waiting =
      before.waiting + (draws.map (DeferredDraw.registers before.viewport)).sum := by
  rw [Window.waiting, Window.waiting, hviewport, hdraws, List.map_append, List.sum_append]

theorem waiting_congr {before after : Window Style}
    (hviewport : after.viewport = before.viewport)
    (hdraws : after.nextFrame.deferredDraws = before.nextFrame.deferredDraws) :
    after.waiting = before.waiting := by
  rw [Window.waiting, Window.waiting, hviewport, hdraws]

theorem waiting_takeState (key : GlobalElementId) (window : Window Style) :
    (window.takeState key).2.waiting = window.waiting := by
  unfold Window.takeState
  split <;> rfl

theorem waiting_reusePrepaint (range : PrepaintStateIndex × PrepaintStateIndex)
    (window : Window Style) : (window.reusePrepaint range).waiting = window.waiting := by
  refine (waiting_append window (window.reusePrepaint range) rfl rfl).trans ?_
  rw [List.map_map]
  have hzero : DeferredDraw.registers window.viewport ∘
      (fun draw : DeferredDraw Style => ({ draw with element := none } : DeferredDraw Style)) =
        fun _ => 0 := rfl
  rw [hzero, List.map_const', List.sum_replicate, smul_zero, add_zero]

/-! ### What reused views leave out -/

section Reused

variable [DecidableEq Style]

/-- What the views would register that are reused while an element is prepainted. -/
def Element.reusedControls : Element Style → Window Style → Multiset Registered
  | empty, _ => 0
  | both first second, window =>
    first.reusedControls window + second.reusedControls (first.prepaint window).2
  | hitbox .., _ => 0
  | contentMask mask child, window =>
    match mask with
    | some mask => child.reusedControls
      { window with contentMaskStack := mask.intersect window.contentMask ::
        window.contentMaskStack }
    | none => child.reusedControls window
  | deferred .., _ => 0
  | view globalId entityId bounds textStyle child, window =>
    let (state, window) := window.takeState globalId
    match reusable state entityId bounds textStyle window with
    | some _ => child.registers window.viewport window.contentMask
    | none => child.reusedControls { window with refreshing := true }

/-- What the views would register that are reused in a deferred draw. -/
def drawReusedControls (ix : ℕ) (window : Window Style) : Multiset Registered :=
  match window.nextFrame.deferredDraws[ix]? with
  | none => 0
  | some draw =>
    match draw.element with
    | some (.requested element) => element.reusedControls window
    | _ => 0

/-- What the views would register that are reused in a frame. -/
def FrameInput.reusedControls (frame : FrameInput Style) (window : Window Style) :
    Multiset Registered :=
  frame.root.reusedControls (window.begin frame) +
    roundsSum (fun window => window.nextFrame.deferredDraws.length) traversalOrder
      prepaintDeferredDraw drawReusedControls 10 0 (frame.root.prepaint (window.begin frame)).2

/-- What all elements of a frame would register. -/
def FrameInput.registers (frame : FrameInput Style) : Multiset Registered :=
  frame.root.registers frame.viewport frame.viewport

/-! ### Prepainting -/

/-- Each control of an element is one of the painting, waits in a deferred draw, or is one of a view
that is reused. -/
theorem prepaint_registers (element : Element Style) (window : Window Style) :
    (element.prepaint window).1.registers + (element.prepaint window).2.waiting +
        element.reusedControls window =
      window.waiting + element.registers window.viewport window.contentMask := by
  induction element generalizing window with
  | empty => simp [Element.prepaint, Painting.registers, Painting.controls, Element.reusedControls,
      Element.registers]
  | both first second ih ih' =>
    have hfirst := ih window
    have hsecond := ih' (first.prepaint window).2
    have hextends := prepaint_extends first window
    rw [hextends.viewport, hextends.contentMask] at hsecond
    have hboth : (Painting.both (first.prepaint window).1
        (second.prepaint (first.prepaint window).2).1).registers =
          (first.prepaint window).1.registers +
            (second.prepaint (first.prepaint window).2).1.registers := by
      simp [Painting.registers, Painting.controls]
    rw [Element.prepaint, Element.reusedControls, Element.registers]
    dsimp only
    rw [hboth]
    calc _ = (first.prepaint window).1.registers + first.reusedControls window +
          ((second.prepaint (first.prepaint window).2).1.registers +
            (second.prepaint (first.prepaint window).2).2.waiting +
              second.reusedControls (first.prepaint window).2) := by abel
      _ = (first.prepaint window).1.registers + (first.prepaint window).2.waiting +
          first.reusedControls window +
            second.registers window.viewport window.contentMask := by rw [hsecond]; abel
      _ = _ := by rw [hfirst]; abel
  | hitbox bounds behavior mouseCursor windowControl =>
    cases windowControl <;>
      simp [Element.prepaint, Window.insertHitbox, Painting.registers, Painting.controls,
        Element.reusedControls, Element.registers, registered, Window.waiting, add_comm]
  | contentMask mask child ih =>
    cases mask with
    | none => exact ih window
    | some mask => exact ih { window with
        contentMaskStack := mask.intersect window.contentMask :: window.contentMaskStack }
  | deferred priority mask child =>
    have hdefer : (window.deferDraw child priority mask).waiting =
        window.waiting + child.registers window.viewport window.viewport := by
      refine (waiting_append window (window.deferDraw child priority mask) rfl rfl).trans ?_
      simp [DeferredDraw.registers]
    simp [Element.prepaint, Painting.registers, Painting.controls, Element.reusedControls,
      Element.registers, hdefer]
  | view globalId entityId bounds textStyle child ih =>
    have htake := window.takeState_extends globalId
    rw [Element.prepaint, prepaintView, Element.reusedControls, Element.registers]
    dsimp only
    rw [← waiting_takeState globalId window, ← htake.viewport, ← htake.contentMask]
    -- the view of the last frame is reused, or the element is rendered again
    cases hreusable : reusable (window.takeState globalId).1 entityId bounds textStyle
        (window.takeState globalId).2 with
    | some state =>
      have hput : ((window.takeState globalId).2.reusePrepaint state.prepaintRange).waiting =
          (window.takeState globalId).2.waiting := waiting_reusePrepaint _ _
      simp only [Painting.registers, Painting.controls, List.map_nil, Multiset.coe_nil, zero_add]
      rw [← hput]
      rfl
    | none =>
      exact ih { (window.takeState globalId).2 with refreshing := true }

theorem reusable_of_refreshing {window : Window Style} (h : window.refreshing = true)
    (state : Option (ViewElementState Style)) (entityId : EntityId) (bounds : Bounds ℚ)
    (textStyle : Style) : reusable state entityId bounds textStyle window = none := by
  cases state with
  | none => rfl
  | some state => simp [reusable, h]

theorem reusedControls_of_refreshing (element : Element Style) {window : Window Style}
    (h : window.refreshing = true) : element.reusedControls window = 0 := by
  induction element generalizing window with
  | empty => rfl
  | both first second ih ih' =>
    rw [Element.reusedControls, ih h, ih' ((prepaint_extends first window).refreshing.trans h),
      add_zero]
  | hitbox => rfl
  | contentMask mask child ih =>
    cases mask with
    | none => exact ih h
    | some mask => exact ih h
  | deferred => rfl
  | view globalId entityId bounds textStyle child ih =>
    have htake := (window.takeState_extends globalId).refreshing.trans h
    simp only [Element.reusedControls, reusable_of_refreshing htake]
    exact ih rfl

/-! ### Deferred draws -/

omit [DecidableEq Style] in
theorem sum_modify {draws : List (DeferredDraw Style)} {ix : ℕ} {draw : DeferredDraw Style}
    (hdraw : draws[ix]? = some draw) (f : DeferredDraw Style → DeferredDraw Style)
    (viewport : ContentMask) :
    ((draws.modify ix f).map (DeferredDraw.registers viewport)).sum + draw.registers viewport =
      (draws.map (DeferredDraw.registers viewport)).sum + (f draw).registers viewport := by
  induction draws generalizing ix with
  | nil => exact absurd hdraw (by simp)
  | cons first draws ih =>
    cases ix with
    | zero =>
      obtain rfl := Option.some.inj hdraw
      simp only [List.modify_zero_cons, List.map_cons, List.sum_cons]
      abel
    | succ ix =>
      have hnext : draws[ix]? = some draw := by simpa using hdraw
      have hrest := ih hnext
      simp only [List.modify_succ_cons, List.map_cons, List.sum_cons]
      calc _ = first.registers viewport + (((draws.modify ix f).map
            (DeferredDraw.registers viewport)).sum + draw.registers viewport) := by abel
        _ = _ := by rw [hrest]; abel

omit [DecidableEq Style] in
theorem waiting_modifyDraw {window : Window Style} {ix : ℕ} {draw : DeferredDraw Style}
    (hdraw : window.nextFrame.deferredDraws[ix]? = some draw)
    (f : DeferredDraw Style → DeferredDraw Style) :
    (window.modifyDraw ix f).waiting + draw.registers window.viewport =
      window.waiting + (f draw).registers window.viewport :=
  sum_modify hdraw f window.viewport

/-- A visit to a deferred draw takes from what waits what its reused views leave out. -/
theorem prepaintDeferredDraw_waiting {viewport : ContentMask} (ix : ℕ) {window : Window Style}
    (houtside : Outside viewport window) :
    (prepaintDeferredDraw ix window).waiting + drawReusedControls ix window = window.waiting := by
  have hvisited := prepaintDeferredDraw_visited ix window
  generalize prepaintDeferredDraw ix window = after at hvisited ⊢
  cases hvisited with
  | settled hdraw =>
    have hnone : drawReusedControls ix window = 0 := by
      unfold drawReusedControls
      split
      · rfl
      · rename_i draw hsome
        obtain ⟨painting, helement⟩ := hdraw draw hsome
        rw [helement]
    rw [hnone, add_zero]
  | @rendered draw element hdraw helement =>
    have hextends := prepaint_extends element window
    have hreused : drawReusedControls ix window = element.reusedControls window := by
      simp only [drawReusedControls, hdraw, helement]
    have hwaiting : draw.registers (element.prepaint window).2.viewport =
        element.registers window.viewport window.contentMask := by
      rw [DeferredDraw.registers, helement, hextends.viewport, houtside.contentMask, houtside.1]
    have hmodify := waiting_modifyDraw (hextends.getElem? hdraw) fun draw =>
      { draw with
        element := some (.prepainted (element.prepaint window).1)
        prepaintRange := (window.prepaintIndex, (element.prepaint window).2.prepaintIndex) }
    rw [hwaiting] at hmodify
    have hprepaint := prepaint_registers element window
    -- what the element would register goes from one side to the other
    refine add_right_cancel (b := element.registers window.viewport window.contentMask) ?_
    rw [hreused, ← hprepaint, add_right_comm, hmodify]
    exact congrArg (· + _) (add_comm _ _)
  | @reused draw hdraw helement =>
    have hextends := Window.reusePrepaint_extends window draw.prepaintRange
    have hnone : drawReusedControls ix window = 0 := by
      simp only [drawReusedControls, hdraw, helement]
    have hmodify := waiting_modifyDraw (hextends.getElem? hdraw) fun other =>
      { other with
        prepaintRange :=
          (window.prepaintIndex, (window.reusePrepaint draw.prepaintRange).prepaintIndex) }
    rw [waiting_reusePrepaint] at hmodify
    rw [hnone, add_zero]
    exact add_right_cancel hmodify

/-- A deferred draw is prepainted or reused. -/
def Settled (ix : ℕ) (window : Window Style) : Prop :=
  ∃ draw, window.nextFrame.deferredDraws[ix]? = some draw ∧
    ∀ element, draw.element ≠ some (.requested element)

theorem settled_visit {ix : ℕ} {window : Window Style}
    (hix : ix < window.nextFrame.deferredDraws.length) :
    Settled ix (prepaintDeferredDraw ix window) := by
  have hvisited := prepaintDeferredDraw_visited ix window
  generalize prepaintDeferredDraw ix window = after at hvisited ⊢
  cases hvisited with
  | settled hdraw =>
    have hsome := List.getElem?_eq_getElem hix
    obtain ⟨painting, helement⟩ := hdraw _ hsome
    refine ⟨_, hsome, ?_⟩
    intro element heq
    rw [helement] at heq
    exact absurd heq (by simp)
  | rendered hdraw =>
    refine ⟨_, getElem?_modifyDraw ((prepaint_extends _ window).getElem? hdraw) _, ?_⟩
    intro other
    simp
  | reused hdraw helement =>
    refine ⟨_, getElem?_modifyDraw
      ((Window.reusePrepaint_extends window _).getElem? hdraw) _, ?_⟩
    intro other
    simp [helement]

/-- The visits settle the deferred draws. -/
theorem settling (viewport : ContentMask) :
    Settling (fun window : Window Style => window.nextFrame.deferredDraws.length)
      prepaintDeferredDraw (Outside viewport) (fun _ _ => True) Settled (fun _ _ => True)
      (fun _ _ => True) where
  len_le := length_prepaintDeferredDraw
  keep := fun ix window h _ _ => h.visit ix
  settle := fun ix window _ hix _ => ⟨settled_visit hix, Iff.rfl⟩
  added := fun _ _ _ _ _ _ _ _ => trivial
  fresh := fun _ _ _ _ _ _ _ _ _ => trivial
  settled := by
    rintro ix window - - - jx hne - ⟨draw, hdraw, helement⟩
    exact ⟨⟨draw, getElem?_prepaintDeferredDraw hne.symm hdraw, helement⟩, Iff.rfl⟩

end Reused

/-! ### Painting -/

/-- The controls of a deferred draw that is painted. -/
def elementControls : Option (AnyElement Style) → List (WindowControlArea × Hitbox)
  | some (.prepainted painting) => painting.controls
  | _ => []

theorem takeState_controls (window : Window Style) (key : GlobalElementId) :
    (window.takeState key).2.nextFrame.windowControlHitboxes =
      window.nextFrame.windowControlHitboxes := by
  unfold Window.takeState
  split <;> rfl

theorem paint_controls (painting : Painting) (window : Window Style) :
    (painting.paint window).nextFrame.windowControlHitboxes =
      window.nextFrame.windowControlHitboxes ++ painting.controls := by
  induction painting generalizing window with
  | empty => exact (List.append_nil _).symm
  | both first second ih ih' =>
    rw [Painting.paint, ih', ih, Painting.controls, List.append_assoc]
  | hitbox inserted mouseCursor windowControl =>
    cases mouseCursor <;> cases windowControl <;>
      simp [Painting.paint, Painting.controls, Window.setCursorStyle,
        Window.insertWindowControlHitbox]
  | rendered globalId child ih =>
    have hchild := ih { (window.takeState globalId).2 with refreshing := true }
    exact hchild.trans (congrArg (· ++ _) (takeState_controls window globalId))
  | reused globalId =>
    rw [Painting.paint, paintView, Painting.controls, List.append_nil]
    dsimp only
    split <;> exact takeState_controls window globalId

theorem paintDeferredDraw_controls (ix : ℕ) (window : Window Style) :
    (paintDeferredDraw ix window).nextFrame.windowControlHitboxes =
      window.nextFrame.windowControlHitboxes ++
        (window.draws[ix]?.elim [] fun draw => elementControls draw.element) := by
  unfold paintDeferredDraw
  rw [Window.draws, List.getElem?_map]
  cases window.nextFrame.deferredDraws[ix]? with
  | none => exact (List.append_nil _).symm
  | some draw =>
    dsimp only [Option.map_some, Option.elim_some]
    cases draw.element with
    | none => exact (List.append_nil _).symm
    | some element =>
      cases element with
      | requested element => exact (List.append_nil _).symm
      | prepainted painting =>
        cases draw.contentMask with
        | none => exact paint_controls painting window
        | some mask => exact paint_controls painting { window with
            contentMaskStack := mask.intersect window.contentMask :: window.contentMaskStack }

/-- Painting deferred draws registers their controls in this order. -/
theorem foldl_paintDeferredDraw_controls (order : List ℕ) (window : Window Style) :
    (order.foldl (fun window ix => paintDeferredDraw ix window)
        window).nextFrame.windowControlHitboxes =
      window.nextFrame.windowControlHitboxes ++
        order.flatMap fun ix =>
          window.draws[ix]?.elim [] fun draw => elementControls draw.element := by
  induction order generalizing window with
  | nil => exact (List.append_nil _).symm
  | cons ix order ih =>
    rw [List.foldl_cons, ih, paintDeferredDraw_controls, (paintDeferredDraw_draws ix window).1,
      List.flatMap_cons, List.append_assoc]

theorem flatMap_range {α β : Type} (f : Option α → List β) (xs : List α) :
    (List.range xs.length).flatMap (fun ix => f xs[ix]?) = xs.flatMap fun x => f (some x) := by
  induction xs with
  | nil => rfl
  | cons x xs ih =>
    rw [List.length_cons, List.range_succ_eq_map, List.flatMap_cons, List.flatMap_map,
      List.flatMap_cons, ← ih]
    rfl

/-- Deferred draws that are settled have the controls to register that are painted. -/
theorem registers_flatMap (viewport : ContentMask) {draws : List (DeferredDraw Style)}
    (hsettled : ∀ draw ∈ draws, ∀ element, draw.element ≠ some (.requested element)) :
    ((draws.flatMap fun draw => elementControls draw.element).map registered :
        Multiset Registered) = (draws.map (DeferredDraw.registers viewport)).sum := by
  induction draws with
  | nil => rfl
  | cons draw draws ih =>
    have hdraw : ((elementControls draw.element).map registered : Multiset Registered) =
        draw.registers viewport := by
      have hne := hsettled draw List.mem_cons_self
      rw [DeferredDraw.registers]
      split
      · rename_i element helement
        exact absurd helement (hne element)
      · rename_i painting helement
        rw [helement]
        rfl
      · rename_i helement
        rw [helement]
        rfl
    have hrest := ih fun other hother => hsettled other (List.mem_cons_of_mem _ hother)
    rw [List.flatMap_cons, List.map_append, ← Multiset.coe_add, hdraw, hrest, List.map_cons,
      List.sum_cons]

/-- Painting the deferred draws registers the controls of all of them. -/
theorem paintDeferredDraws_registers {window : Window Style}
    (hsettled : ∀ ix < window.nextFrame.deferredDraws.length, Settled ix window) :
    (paintDeferredDraws window).nextFrame.registers =
      window.nextFrame.registers + window.waiting := by
  have hlength : window.draws.length = window.nextFrame.deferredDraws.length := List.length_map _
  have hperm : (traversalOrder 0 window.nextFrame.deferredDraws.length window).Perm
      (List.range window.draws.length) := by
    rw [hlength, List.range_eq_range']
    exact traversalOrder_perm 0 _ window
  have hall : ∀ draw ∈ window.nextFrame.deferredDraws,
      ∀ element, draw.element ≠ some (.requested element) := by
    intro draw hdraw
    obtain ⟨ix, hix, rfl⟩ := List.mem_iff_getElem.mp hdraw
    obtain ⟨other, hother, helement⟩ := hsettled ix hix
    rw [List.getElem?_eq_getElem hix] at hother
    rwa [Option.some.inj hother]
  have hcontrols := foldl_paintDeferredDraw_controls
    (traversalOrder 0 window.nextFrame.deferredDraws.length window) window
  have hflat := flatMap_range (fun draw : Option (DeferredDraw Style) =>
    draw.elim [] fun draw => elementControls draw.element) window.draws
  rw [Frame.registers, paintDeferredDraws, hcontrols, List.map_append, ← Multiset.coe_add]
  congr 1
  calc _ = ((((List.range window.draws.length).flatMap fun ix =>
          window.draws[ix]?.elim [] fun draw => elementControls draw.element).map registered :
            List Registered) : Multiset Registered) :=
        Multiset.coe_eq_coe.mpr ((hperm.flatMap_right _).map registered)
    _ = _ := by
        rw [hflat, Window.draws, List.flatMap_map]
        exact registers_flatMap window.viewport hall

/-! ### Frames -/

section Frames

variable [DecidableEq Style]

/-- What a frame registers, and what its reused views leave out. -/
theorem registers_add_reusedControls {frame : FrameInput Style} {window after : Window Style}
    (hnew : window.nextFrame = .new) (h : drawFrame frame window = some after) :
    after.renderedFrame.registers + frame.reusedControls window = frame.registers := by
  obtain ⟨settled, hrounds, rfl⟩ := Option.map_eq_some_iff.mp h
  have hcontrols : (window.begin frame).nextFrame.windowControlHitboxes = [] := by
    rw [Window.begin, hnew]
    rfl
  have hextends := prepaint_extends frame.root (window.begin frame)
  have hroot := prepaint_registers frame.root (window.begin frame)
  have hbegin : Outside frame.viewport (window.begin frame) := ⟨rfl, rfl, hcontrols⟩
  have houtside := hbegin.of_extends hextends
  have hempty : (window.begin frame).waiting = 0 := by
    rw [Window.waiting, Window.begin, hnew]
    rfl
  have hvisit : ∀ ix (window : Window Style), Outside frame.viewport window →
      Outside frame.viewport (prepaintDeferredDraw ix window) := fun ix _ h => h.visit ix
  -- what waits behind the rounds
  have hwaiting : settled.waiting +
      roundsSum (fun window => window.nextFrame.deferredDraws.length) traversalOrder
        prepaintDeferredDraw drawReusedControls 10 0 (frame.root.prepaint (window.begin frame)).2 =
      (frame.root.prepaint (window.begin frame)).2.waiting :=
    rounds_sum hvisit (fun ix _ h => prepaintDeferredDraw_waiting ix h) houtside hrounds
  obtain ⟨houtside', hsettled, -⟩ := (settling frame.viewport).rounds nodup_traversalOrder
    mem_traversalOrder houtside (Nat.zero_le _) (fun ix hix => absurd hix (Nat.not_lt_zero ix))
    (fun _ _ _ => trivial) hrounds
  have hpaint := paint_controls (frame.root.prepaint (window.begin frame)).1 settled
  have hpainted := paint_painted (frame.root.prepaint (window.begin frame)).1 settled
  have hregisters : ((frame.root.prepaint (window.begin frame)).1.paint
      settled).nextFrame.registers = (frame.root.prepaint (window.begin frame)).1.registers := by
    rw [Frame.registers, hpaint, houtside'.2.2]
    rfl
  have hstays : ((frame.root.prepaint (window.begin frame)).1.paint settled).waiting =
      settled.waiting := waiting_congr hpainted.viewport hpainted.draws
  have hlast : (paintDeferredDraws ((frame.root.prepaint (window.begin frame)).1.paint
      settled)).nextFrame.registers =
        (frame.root.prepaint (window.begin frame)).1.registers + settled.waiting := by
    rw [paintDeferredDraws_registers, hregisters, hstays]
    rw [hpainted.draws]
    intro ix hix
    obtain ⟨draw, hdraw, helement⟩ := hsettled ix hix
    exact ⟨draw, by rw [hpainted.draws, hdraw], helement⟩
  rw [hempty, zero_add, hbegin.contentMask] at hroot
  calc _ = (frame.root.prepaint (window.begin frame)).1.registers + settled.waiting +
        frame.reusedControls window := congrArg (· + _) hlast
    _ = (frame.root.prepaint (window.begin frame)).1.registers +
          (frame.root.prepaint (window.begin frame)).2.waiting +
            frame.root.reusedControls (window.begin frame) := by
        rw [← hwaiting, FrameInput.reusedControls]
        abel
    _ = _ := hroot

theorem reusedControls_refreshing (frame : FrameInput Style) (window : Window Style) :
    ({ frame with refreshing := true } : FrameInput Style).reusedControls window = 0 := by
  have hvisit : ∀ ix (window : Window Style), window.refreshing = true →
      (prepaintDeferredDraw ix window).refreshing = true := by
    intro ix window h
    have hvisited := prepaintDeferredDraw_visited ix window
    generalize prepaintDeferredDraw ix window = after at hvisited ⊢
    cases hvisited with
    | settled => exact h
    | @rendered _ element => exact (prepaint_extends element window).refreshing.trans h
    | reused => exact h
  have hdraw : ∀ ix (window : Window Style), window.refreshing = true →
      drawReusedControls ix window = 0 := by
    intro ix window h
    unfold drawReusedControls
    split
    · rfl
    · split
      · exact reusedControls_of_refreshing _ h
      · rfl
  have hroot := (prepaint_extends frame.root
    (window.begin { frame with refreshing := true })).refreshing
  rw [FrameInput.reusedControls, roundsSum_eq_zero hvisit hdraw hroot, add_zero]
  exact reusedControls_of_refreshing frame.root rfl

end Frames

end Drawing

end Zui
