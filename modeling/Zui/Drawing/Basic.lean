/-
Drawing the frames of a window: hitboxes, deferred draws and cached views.

An element inserts its hitboxes when it is prepainted, and registers cursor styles and window
controls for them when it is painted.  A cached view that is clean is neither prepainted nor
painted: what it left in the lists of the last frame is copied.  The element of a deferred draw is
prepainted and painted behind everything else.

Design notes:

* an `Element` is what the code of a frame would render, with the content of every cached view; the
  window decides which views are reused;
* bounds are absolute, and of the ambient state there is only the content mask: the text style of a
  view is given with it, and so is its global id;
* tooltips, dispatch nodes, line layouts, scenes and listeners are left out, and so are prompts,
  drags and tooltips, which are drawn behind the deferred draws;
* where the code would panic (a slice out of range, a state that is missing at `unwrap`), the model
  goes on with what there is; only the limit on nested deferred draws gives no result.
-/
import Zui.Library.Rounds
import Zui.Transact.Basic

namespace Zui

open Gpui

/-- `contains`. -/
def Gpui.Bounds.contains (self : Bounds ℚ) (point : Point ℚ) : Bool :=
  point.x ≥ self.origin.x && point.x < self.origin.x + self.size.width &&
    point.y ≥ self.origin.y && point.y < self.origin.y + self.size.height

namespace Drawing

open Transact (EntityId Hitbox HitboxBehavior)

/-- `GlobalElementId`. -/
abbrev GlobalElementId : Type := ℕ

/-- `CursorStyle`. -/
abbrev CursorStyle : Type := ℕ

/-- `WindowControlArea`. -/
inductive WindowControlArea
  | drag
  | close
  | max
  | min
  deriving DecidableEq, Repr

/-- `CursorStyleRequest`. -/
structure CursorStyleRequest where
  hitboxId : Option ℕ
  style : CursorStyle
  deriving DecidableEq

/-! ### Elements -/

variable {Style : Type}

/-- What the elements of a frame do when they are prepainted. -/
inductive Element (Style : Type)
  | empty
  | both (first second : Element Style)
  /-- A hitbox, with the cursor and the window control of the element that inserts it. -/
  | hitbox (bounds : Bounds ℚ) (behavior : HitboxBehavior) (mouseCursor : Option CursorStyle)
      (windowControl : Option WindowControlArea)
  /-- A child in `with_content_mask`. -/
  | contentMask (mask : Option ContentMask) (child : Element Style)
  /-- A child that is given to `defer_draw`. -/
  | deferred (priority : ℕ) (contentMask : Option ContentMask) (child : Element Style)
  /-- `ViewElement` of a cached view, with what it renders. -/
  | view (globalId : GlobalElementId) (entityId : EntityId) (bounds : Bounds ℚ) (textStyle : Style)
      (child : Element Style)

/-- What the elements do when they are painted. -/
inductive Painting
  | empty
  | both (first second : Painting)
  | hitbox (inserted : Hitbox) (mouseCursor : Option CursorStyle)
      (windowControl : Option WindowControlArea)
  /-- A cached view that was rendered: `ViewElement` with `Some(element)`. -/
  | rendered (globalId : GlobalElementId) (child : Painting)
  /-- A cached view that was not: `ViewElement` with `None`. -/
  | reused (globalId : GlobalElementId)

/-- `AnyElement`, as `defer_draw` gets it or prepainted. -/
inductive AnyElement (Style : Type)
  | requested (element : Element Style)
  | prepainted (painting : Painting)

/-! ### Frames -/

/-- `PrepaintStateIndex`. -/
structure PrepaintStateIndex where
  hitboxesIndex : ℕ := 0
  deferredDrawsIndex : ℕ := 0
  accessedElementStatesIndex : ℕ := 0

/-- `PaintIndex`. -/
structure PaintIndex where
  cursorStylesIndex : ℕ := 0
  accessedElementStatesIndex : ℕ := 0

/-- `DeferredDraw`. -/
structure DeferredDraw (Style : Type) where
  priority : ℕ
  element : Option (AnyElement Style)
  contentMask : Option ContentMask
  prepaintRange : PrepaintStateIndex × PrepaintStateIndex
  paintRange : PaintIndex × PaintIndex

/-- `ViewElementCacheKey`. -/
structure ViewElementCacheKey (Style : Type) where
  bounds : Bounds ℚ
  contentMask : ContentMask
  textStyle : Style
  deriving DecidableEq

/-- `ViewElementState`. -/
structure ViewElementState (Style : Type) where
  prepaintRange : PrepaintStateIndex × PrepaintStateIndex
  paintRange : PaintIndex × PaintIndex
  cacheKey : ViewElementCacheKey Style

/-- `Frame`. -/
structure Frame (Style : Type) where
  hitboxes : List Hitbox
  windowControlHitboxes : List (WindowControlArea × Hitbox)
  cursorStyles : List CursorStyleRequest
  deferredDraws : List (DeferredDraw Style)
  accessedElementStates : List GlobalElementId
  elementStates : GlobalElementId → Option (ViewElementState Style)

namespace Frame

/-- A frame of a new window, or one that `clear` has emptied. -/
def new : Frame Style where
  hitboxes := []
  windowControlHitboxes := []
  cursorStyles := []
  deferredDraws := []
  accessedElementStates := []
  elementStates _ := none

/-- `finish`. -/
def finish (prevFrame self : Frame Style) : Frame Style :=
  { self with
    elementStates := fun key =>
      if key ∈ self.accessedElementStates then
        (prevFrame.elementStates key).or (self.elementStates key)
      else self.elementStates key }

/-- The element states with the one of a key. -/
def setState (key : GlobalElementId) (state : Option (ViewElementState Style))
    (self : Frame Style) : Frame Style :=
  { self with elementStates := Function.update self.elementStates key state }

/-- The loop of `hit_test`: the ids found so far, and whether `hover_hitbox_count` is set. -/
def hitTestFrom (position : Point ℚ) : List Hitbox → List ℕ → Option ℕ → List ℕ × Option ℕ
  | [], ids, hover => (ids, hover)
  | hitbox :: hitboxes, ids, hover =>
    let bounds := hitbox.bounds.intersect hitbox.contentMask.bounds
    if bounds.contains position then
      let ids := ids ++ [hitbox.id]
      let hover :=
        if hover.isNone && hitbox.behavior = .blockMouseExceptScroll then some ids.length
        else hover
      if hitbox.behavior = .blockMouse then (ids, hover)
      else hitTestFrom position hitboxes ids hover
    else hitTestFrom position hitboxes ids hover

/-- `hit_test`: the ids, and `hover_hitbox_count`. -/
def hitTest (position : Point ℚ) (self : Frame Style) : List ℕ × ℕ :=
  let (ids, hover) := hitTestFrom position self.hitboxes.reverse [] none
  (ids, hover.getD ids.length)

/-- What `on_hit_test_window_control` answers with the mouse at a position. -/
def hitTestWindowControl (position : Point ℚ) (self : Frame Style) : Option WindowControlArea :=
  (self.windowControlHitboxes.find? fun control =>
    (self.hitTest position).1.contains control.2.id).map Prod.fst

end Frame

/-- `Window`. -/
structure Window (Style : Type) where
  viewport : ContentMask
  /-- The top of the stack is its head. -/
  contentMaskStack : List ContentMask
  dirtyViews : List EntityId
  refreshing : Bool
  nextHitboxId : ℕ
  renderedFrame : Frame Style
  nextFrame : Frame Style

/-- The elements of a slice. -/
def slice {α : Type} (first last : ℕ) (xs : List α) : List α := (xs.take last).drop first

namespace Window

/-- `content_mask`. -/
def contentMask (self : Window Style) : ContentMask :=
  self.contentMaskStack.head?.getD self.viewport

/-- `with_content_mask`. -/
def withContentMask {α : Type} (mask : Option ContentMask) (f : Window Style → α × Window Style)
    (self : Window Style) : α × Window Style :=
  match mask with
  | some mask =>
    let (result, after) :=
      f { self with contentMaskStack := mask.intersect self.contentMask :: self.contentMaskStack }
    (result, { after with contentMaskStack := self.contentMaskStack })
  | none => f self

/-- `insert_hitbox`. -/
def insertHitbox (bounds : Bounds ℚ) (behavior : HitboxBehavior) (self : Window Style) :
    Hitbox × Window Style :=
  let hitbox : Hitbox := ⟨self.nextHitboxId, bounds, self.contentMask, behavior⟩
  (hitbox,
    { self with
      nextHitboxId := self.nextHitboxId + 1
      nextFrame := { self.nextFrame with hitboxes := self.nextFrame.hitboxes ++ [hitbox] } })

/-- `defer_draw`. -/
def deferDraw (element : Element Style) (priority : ℕ) (contentMask : Option ContentMask)
    (self : Window Style) : Window Style :=
  { self with
    nextFrame :=
      { self.nextFrame with
        deferredDraws := self.nextFrame.deferredDraws ++
          [⟨priority, some (.requested element), contentMask, ({}, {}), ({}, {})⟩] } }

/-- `prepaint_index`. -/
def prepaintIndex (self : Window Style) : PrepaintStateIndex where
  hitboxesIndex := self.nextFrame.hitboxes.length
  deferredDrawsIndex := self.nextFrame.deferredDraws.length
  accessedElementStatesIndex := self.nextFrame.accessedElementStates.length

/-- `reuse_prepaint`. -/
def reusePrepaint (range : PrepaintStateIndex × PrepaintStateIndex) (self : Window Style) :
    Window Style :=
  { self with
    nextFrame :=
      { self.nextFrame with
        hitboxes := self.nextFrame.hitboxes ++
          slice range.1.hitboxesIndex range.2.hitboxesIndex self.renderedFrame.hitboxes
        accessedElementStates := self.nextFrame.accessedElementStates ++
          slice range.1.accessedElementStatesIndex range.2.accessedElementStatesIndex
            self.renderedFrame.accessedElementStates
        deferredDraws := self.nextFrame.deferredDraws ++
          (slice range.1.deferredDrawsIndex range.2.deferredDrawsIndex
            self.renderedFrame.deferredDraws).map fun draw => { draw with element := none } } }

/-- `paint_index`. -/
def paintIndex (self : Window Style) : PaintIndex where
  cursorStylesIndex := self.nextFrame.cursorStyles.length
  accessedElementStatesIndex := self.nextFrame.accessedElementStates.length

/-- `reuse_paint`. -/
def reusePaint (range : PaintIndex × PaintIndex) (self : Window Style) : Window Style :=
  { self with
    nextFrame :=
      { self.nextFrame with
        cursorStyles := self.nextFrame.cursorStyles ++
          slice range.1.cursorStylesIndex range.2.cursorStylesIndex
            self.renderedFrame.cursorStyles
        accessedElementStates := self.nextFrame.accessedElementStates ++
          slice range.1.accessedElementStatesIndex range.2.accessedElementStatesIndex
            self.renderedFrame.accessedElementStates } }

/-- `set_cursor_style`. -/
def setCursorStyle (style : CursorStyle) (hitbox : Hitbox) (self : Window Style) : Window Style :=
  { self with
    nextFrame :=
      { self.nextFrame with
        cursorStyles := self.nextFrame.cursorStyles ++ [⟨some hitbox.id, style⟩] } }

/-- `insert_window_control_hitbox`. -/
def insertWindowControlHitbox (area : WindowControlArea) (hitbox : Hitbox) (self : Window Style) :
    Window Style :=
  { self with
    nextFrame :=
      { self.nextFrame with
        windowControlHitboxes := self.nextFrame.windowControlHitboxes ++ [(area, hitbox)] } }

/-- The start of `with_element_state`: the key is accessed, and its state is taken out. -/
def takeState (key : GlobalElementId) (self : Window Style) :
    Option (ViewElementState Style) × Window Style :=
  let accessed : Frame Style :=
    { self.nextFrame with
      accessedElementStates := self.nextFrame.accessedElementStates ++ [key] }
  match self.nextFrame.elementStates key with
  | some state => (some state, { self with nextFrame := accessed.setState key none })
  | none =>
    (self.renderedFrame.elementStates key,
      { self with
        nextFrame := accessed
        renderedFrame := self.renderedFrame.setState key none })

/-- The end of `with_element_state`. -/
def putState (key : GlobalElementId) (state : Option (ViewElementState Style))
    (self : Window Style) : Window Style :=
  { self with nextFrame := self.nextFrame.setState key state }

/-- Run with `refreshing` set, as `mem::replace(&mut window.refreshing, true)` does. -/
def whileRefreshing {α : Type} (f : Window Style → α × Window Style) (self : Window Style) :
    α × Window Style :=
  let (result, after) := f { self with refreshing := true }
  (result, { after with refreshing := self.refreshing })

end Window

/-! ### Prepainting -/

section Prepaint

variable [DecidableEq Style]

/-- The test of `ViewElement::prepaint` for a view that need not be rendered. -/
def reusable (state : Option (ViewElementState Style)) (entityId : EntityId) (bounds : Bounds ℚ)
    (textStyle : Style) (window : Window Style) : Option (ViewElementState Style) :=
  state.filter fun state =>
    state.cacheKey = ⟨bounds, window.contentMask, textStyle⟩ &&
      !window.dirtyViews.contains entityId && !window.refreshing

/-- `ViewElement::prepaint` of a cached view; `render` renders it and prepaints the element. -/
def prepaintView (globalId : GlobalElementId) (entityId : EntityId) (bounds : Bounds ℚ)
    (textStyle : Style) (render : Window Style → Painting × Window Style) (window : Window Style) :
    Painting × Window Style :=
  let (state, window) := window.takeState globalId
  match reusable state entityId bounds textStyle window with
  | some state =>
    let after := window.reusePrepaint state.prepaintRange
    (.reused globalId, after.putState globalId
      (some { state with prepaintRange := (window.prepaintIndex, after.prepaintIndex) }))
  | none =>
    let (child, after) := window.whileRefreshing render
    (.rendered globalId child, after.putState globalId
      (some ⟨(window.prepaintIndex, after.prepaintIndex), ({}, {}),
        ⟨bounds, window.contentMask, textStyle⟩⟩))

/-- Prepaint an element. -/
def Element.prepaint : Element Style → Window Style → Painting × Window Style
  | empty, window => (.empty, window)
  | both first second, window =>
    let (first, window) := first.prepaint window
    let (second, window) := second.prepaint window
    (.both first second, window)
  | hitbox bounds behavior mouseCursor windowControl, window =>
    let (inserted, window) := window.insertHitbox bounds behavior
    (.hitbox inserted mouseCursor windowControl, window)
  | contentMask mask child, window => window.withContentMask mask child.prepaint
  | deferred priority mask child, window => (.empty, window.deferDraw child priority mask)
  | view globalId entityId bounds textStyle child, window =>
    prepaintView globalId entityId bounds textStyle child.prepaint window

/-- The deferred draw at an index, changed. -/
def Window.modifyDraw (ix : ℕ) (f : DeferredDraw Style → DeferredDraw Style)
    (self : Window Style) : Window Style :=
  { self with
    nextFrame :=
      { self.nextFrame with deferredDraws := self.nextFrame.deferredDraws.modify ix f } }

/-- One pass of the inner loop of `prepaint_deferred_draws`. -/
def prepaintDeferredDraw (ix : ℕ) (window : Window Style) : Window Style :=
  match window.nextFrame.deferredDraws[ix]? with
  | none => window
  | some draw =>
    match draw.element with
    | some (.requested element) =>
      let (painting, after) := element.prepaint window
      after.modifyDraw ix fun draw =>
        { draw with
          element := some (.prepainted painting)
          prepaintRange := (window.prepaintIndex, after.prepaintIndex) }
    | some (.prepainted _) => window
    | none =>
      let after := window.reusePrepaint draw.prepaintRange
      after.modifyDraw ix fun draw =>
        { draw with prepaintRange := (window.prepaintIndex, after.prepaintIndex) }

/-- The deferred draws of a range in the order of their priorities. -/
def traversalOrder (first last : ℕ) (window : Window Style) : List ℕ :=
  (List.range' first (last - first)).mergeSort fun ix jx =>
    (window.nextFrame.deferredDraws[ix]?.map DeferredDraw.priority).getD 0 ≤
      (window.nextFrame.deferredDraws[jx]?.map DeferredDraw.priority).getD 0

/-- `prepaint_deferred_draws`, in at most ten rounds. -/
def prepaintDeferredDraws (window : Window Style) : Option (Window Style) :=
  rounds (fun window => window.nextFrame.deferredDraws.length) traversalOrder prepaintDeferredDraw
    10 0 window

end Prepaint

/-! ### Painting -/

/-- `ViewElement::paint` of a cached view; `element` paints it or replays what it painted. -/
def paintView (globalId : GlobalElementId)
    (element : Option (ViewElementState Style) → Window Style → Window Style)
    (window : Window Style) : Window Style :=
  let (state, window) := window.takeState globalId
  let after := element state window
  after.putState globalId
    (state.map fun state => { state with paintRange := (window.paintIndex, after.paintIndex) })

/-- Paint an element. -/
def Painting.paint : Painting → Window Style → Window Style
  | empty, window => window
  | both first second, window => second.paint (first.paint window)
  | hitbox inserted mouseCursor windowControl, window =>
    let window :=
      match mouseCursor with
      | some style => window.setCursorStyle style inserted
      | none => window
    match windowControl with
    | some area => window.insertWindowControlHitbox area inserted
    | none => window
  | rendered globalId child, window =>
    paintView globalId
      (fun _ window => (window.whileRefreshing fun window => ((), child.paint window)).2) window
  | reused globalId, window =>
    paintView globalId
      (fun state window =>
        match state with
        | some state => window.reusePaint state.paintRange
        | none => window) window

/-- One pass of the loop of `paint_deferred_draws`. -/
def paintDeferredDraw (ix : ℕ) (window : Window Style) : Window Style :=
  match window.nextFrame.deferredDraws[ix]? with
  | none => window
  | some draw =>
    let after :=
      match draw.element with
      | some (.prepainted painting) =>
        (window.withContentMask draw.contentMask fun window => ((), painting.paint window)).2
      | some (.requested _) => window
      | none => window.reusePaint draw.paintRange
    after.modifyDraw ix fun draw =>
      { draw with paintRange := (window.paintIndex, after.paintIndex) }

/-- `paint_deferred_draws`. -/
def paintDeferredDraws (window : Window Style) : Window Style :=
  (traversalOrder 0 window.nextFrame.deferredDraws.length window).foldl
    (fun window ix => paintDeferredDraw ix window) window

/-! ### Frames after frames -/

/-- What a frame brings: its elements, the views that were notified and whether it refreshes. -/
structure FrameInput (Style : Type) where
  viewport : ContentMask
  root : Element Style
  dirtyViews : List EntityId
  refreshing : Bool

/-- A window before its first frame. -/
def Window.new : Window Style where
  viewport := ⟨⟨⟨0, 0⟩, ⟨0, 0⟩⟩⟩
  contentMaskStack := []
  dirtyViews := []
  refreshing := false
  nextHitboxId := 0
  renderedFrame := .new
  nextFrame := .new

/-- The window as it starts to draw a frame. -/
def Window.begin (frame : FrameInput Style) (self : Window Style) : Window Style :=
  { self with
    viewport := frame.viewport
    contentMaskStack := []
    dirtyViews := frame.dirtyViews
    refreshing := frame.refreshing }

/-- `draw`: `draw_roots`, and the swap of the frames.  There is no result when deferred draws are
nested too deeply. -/
def drawFrame [DecidableEq Style] (frame : FrameInput Style) (window : Window Style) :
    Option (Window Style) :=
  let (root, window) := frame.root.prepaint (window.begin frame)
  (prepaintDeferredDraws window).map fun window =>
    let window := paintDeferredDraws (root.paint window)
    { window with
      renderedFrame := Frame.finish window.renderedFrame window.nextFrame
      nextFrame := .new }

/-- The last frame of a run. -/
def lastFrame [DecidableEq Style] (frames : List (FrameInput Style)) : Option (Frame Style) :=
  (frames.foldlM (fun window frame => drawFrame frame window) Window.new).map Window.renderedFrame

end Drawing

end Zui
