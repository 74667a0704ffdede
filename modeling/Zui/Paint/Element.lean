/-
Elements, views and the cache of a view.

An element is prepainted, which settles what it paints, and then painted.  Both walk down
the tree through the scopes that the element puts around its children.  A cached view
keeps in its element state what it was rendered for and where in the scene its operations
are; while they still apply it is not rendered, and the operations are replayed.

Design notes:

* a `Prepaint` and a `Painting` are the code of an element in the two phases; what code
  may read of the scopes around it is a `Readable`;
* the element states of the frame that was rendered last and of the next one are one
  table, and the states that a frame does not touch stay in it;
* of a range of indices only that into the scene is kept.

Main statements:

* `prepaint_spec` — a tree that is prepainted while the window refreshes is rendered
  throughout, for the scopes around it;
* `paint_spec` — painting a tree that is rendered throughout records its operations.
-/
import Zui.Paint.Calls

namespace Zui.Gpui

variable {Style : Type} [Inhabited Style]

/-- The code that one element runs when it is painted. -/
inductive PaintCode (Style : Type)
  | empty
  /-- One after the other. -/
  | both (first second : PaintCode Style)
  /-- A paint method. -/
  | call (call : PaintCall)
  /-- What the code goes on with, from what it reads. -/
  | read (code : Readable Style → PaintCode Style)
  /-- `paint_layer`. -/
  | layer (bounds : Bounds ℚ) (code : PaintCode Style)
  /-- A scope around the code. -/
  | inScope (scope : Scope Style) (code : PaintCode Style)

/-- What an element with its children does when it is painted. -/
inductive Painting (Style : Type)
  | empty
  | both (first second : Painting Style)
  | code (code : PaintCode Style)
  | layer (bounds : Bounds ℚ) (child : Painting Style)
  /-- A scope around a child. -/
  | inScope (scope : Scope Style) (child : Painting Style)
  /-- A cached view that was rendered: `ViewElement` with `Some(element)`. -/
  | rendered (entityId : ℕ) (child : Painting Style)
  /-- A cached view that was not: `ViewElement` with `None`. -/
  | reused (entityId : ℕ)

/-- What an element does when it is prepainted. -/
inductive Prepaint (Style : Type)
  | empty
  | both (first second : Prepaint Style)
  /-- The code is run when the element is painted. -/
  | code (code : PaintCode Style)
  /-- An element that is built, rendered or laid out from what the code reads. -/
  | build (element : Readable Style → Prepaint Style)
  | layer (bounds : Bounds ℚ) (child : Prepaint Style)
  /-- A scope around the child, while it is prepainted and while it is painted. -/
  | inScope (scope : Scope Style) (child : Prepaint Style)
  /-- A scope around the child while it is prepainted. -/
  | prepaintScoped (scope : Scope Style) (child : Prepaint Style)
  /-- A scope around the child while it is painted. -/
  | paintScoped (scope : Scope Style) (child : Prepaint Style)
  /-- `ViewElement` of a cached view with its bounds. -/
  | cached (entityId : ℕ) (bounds : Bounds ℚ) (view : Readable Style → Prepaint Style)

/-- `ViewElementCacheKey`. -/
structure ViewElementCacheKey (Style : Type) where
  bounds : Bounds ℚ
  contentMask : ContentMask
  textStyle : Style
  deriving DecidableEq

/-- `ViewElementState`. -/
structure ViewElementState (Style : Type) where
  paintRange : ℕ × ℕ
  cacheKey : ViewElementCacheKey Style

/-! ### What is painted, as a function of the scopes -/

/-- The operations of a layer around `operations`. -/
def layerOperations (display : Display) (ambient : Ambient Style) (bounds : Bounds ℚ)
    (operations : List PaintOperation) : List PaintOperation :=
  let clippedBounds := bounds.intersect ambient.contentMask.bounds
  if clippedBounds.isEmpty then operations
  else .startLayer (display.coverBounds clippedBounds) :: operations ++ [.endLayer]

variable (display : Display) in
/-- The operations that the code records for the scopes around it. -/
def PaintCode.operations : PaintCode Style → Ambient Style → List PaintOperation
  | .empty, _ => []
  | .both first second, ambient => first.operations ambient ++ second.operations ambient
  | .call c, ambient => (c.operations display ambient).filter PaintOperation.visible
  | .read code, ambient => (code ambient.readable).operations ambient
  | .layer bounds code, ambient =>
    layerOperations display ambient bounds (code.operations ambient)
  | .inScope scope code, ambient => code.operations (ambient.push scope)

variable (display : Display) in
/-- The operations that painting records for the scopes around it. -/
def Painting.operations : Painting Style → Ambient Style → List PaintOperation
  | .empty, _ => []
  | .both first second, ambient => first.operations ambient ++ second.operations ambient
  | .code c, ambient => c.operations display ambient
  | .layer bounds child, ambient =>
    layerOperations display ambient bounds (child.operations ambient)
  | .inScope scope child, ambient => child.operations (ambient.push scope)
  | .rendered _ child, ambient => child.operations ambient
  | .reused _, _ => []

/-- What an element paints when all of it is rendered for the scopes around it. -/
def Prepaint.painting : Prepaint Style → Ambient Style → Painting Style
  | .empty, _ => .empty
  | .both first second, ambient => .both (first.painting ambient) (second.painting ambient)
  | .code c, _ => .code c
  | .build element, ambient => (element ambient.readable).painting ambient
  | .layer bounds child, ambient => .layer bounds (child.painting ambient)
  | .inScope scope child, ambient => .inScope scope (child.painting (ambient.push scope))
  | .prepaintScoped scope child, ambient => child.painting (ambient.push scope)
  | .paintScoped scope child, ambient => .inScope scope (child.painting ambient)
  | .cached entityId _ view, ambient =>
    .rendered entityId ((view ambient.readable).painting ambient)

/-- Every view of the painting was rendered, and its element state is there. -/
def Painting.Stored :
    Painting Style → List ℕ → (List ℕ → Option (ViewElementState Style)) → Prop
  | .empty, _, _ => True
  | .both first second, ids, states => first.Stored ids states ∧ second.Stored ids states
  | .code _, _, _ => True
  | .layer _ child, ids, states => child.Stored ids states
  | .inScope _ child, ids, states => child.Stored ids states
  | .rendered entityId child, ids, states =>
    (states (entityId :: ids)).isSome ∧ child.Stored (entityId :: ids) states
  | .reused _, _, _ => False

omit [Inhabited Style] in
theorem Painting.Stored.mono {states states' : List ℕ → Option (ViewElementState Style)}
    (hstates : ∀ id, (states id).isSome → (states' id).isSome) {painting : Painting Style}
    {ids : List ℕ} (h : painting.Stored ids states) : painting.Stored ids states' := by
  induction painting generalizing ids with
  | empty => trivial
  | both first second ih ih' => exact ⟨ih h.1, ih' h.2⟩
  | code => trivial
  | layer _ child ih => exact ih h
  | inScope _ child ih => exact ih h
  | rendered entityId child ih => exact ⟨hstates _ h.1, ih h.2⟩
  | reused => exact h.elim

omit [Inhabited Style] in
theorem layerOperations_visible {display : Display} {ambient : Ambient Style}
    {bounds : Bounds ℚ} {operations : List PaintOperation}
    (h : ∀ operation ∈ operations, operation.visible = true) :
    ∀ operation ∈ layerOperations display ambient bounds operations,
      operation.visible = true := by
  intro operation hmem
  simp only [layerOperations] at hmem
  split at hmem
  · exact h _ hmem
  · simp only [List.cons_append, List.mem_cons, List.mem_append, List.not_mem_nil,
      or_false] at hmem
    rcases hmem with rfl | hmem | rfl
    · rfl
    · exact h _ hmem
    · rfl

theorem PaintCode.operations_visible (display : Display) (code : PaintCode Style)
    (ambient : Ambient Style) :
    ∀ operation ∈ code.operations display ambient, operation.visible = true := by
  induction code generalizing ambient with
  | empty => simp [operations]
  | both first second ih ih' =>
    intro operation h
    rcases List.mem_append.mp h with h | h
    · exact ih _ _ h
    · exact ih' _ _ h
  | call c =>
    intro operation h
    exact (List.mem_filter.mp h).2
  | read code ih => exact ih _ _
  | layer bounds code ih => exact layerOperations_visible (ih _)
  | inScope scope code ih => exact ih _

theorem Painting.operations_visible (display : Display) (painting : Painting Style)
    (ambient : Ambient Style) :
    ∀ operation ∈ painting.operations display ambient, operation.visible = true := by
  induction painting generalizing ambient with
  | empty => simp [operations]
  | both first second ih ih' =>
    intro operation h
    rcases List.mem_append.mp h with h | h
    · exact ih _ _ h
    · exact ih' _ _ h
  | code c => exact c.operations_visible display ambient
  | layer bounds child ih => exact layerOperations_visible (ih _)
  | inScope scope child ih => exact ih _
  | rendered entityId child ih => exact ih _
  | reused => simp [operations]

theorem layerOperations_congr {display : Display} {a b : Ambient Style}
    (h : a.readable = b.readable) (bounds : Bounds ℚ) (operations : List PaintOperation) :
    layerOperations display a bounds operations = layerOperations display b bounds operations := by
  have hmask : a.contentMask = b.contentMask := congrArg Readable.contentMask h
  rw [layerOperations, layerOperations, hmask]

theorem PaintCode.operations_congr {display : Display} (code : PaintCode Style)
    {a b : Ambient Style} (h : a.baked display = b.baked display) :
    code.operations display a = code.operations display b := by
  have hreadable {a b : Ambient Style} (h : a.baked display = b.baked display) :
      a.readable = b.readable := congrArg Baked.readable h
  induction code generalizing a b with
  | empty => rfl
  | both first second ih ih' => exact congrArg₂ List.append (ih h) (ih' h)
  | call c => exact congrArg (List.filter _) (c.operations_congr h)
  | read code ih =>
    rw [operations, operations, hreadable h]
    exact ih _ h
  | layer bounds code ih =>
    rw [operations, operations, ih h, layerOperations_congr (hreadable h)]
  | inScope scope code ih => exact ih (Ambient.push_baked h scope)

theorem Painting.operations_congr {display : Display} (painting : Painting Style)
    {a b : Ambient Style} (h : a.baked display = b.baked display) :
    painting.operations display a = painting.operations display b := by
  induction painting generalizing a b with
  | empty => rfl
  | both first second ih ih' => exact congrArg₂ List.append (ih h) (ih' h)
  | code c => exact c.operations_congr h
  | layer bounds child ih =>
    rw [operations, operations, ih h, layerOperations_congr (congrArg Baked.readable h)]
  | inScope scope child ih => exact ih (Ambient.push_baked h scope)
  | rendered entityId child ih => exact ih h
  | reused => rfl

theorem Prepaint.painting_congr (element : Prepaint Style) {a b : Ambient Style}
    (h : a.readable = b.readable) : element.painting a = element.painting b := by
  induction element generalizing a b with
  | empty => rfl
  | both first second ih ih' => exact congrArg₂ Painting.both (ih h) (ih' h)
  | code => rfl
  | build element ih =>
    rw [painting, painting, h]
    exact ih _ h
  | layer bounds child ih => exact congrArg (Painting.layer bounds) (ih h)
  | inScope scope child ih =>
    exact congrArg (Painting.inScope scope) (ih (Ambient.push_readable h scope))
  | prepaintScoped scope child ih => exact ih (Ambient.push_readable h scope)
  | paintScoped scope child ih => exact congrArg (Painting.inScope scope) (ih h)
  | cached entityId bounds view ih =>
    rw [painting, painting, h]
    exact congrArg (Painting.rendered entityId) (ih _ h)

/-! ### Views -/

/-- A window while it draws. -/
structure Window (Style : Type) where
  ambient : Ambient Style
  elementIdStack : List ℕ
  dirtyViews : List ℕ
  refreshing : Bool
  /-- `next_frame.scene`. -/
  scene : Scene
  /-- `rendered_frame.scene`. -/
  renderedScene : Scene
  elementStates : List ℕ → Option (ViewElementState Style)

namespace Window

/-- The body of `with_content_mask` and of the other methods that put a scope around what
they run. -/
def within {α : Type} (scope : Scope Style) (body : Window Style → α × Window Style)
    (window : Window Style) : α × Window Style :=
  let (result, after) := body { window with ambient := window.ambient.push scope }
  (result, { after with ambient := window.ambient })

/-- `with_id`. -/
def withId {α : Type} (elementId : ℕ) (body : Window Style → α × Window Style)
    (window : Window Style) : α × Window Style :=
  let (result, after) := body { window with elementIdStack := elementId :: window.elementIdStack }
  (result, { after with elementIdStack := window.elementIdStack })

/-- Run with `refreshing` set, as `mem::replace(&mut window.refreshing, true)` does. -/
def whileRefreshing {α : Type} (body : Window Style → α × Window Style)
    (window : Window Style) : α × Window Style :=
  let (result, after) := body { window with refreshing := true }
  (result, { after with refreshing := window.refreshing })

/-- The element state at the current place is replaced. -/
def setElementState (window : Window Style) (state : ViewElementState Style) : Window Style :=
  { window with
    elementStates := fun id =>
      if id = window.elementIdStack then some state else window.elementStates id }

/-- Insert the operations into the scene. -/
def insertAll (window : Window Style) (operations : List PaintOperation) : Window Style :=
  { window with scene := window.scene.insertAll operations }

end Window

variable [DecidableEq Style]

/-- The key of a cached view at its bounds, for the scopes around it. -/
def cacheKey (ambient : Ambient Style) (bounds : Bounds ℚ) : ViewElementCacheKey Style :=
  ⟨bounds, ambient.contentMask, ambient.textStyle⟩

/-- The test of `ViewElement::prepaint` for a view that need not be rendered. -/
def reusable (window : Window Style) (entityId : ℕ) (bounds : Bounds ℚ) : Bool :=
  match window.elementStates window.elementIdStack with
  | some state =>
    state.cacheKey = cacheKey window.ambient bounds && !window.dirtyViews.contains entityId &&
      !window.refreshing
  | none => false

/-- `ViewElement::prepaint` of a cached view; `render` renders it and prepaints the element. -/
def prepaintView (entityId : ℕ) (bounds : Bounds ℚ)
    (render : Window Style → Painting Style × Window Style) (window : Window Style) :
    Painting Style × Window Style :=
  if reusable window entityId bounds then (.reused entityId, window)
  else
    let (child, after) := window.whileRefreshing render
    (.rendered entityId child,
      after.setElementState ⟨(0, 0), cacheKey window.ambient bounds⟩)

namespace Prepaint

/-- Prepaint an element. -/
def prepaint : Prepaint Style → Window Style → Painting Style × Window Style
  | empty, window => (.empty, window)
  | both first second, window =>
    let (first, window) := first.prepaint window
    let (second, window) := second.prepaint window
    (.both first second, window)
  | code c, window => (.code c, window)
  | build element, window => (element window.ambient.readable).prepaint window
  | layer bounds child, window =>
    let (child, window) := child.prepaint window
    (.layer bounds child, window)
  | inScope scope child, window =>
    let (child, window) := window.within scope child.prepaint
    (.inScope scope child, window)
  | prepaintScoped scope child, window => window.within scope child.prepaint
  | paintScoped scope child, window =>
    let (child, window) := child.prepaint window
    (.inScope scope child, window)
  | cached entityId bounds view, window =>
    window.withId entityId <| prepaintView entityId bounds fun window =>
      (view window.ambient.readable).prepaint window

end Prepaint

/-- `ViewElement::paint` of a cached view; `element` paints it or replays its operations. -/
def paintView (element : ViewElementState Style → Window Style → Window Style)
    (window : Window Style) : Window Style :=
  match window.elementStates window.elementIdStack with
  -- `unwrap`: prepainting has put a state there.
  | none => window
  | some state =>
    let after := element state window
    after.setElementState { state with paintRange := (window.scene.len, after.scene.len) }

/-- `reuse_paint`. -/
def reusePaint (range : ℕ × ℕ) (window : Window Style) : Window Style :=
  { window with scene := window.scene.replay range window.renderedScene }

/-- `paint_layer`. -/
def paintLayer (display : Display) (bounds : Bounds ℚ) (body : Window Style → Window Style)
    (window : Window Style) : Window Style :=
  let clippedBounds := bounds.intersect window.ambient.contentMask.bounds
  if clippedBounds.isEmpty then body window
  else
    let window := window.insertAll [.startLayer (display.coverBounds clippedBounds)]
    (body window).insertAll [.endLayer]

/-- Run the code of one element. -/
def PaintCode.run (display : Display) : PaintCode Style → Window Style → Window Style
  | empty, window => window
  | both first second, window => second.run display (first.run display window)
  | call c, window => window.insertAll (c.operations display window.ambient)
  | read code, window => (code window.ambient.readable).run display window
  | layer bounds code, window => paintLayer display bounds (code.run display) window
  | inScope scope code, window =>
    (window.within scope fun window => ((), code.run display window)).2

namespace Painting

/-- Paint an element. -/
def paint (display : Display) : Painting Style → Window Style → Window Style
  | empty, window => window
  | both first second, window => second.paint display (first.paint display window)
  | code c, window => c.run display window
  | layer bounds child, window => paintLayer display bounds (child.paint display) window
  | inScope scope child, window =>
    (window.within scope fun window => ((), child.paint display window)).2
  | rendered entityId child, window =>
    (window.withId entityId fun window =>
      ((), paintView (fun _ window =>
        (window.whileRefreshing fun window => ((), child.paint display window)).2) window)).2
  | reused entityId, window =>
    (window.withId entityId fun window =>
      ((), paintView (fun state window => reusePaint state.paintRange window) window)).2

end Painting

/-! ### Rendering throughout -/

theorem reusable_of_refreshing {window : Window Style} (h : window.refreshing = true)
    (entityId : ℕ) (bounds : Bounds ℚ) : reusable window entityId bounds = false := by
  rw [reusable]
  split <;> simp [h]

/-- While the window refreshes, prepainting renders the whole element: nothing of the
window but the element states changes, and those that are needed are there. -/
def Prepaint.RendersAll (element : Prepaint Style) : Prop :=
  ∀ window : Window Style, window.refreshing = true →
    ∃ states, element.prepaint window =
        (element.painting window.ambient, { window with elementStates := states }) ∧
      (∀ id, (window.elementStates id).isSome → (states id).isSome) ∧
      (element.painting window.ambient).Stored window.elementIdStack states

/-- A cached view that is not reused is rendered as a whole, and its state keeps its key. -/
theorem cached_prepaint {entityId : ℕ} {bounds : Bounds ℚ} {view : Readable Style → Prepaint Style}
    (hview : ∀ readable, (view readable).RendersAll) {window : Window Style}
    (h : reusable { window with elementIdStack := entityId :: window.elementIdStack } entityId
      bounds = false) :
    ∃ states, (Prepaint.cached entityId bounds view).prepaint window =
        ((Prepaint.cached entityId bounds view).painting window.ambient,
          { window with elementStates := states }) ∧
      (∀ id, (window.elementStates id).isSome → (states id).isSome) ∧
      ((Prepaint.cached entityId bounds view).painting window.ambient).Stored
        window.elementIdStack states ∧
      states (entityId :: window.elementIdStack) =
        some ⟨(0, 0), cacheKey window.ambient bounds⟩ := by
  obtain ⟨states, heq, hmono, hstored⟩ :=
    hview window.ambient.readable
      { window with
        elementIdStack := entityId :: window.elementIdStack
        refreshing := true } rfl
  -- The state of the view itself is put into the table last.
  have hset (id : List ℕ) (hid : (states id).isSome) :
      (if id = entityId :: window.elementIdStack then
        some (ViewElementState.mk (0, 0) (cacheKey window.ambient bounds))
      else states id).isSome := by
    split
    · rfl
    · exact hid
  refine ⟨fun id => if id = entityId :: window.elementIdStack then
    some (ViewElementState.mk (0, 0) (cacheKey window.ambient bounds)) else states id,
    ?_, fun id hid => hset id (hmono id hid), ⟨by simp, hstored.mono hset⟩, by simp⟩
  simp only [Prepaint.prepaint, Window.withId, prepaintView, h, Bool.false_eq_true, if_false,
    Window.whileRefreshing, heq, Prepaint.painting]
  rfl

theorem cached_reused {entityId : ℕ} {bounds : Bounds ℚ} {view : Readable Style → Prepaint Style}
    {window : Window Style}
    (h : reusable { window with elementIdStack := entityId :: window.elementIdStack } entityId
      bounds = true) :
    (Prepaint.cached entityId bounds view).prepaint window = (.reused entityId, window) := by
  simp only [Prepaint.prepaint, Window.withId, prepaintView, h, if_true]

/-- A tree that is prepainted while the window refreshes is rendered throughout. -/
theorem prepaint_spec (element : Prepaint Style) : element.RendersAll := by
  intro window h
  induction element generalizing window with
  | empty => exact ⟨_, rfl, fun _ => id, trivial⟩
  | both first second ih ih' =>
    obtain ⟨states, heq, hmono, hstored⟩ := ih window h
    obtain ⟨states', heq', hmono', hstored'⟩ :=
      ih' { window with elementStates := states } h
    refine ⟨states', ?_, fun id hid => hmono' id (hmono id hid), hstored.mono hmono', hstored'⟩
    simp only [Prepaint.prepaint, heq, heq', Prepaint.painting]
  | code => exact ⟨_, rfl, fun _ => id, trivial⟩
  | build element ih => exact ih _ window h
  | layer bounds child ih =>
    obtain ⟨states, heq, hmono, hstored⟩ := ih window h
    refine ⟨states, ?_, hmono, hstored⟩
    rw [Prepaint.prepaint, heq]
    rfl
  | inScope scope child ih =>
    obtain ⟨states, heq, hmono, hstored⟩ :=
      ih { window with ambient := window.ambient.push scope } h
    refine ⟨states, ?_, hmono, hstored⟩
    rw [Prepaint.prepaint, Window.within, heq]
    rfl
  | prepaintScoped scope child ih =>
    obtain ⟨states, heq, hmono, hstored⟩ :=
      ih { window with ambient := window.ambient.push scope } h
    refine ⟨states, ?_, hmono, hstored⟩
    rw [Prepaint.prepaint, Window.within, heq]
    rfl
  | paintScoped scope child ih =>
    obtain ⟨states, heq, hmono, hstored⟩ := ih window h
    refine ⟨states, ?_, hmono, hstored⟩
    rw [Prepaint.prepaint, heq]
    rfl
  | cached entityId bounds view ih =>
    have hreusable :
        reusable { window with elementIdStack := entityId :: window.elementIdStack } entityId
          bounds = false := by
      apply reusable_of_refreshing
      exact h
    obtain ⟨states, heq, hmono, hstored, -⟩ := cached_prepaint ih hreusable
    exact ⟨states, heq, hmono, hstored⟩

/-- Painting records the operations of the painting after those that are there: nothing
else of the window but the element states changes. -/
def Painting.Records (display : Display) (painting : Painting Style) : Prop :=
  ∀ window : Window Style, painting.Stored window.elementIdStack window.elementStates →
    ∃ states, painting.paint display window =
        { window with
          scene := ⟨window.scene.paintOperations ++ painting.operations display window.ambient⟩
          elementStates := states } ∧
      ∀ id, (window.elementStates id).isSome → (states id).isSome

omit [DecidableEq Style] in
/-- A view that was rendered records its operations, and its state where they are. -/
theorem rendered_paint {display : Display} {entityId : ℕ} {child : Painting Style}
    (hchild : child.Records display) {window : Window Style}
    (h : (Painting.rendered entityId child).Stored window.elementIdStack window.elementStates) :
    ∃ states, (Painting.rendered entityId child).paint display window =
        { window with
          scene := ⟨window.scene.paintOperations ++ child.operations display window.ambient⟩
          elementStates := states } ∧
      (∀ id, (window.elementStates id).isSome → (states id).isSome) ∧
      ∀ state, window.elementStates (entityId :: window.elementIdStack) = some state →
        states (entityId :: window.elementIdStack) =
          some { state with
            paintRange := (window.scene.len,
              window.scene.len + (child.operations display window.ambient).length) } := by
  obtain ⟨hstate, hstored⟩ := h
  obtain ⟨state, hstate⟩ := Option.isSome_iff_exists.mp hstate
  obtain ⟨states, heq, hmono⟩ :=
    hchild
      { window with
        elementIdStack := entityId :: window.elementIdStack
        refreshing := true } hstored
  refine ⟨fun id => if id = entityId :: window.elementIdStack then
      some { state with
        paintRange := (window.scene.len,
          window.scene.len + (child.operations display window.ambient).length) }
    else states id, ?_, fun id hid => ?_, fun state' hstate' => ?_⟩
  · simp only [Painting.paint, Window.withId, paintView, hstate, Window.whileRefreshing, heq,
      Window.setElementState, Scene.len, List.length_append]
  · dsimp only
    split
    · rfl
    · exact hmono id hid
  · obtain rfl : state = state' := Option.some.inj (hstate.symm.trans hstate')
    exact if_pos rfl

omit [Inhabited Style] [DecidableEq Style] in
theorem paintLayer_spec (display : Display) (bounds : Bounds ℚ)
    {body : Window Style → Window Style} {window : Window Style}
    {operations : List PaintOperation}
    {Holds : (List ℕ → Option (ViewElementState Style)) → Prop}
    (h : ∀ scene : Scene, ∃ states, body { window with scene := scene } =
        { window with
          scene := ⟨scene.paintOperations ++ operations⟩
          elementStates := states } ∧
      Holds states) :
    ∃ states, paintLayer display bounds body window =
        { window with
          scene := ⟨window.scene.paintOperations ++
            layerOperations display window.ambient bounds operations⟩
          elementStates := states } ∧
      Holds states := by
  simp only [paintLayer, layerOperations]
  split
  · exact h window.scene
  · let start := PaintOperation.startLayer
      (display.coverBounds (bounds.intersect window.ambient.contentMask.bounds))
    obtain ⟨states, heq, hholds⟩ := h ⟨window.scene.paintOperations ++ [start]⟩
    refine ⟨states, ?_, hholds⟩
    have hstart : window.insertAll [start] =
      { window with scene := ⟨window.scene.paintOperations ++ [start]⟩ } := rfl
    rw [hstart, heq]
    simp [Window.insertAll, Scene.insertAll, Scene.insert, Scene.popLayer, Scene.record, start]

omit [DecidableEq Style] in
theorem PaintCode.run_eq (display : Display) (code : PaintCode Style) (window : Window Style) :
    code.run display window =
      { window with
        scene := ⟨window.scene.paintOperations ++ code.operations display window.ambient⟩ } := by
  induction code generalizing window with
  | empty => simp [run, operations]
  | both first second ih ih' =>
    rw [run, ih, ih']
    simp only [operations, List.append_assoc]
  | call c => rw [run, Window.insertAll, Scene.insertAll_eq, operations]
  | read code ih => exact ih _ window
  | layer bounds code ih =>
    have hbody (scene : Scene) : ∃ states, code.run display { window with scene := scene } =
          { window with
            scene := ⟨scene.paintOperations ++ code.operations display window.ambient⟩
            elementStates := states } ∧
        states = window.elementStates := ⟨_, ih _, rfl⟩
    obtain ⟨states, heq, rfl⟩ := paintLayer_spec display bounds hbody
    exact heq
  | inScope scope code ih =>
    simp only [run, Window.within, ih, operations]

omit [DecidableEq Style] in
/-- Painting a tree that is rendered throughout records its operations. -/
theorem paint_spec (display : Display) (painting : Painting Style) : painting.Records display := by
  intro window h
  induction painting generalizing window with
  | empty =>
    exact ⟨window.elementStates, by simp [Painting.paint, Painting.operations], fun _ => id⟩
  | both first second ih ih' =>
    obtain ⟨states, heq, hmono⟩ := ih window h.1
    obtain ⟨states', heq', hmono'⟩ := ih' (first.paint display window)
      (by rw [heq]; exact h.2.mono hmono)
    rw [heq] at heq' hmono'
    refine ⟨states', ?_, fun id hid => hmono' id (hmono id hid)⟩
    rw [Painting.paint, heq, heq']
    simp only [Painting.operations, List.append_assoc]
  | code c => exact ⟨window.elementStates, c.run_eq display window, fun _ => id⟩
  | layer bounds child ih =>
    exact paintLayer_spec display bounds fun scene => ih { window with scene := scene } h
  | inScope scope child ih =>
    obtain ⟨states, heq, hmono⟩ :=
      ih { window with ambient := window.ambient.push scope } h
    refine ⟨states, ?_, hmono⟩
    simp only [Painting.paint, Window.within, heq, Painting.operations]
  | rendered entityId child ih =>
    obtain ⟨states, heq, hmono, -⟩ := rendered_paint ih h
    exact ⟨states, heq, hmono⟩
  | reused => exact h.elim

end Zui.Gpui
