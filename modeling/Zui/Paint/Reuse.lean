/-
Reusing a cached view against rendering it again.

A cached view is drawn in one frame after the other, each time between other things and
inside other scopes.  In each frame it is reused or rendered, as `ViewElement` decides;
what it contributes to the scene is compared with what it contributes when the window
refreshes, which renders it.

Main statements:

* `drawFrame_spec` — a frame contributes the recorded operations or those of a new
  rendering, and records what it contributes;
* `transparent_iff` — the frames of every view are as if it was rendered in each of them
  exactly if the scopes that are not in the cache key stay as they are when it is reused;
* `transparent_fails` — they are not when the opacity around the view changes.
-/
import Zui.Paint.Element

namespace Zui.Gpui

variable {Style : Type} [Inhabited Style] [DecidableEq Style]

/-- The code of a view: what it renders at its bounds. -/
abbrev View (Style : Type) : Type := Bounds ℚ → Readable Style → Prepaint Style

/-- What a frame brings to a cached view. -/
structure FrameInput (Style : Type) where
  /-- The bounds that the layout gives to the view. -/
  bounds : Bounds ℚ
  dirtyViews : List ℕ
  refreshing : Bool
  /-- The scopes around the view when it is prepainted. -/
  prepaintScopes : Ambient Style
  /-- The scopes around the view when it is painted. -/
  paintScopes : Ambient Style
  /-- What is painted before the view. -/
  before : List PaintOperation
  /-- What is painted after the view. -/
  after : List PaintOperation

/-- A window that has not drawn the view yet, which is inside the elements `ids`. -/
def Window.new (ambient : Ambient Style) (ids : List ℕ) : Window Style where
  ambient := ambient
  elementIdStack := ids
  dirtyViews := []
  refreshing := false
  scene := {}
  renderedScene := {}
  elementStates := fun _ => none

/-- The window at the view in the next frame, for which it has swapped its two frames. -/
def beginFrame (window : Window Style) (frame : FrameInput Style) : Window Style :=
  { window with
    ambient := frame.prepaintScopes
    dirtyViews := frame.dirtyViews
    refreshing := frame.refreshing
    renderedScene := window.scene
    scene := {} }

/-- Draw the next frame, and what the view contributes to its scene. -/
def drawFrame (display : Display) (entityId : ℕ) (view : View Style) (window : Window Style)
    (frame : FrameInput Style) : Window Style × List PaintOperation :=
  let (painting, window) :=
    (Prepaint.cached entityId frame.bounds (view frame.bounds)).prepaint (beginFrame window frame)
  let window := { window with ambient := frame.paintScopes, scene := ⟨frame.before⟩ }
  let window := painting.paint display window
  ({ window with scene := ⟨window.scene.paintOperations ++ frame.after⟩ },
    window.scene.paintOperations.drop frame.before.length)

/-- In every frame the view contributes what it contributes when it is rendered again. -/
def Transparent (display : Display) (entityId : ℕ) (view : View Style) :
    Window Style → List (FrameInput Style) → Prop
  | _, [] => True
  | window, frame :: frames =>
    (drawFrame display entityId view window frame).2 =
        (drawFrame display entityId view window { frame with refreshing := true }).2 ∧
      Transparent display entityId view (drawFrame display entityId view window frame).1 frames

/-- The view is not rendered for `next` after `frame`. -/
def Reuses (entityId : ℕ) (frame next : FrameInput Style) : Prop :=
  cacheKey frame.prepaintScopes frame.bounds = cacheKey next.prepaintScopes next.bounds ∧
    entityId ∉ next.dirtyViews ∧ next.refreshing = false

/-- The scopes around the view are the same in both frames, as far as painting sees them
and the cache key leaves them out. -/
structure SameScopes (display : Display) (frame next : FrameInput Style) : Prop where
  remSize : frame.prepaintScopes.remSize = next.prepaintScopes.remSize
  baked : frame.paintScopes.baked display = next.paintScopes.baked display

/-! ### One frame -/

/-- What rendering the view in a frame contributes. -/
def renders (display : Display) (view : View Style) (frame : FrameInput Style) :
    List PaintOperation :=
  ((view frame.bounds frame.prepaintScopes.readable).painting frame.prepaintScopes).operations
    display frame.paintScopes

/-- The window has drawn `frame`, to which the view has contributed `operations`. -/
structure Drawn (entityId : ℕ) (window : Window Style) (frame : FrameInput Style)
    (operations : List PaintOperation) : Prop where
  scene : window.scene = ⟨frame.before ++ operations ++ frame.after⟩
  state : window.elementStates (entityId :: window.elementIdStack) =
    some ⟨(frame.before.length, frame.before.length + operations.length),
      cacheKey frame.prepaintScopes frame.bounds⟩
  visible : ∀ operation ∈ operations, operation.visible = true

/-- The window at the element of the view. -/
def atView (entityId : ℕ) (window : Window Style) (frame : FrameInput Style) : Window Style :=
  { beginFrame window frame with elementIdStack := entityId :: window.elementIdStack }

theorem drawFrame_rendered (display : Display) {entityId : ℕ} (view : View Style)
    {window : Window Style} {frame : FrameInput Style}
    (h : reusable (atView entityId window frame) entityId frame.bounds = false) :
    (drawFrame display entityId view window frame).2 = renders display view frame ∧
      Drawn entityId (drawFrame display entityId view window frame).1 frame
        (renders display view frame) := by
  obtain ⟨states, hprepaint, -, hstored, hstate⟩ :=
    cached_prepaint (fun readable => prepaint_spec (view frame.bounds readable)) h
  obtain ⟨states', hpaint, -, hstate'⟩ :=
    rendered_paint (paint_spec display _)
      (show (Painting.rendered entityId _).Stored
        ({ beginFrame window frame with
          ambient := frame.paintScopes
          scene := ⟨frame.before⟩
          elementStates := states } : Window Style).elementIdStack states from hstored)
  have hdraw : drawFrame display entityId view window frame =
      ({ beginFrame window frame with
          ambient := frame.paintScopes
          scene := ⟨frame.before ++ renders display view frame ++ frame.after⟩
          elementStates := states' },
        renders display view frame) := by
    simp only [drawFrame]
    rw [hprepaint]
    dsimp only
    rw [Prepaint.painting, hpaint]
    simp [renders, beginFrame]
  rw [hdraw]
  refine ⟨rfl, rfl, ?_, Painting.operations_visible display _ _⟩
  exact hstate' _ hstate

/-- A view that is reused contributes what was recorded. -/
theorem drawFrame_reused (display : Display) {entityId : ℕ} (view : View Style)
    {window : Window Style} {frame next : FrameInput Style} {operations : List PaintOperation}
    (hdrawn : Drawn entityId window frame operations) (hreuses : Reuses entityId frame next)
    (h : reusable (atView entityId window next) entityId next.bounds = true) :
    (drawFrame display entityId view window next).2 = operations ∧
      Drawn entityId (drawFrame display entityId view window next).1 next operations := by
  have hprepaint :
      (Prepaint.cached entityId next.bounds (view next.bounds)).prepaint (beginFrame window next) =
        (.reused entityId, beginFrame window next) :=
    cached_reused h
  have hreplay : Scene.replay ⟨next.before⟩
      (frame.before.length, frame.before.length + operations.length) window.scene =
        ⟨next.before ++ operations⟩ := by
    rw [hdrawn.scene]
    exact Scene.replay_eq ⟨next.before⟩ hdrawn.visible
  have hpaint : (Painting.reused entityId).paint display
      { beginFrame window next with ambient := next.paintScopes, scene := ⟨next.before⟩ } =
      { beginFrame window next with
        ambient := next.paintScopes
        scene := ⟨next.before ++ operations⟩
        elementStates := fun id =>
          if id = entityId :: window.elementIdStack then
            some ⟨(next.before.length, next.before.length + operations.length),
              cacheKey next.prepaintScopes next.bounds⟩
          else window.elementStates id } := by
    simp only [Painting.paint, Window.withId, paintView, beginFrame, hdrawn.state, reusePaint,
      hreplay, Window.setElementState, hreuses.1, Scene.len, List.length_append]
  have hdraw : drawFrame display entityId view window next =
      ({ beginFrame window next with
          ambient := next.paintScopes
          scene := ⟨next.before ++ operations ++ next.after⟩
          elementStates := fun id =>
            if id = entityId :: window.elementIdStack then
              some ⟨(next.before.length, next.before.length + operations.length),
                cacheKey next.prepaintScopes next.bounds⟩
            else window.elementStates id },
        operations) := by
    simp only [drawFrame]
    rw [hprepaint]
    dsimp only
    rw [hpaint]
    simp [beginFrame]
  rw [hdraw]
  exact ⟨rfl, rfl, if_pos rfl, hdrawn.visible⟩

/-- The test of `ViewElement::prepaint` after a frame that was drawn. -/
theorem reusable_iff {entityId : ℕ} {window : Window Style} {frame next : FrameInput Style}
    {operations : List PaintOperation} (h : Drawn entityId window frame operations) :
    reusable (atView entityId window next) entityId next.bounds = true ↔
      Reuses entityId frame next := by
  have hstate : (atView entityId window next).elementStates
      (atView entityId window next).elementIdStack = _ := h.state
  simp only [reusable, hstate]
  simp only [Reuses, atView, beginFrame, Bool.and_eq_true, and_assoc]
  refine and_congr decide_eq_true_iff ?_
  simp

/-! ### All frames -/

/-- A frame contributes what was recorded when the view is reused and what it renders
otherwise, and records what it contributes. -/
theorem drawFrame_spec (display : Display) {entityId : ℕ} (view : View Style)
    {window : Window Style} {frame : FrameInput Style} (next : FrameInput Style)
    {operations : List PaintOperation} (h : Drawn entityId window frame operations) :
    ∃ operations', (drawFrame display entityId view window next).2 = operations' ∧
      Drawn entityId (drawFrame display entityId view window next).1 next operations' ∧
      (Reuses entityId frame next → operations' = operations) ∧
      (¬ Reuses entityId frame next → operations' = renders display view next) := by
  by_cases hreuses : Reuses entityId frame next
  · have hreusable := (reusable_iff h).mpr hreuses
    obtain ⟨hcontributed, hdrawn⟩ :=
      drawFrame_reused display view h hreuses hreusable
    exact ⟨operations, hcontributed, hdrawn, fun _ => rfl, fun hnot => (hnot hreuses).elim⟩
  · have hreusable : reusable (atView entityId window next) entityId next.bounds = false :=
      Bool.eq_false_iff.mpr fun hyes => hreuses ((reusable_iff h).mp hyes)
    obtain ⟨hcontributed, hdrawn⟩ := drawFrame_rendered display view hreusable
    exact ⟨_, hcontributed, hdrawn, fun hyes => (hreuses hyes).elim, fun _ => rfl⟩

theorem drawFrame_refreshing (display : Display) (entityId : ℕ) (view : View Style)
    (window : Window Style) (frame : FrameInput Style) :
    (drawFrame display entityId view window { frame with refreshing := true }).2 =
      renders display view frame := by
  have hreusable : reusable (atView entityId window { frame with refreshing := true }) entityId
      frame.bounds = false := reusable_of_refreshing rfl ..
  exact (drawFrame_rendered display view hreusable).1

/-- After a frame that contributed what it rendered, the frames that follow are as if the
view was rendered in each exactly if each reuse is of what would be rendered. -/
theorem transparent_iff_chain (display : Display) (entityId : ℕ) (view : View Style)
    {window : Window Style} {frame : FrameInput Style} (frames : List (FrameInput Style))
    (h : Drawn entityId window frame (renders display view frame)) :
    Transparent display entityId view window frames ↔
      (frame :: frames).IsChain fun frame next =>
        Reuses entityId frame next → renders display view frame = renders display view next := by
  induction frames generalizing window frame with
  | nil => simp [Transparent]
  | cons next frames ih =>
    obtain ⟨operations, hcontributed, hdrawn, hreused, hrendered⟩ :=
      drawFrame_spec display view next h
    rw [Transparent, List.isChain_cons_cons, drawFrame_refreshing, hcontributed]
    constructor
    · rintro ⟨hsame, hrest⟩
      subst hsame
      exact ⟨fun hyes => (hreused hyes).symm, (ih hdrawn).mp hrest⟩
    · rintro ⟨hsame, hrest⟩
      have heq : operations = renders display view next := by
        by_cases hyes : Reuses entityId frame next
        · rw [hreused hyes, hsame hyes]
        · exact hrendered hyes
      subst heq
      exact ⟨rfl, (ih hdrawn).mpr hrest⟩

/-! ### Views that tell scopes apart -/

theorem roundHalfTowardZero_natCast (n : ℕ) : roundHalfTowardZero n = n := by
  have hnot : ¬ (n : ℚ) < 0 := not_lt.mpr n.cast_nonneg
  have hceil : ⌈(n : ℚ) - 1 / 2⌉ = n := by
    rw [Int.ceil_eq_iff]
    push_cast
    constructor <;> linarith
  simp only [roundHalfTowardZero, hnot, if_false, Nat.abs_cast]
  rw [hceil]
  rfl

/-- The middle of the device pixel `[pixel, pixel + 1]`, as the place of an empty mask. -/
def probeMask (display : Display) (pixel : ℕ) : ContentMask :=
  let middle := (pixel + 1 / 2) / display.scaleFactor
  ⟨⟨⟨middle, middle⟩, ⟨0, 0⟩⟩⟩

/-- An image in the device pixel `[pixel, pixel + 1]`. -/
def probeImage (display : Display) (pixel : ℕ) : PaintCall :=
  .image ⟨⟨pixel / display.scaleFactor, pixel / display.scaleFactor⟩,
    ⟨1 / display.scaleFactor, 1 / display.scaleFactor⟩⟩ ⟨0, 0, 0, 0⟩
    ⟨0, 0, 0, ⟨⟨0, 0⟩, ⟨1, 1⟩⟩⟩ false

/-- Code that paints the image in a scope with the mask. -/
def probe (display : Display) (pixel : ℕ) : PaintCode Style :=
  .inScope (.contentMask (some (probeMask display pixel))) (.call (probeImage display pixel))

/-- The device pixel `[pixel, pixel + 1]`. -/
def devicePixel (pixel : ℕ) : Bounds ℚ := ⟨⟨pixel, pixel⟩, ⟨1, 1⟩⟩

/-- A mask that starts after the mask around it leaves only itself, even if it is empty. -/
theorem probeMask_intersect {display : Display} {pixel : ℕ} {mask : ContentMask}
    (hx : mask.bounds.origin.x ≤ (pixel + 1 / 2) / display.scaleFactor)
    (hy : mask.bounds.origin.y ≤ (pixel + 1 / 2) / display.scaleFactor) :
    (probeMask display pixel).intersect mask = probeMask display pixel := by
  have hfar : (probeMask display pixel).bounds.bottomRight =
      (probeMask display pixel).bounds.origin := by
    simp [Bounds.bottomRight, probeMask]
  -- The near edges are those of the mask, and so are the far edges, which are no nearer.
  have hnear : (probeMask display pixel).bounds.origin.max mask.bounds.origin =
      (probeMask display pixel).bounds.origin := Bounds.max_eq_left hx hy
  obtain ⟨hminx, hminy, -, -⟩ :=
    Bounds.min_le (probeMask display pixel).bounds.origin mask.bounds.bottomRight
  rw [ContentMask.intersect, Bounds.intersect, hnear, hfar, Bounds.max_eq_right hminx hminy]
  simp [Bounds.fromCorners, probeMask]

theorem floor_half (n : ℕ) : ⌊(n : ℚ) + 1 / 2⌋ = n := by
  rw [Int.floor_eq_iff]
  push_cast
  constructor <;> linarith

theorem ceil_half (n : ℕ) : ⌈(n : ℚ) + 1 / 2⌉ = n + 1 := by
  rw [Int.ceil_eq_iff]
  push_cast
  constructor <;> linarith

theorem snapMask_probeMask (display : Display) (pixel : ℕ) :
    display.snapMask (probeMask display pixel) = ⟨devicePixel pixel⟩ := by
  have hs : display.scaleFactor ≠ 0 := display.scaleFactor_pos.ne'
  have hmax : max ((pixel : ℚ) + 1) pixel = pixel + 1 := max_eq_left (by linarith)
  simp only [Display.snapMask, Display.coverBounds, floorToDevicePixel, ceilToDevicePixel,
    probeMask, Bounds.bottomRight, add_zero, div_mul_cancel₀ _ hs, floor_half, ceil_half,
    Int.cast_add, Int.cast_natCast, Int.cast_one, hmax, Bounds.fromCorners, devicePixel,
    add_sub_cancel_left]

theorem snapBounds_probeImage (display : Display) (pixel : ℕ) :
    display.snapBounds ⟨⟨pixel / display.scaleFactor, pixel / display.scaleFactor⟩,
      ⟨1 / display.scaleFactor, 1 / display.scaleFactor⟩⟩ = devicePixel pixel := by
  have hs : display.scaleFactor ≠ 0 := display.scaleFactor_pos.ne'
  have hmax : max ((pixel : ℚ) + 1) pixel = pixel + 1 := max_eq_left (by linarith)
  have hfar : ((pixel / display.scaleFactor + 1 / display.scaleFactor) * display.scaleFactor) =
      ((pixel + 1 : ℕ) : ℚ) := by
    rw [← add_div, div_mul_cancel₀ _ hs]
    push_cast
    rfl
  simp only [Display.snapBounds, roundToDevicePixel, Bounds.bottomRight, hfar,
    div_mul_cancel₀ _ hs, roundHalfTowardZero_natCast]
  simp only [Nat.cast_add, Nat.cast_one, hmax, Bounds.fromCorners, devicePixel,
    add_sub_cancel_left]

theorem devicePixel_visible (pixel : ℕ) :
    ((devicePixel pixel).intersect (devicePixel pixel)).isEmpty = false := by
  simp [Bounds.intersect, Bounds.fromCorners, Bounds.bottomRight, Point.max, Point.min,
    Bounds.isEmpty, devicePixel]

omit [DecidableEq Style] in
/-- What the probe records: one image, with the opacity and the fade of the scopes. -/
theorem probe_operations {display : Display} {pixel : ℕ} (ambient : Ambient Style)
    (hx : ambient.contentMask.bounds.origin.x ≤ (pixel + 1 / 2) / display.scaleFactor)
    (hy : ambient.contentMask.bounds.origin.y ≤ (pixel + 1 / 2) / display.scaleFactor) :
    (probe display pixel).operations display ambient =
      [.primitive <| .polychromeSprite
        { grayscale := false
          opacity := ambient.elementOpacity
          bounds := devicePixel pixel
          contentMask := ⟨devicePixel pixel⟩
          cornerRadii := display.scaleCorners ⟨0, 0, 0, 0⟩
          fade := ambient.scaledEdgeFade display
          tile := ⟨0, 0, 0, ⟨⟨0, 0⟩, ⟨1, 1⟩⟩⟩ }] := by
  have hmask : (ambient.push (.contentMask (some (probeMask display pixel)))).contentMask =
      probeMask display pixel := probeMask_intersect hx hy
  have hopacity : (ambient.push (.contentMask (some (probeMask display pixel)))).elementOpacity =
      ambient.elementOpacity := rfl
  have hfade : (ambient.push (.contentMask (some (probeMask display pixel)))).scaledEdgeFade
      display = ambient.scaledEdgeFade display := rfl
  simp only [probe, PaintCode.operations, probeImage, PaintCall.operations, paintImage,
    snappedContentMask, hmask, hopacity, hfade, snapMask_probeMask, snapBounds_probeImage]
  rw [List.filter_eq_self.mpr]
  simp [PaintOperation.visible, Primitive.bounds, Primitive.contentMask, devicePixel_visible]

theorem exists_pixel (display : Display) (mask mask' : ContentMask) :
    ∃ pixel : ℕ,
      (mask.bounds.origin.x ≤ (pixel + 1 / 2) / display.scaleFactor ∧
        mask.bounds.origin.y ≤ (pixel + 1 / 2) / display.scaleFactor) ∧
      mask'.bounds.origin.x ≤ (pixel + 1 / 2) / display.scaleFactor ∧
        mask'.bounds.origin.y ≤ (pixel + 1 / 2) / display.scaleFactor := by
  obtain ⟨pixel, hpixel⟩ := exists_nat_ge
    (max (max mask.bounds.origin.x mask.bounds.origin.y)
      (max mask'.bounds.origin.x mask'.bounds.origin.y) * display.scaleFactor)
  have hmax : max (max mask.bounds.origin.x mask.bounds.origin.y)
      (max mask'.bounds.origin.x mask'.bounds.origin.y) ≤
        (pixel + 1 / 2) / display.scaleFactor := by
    rw [le_div_iff₀ display.scaleFactor_pos]
    linarith
  simp only [max_le_iff] at hmax
  exact ⟨pixel, hmax.1, hmax.2⟩

/-- When a view is reused, every view is as it would be rendered exactly if the scopes are
the same. -/
theorem renders_iff {display : Display} {entityId : ℕ} {frame next : FrameInput Style}
    (h : Reuses entityId frame next) :
    (∀ view : View Style, renders display view frame = renders display view next) ↔
      SameScopes display frame next := by
  obtain ⟨hkey, -, -⟩ := h
  constructor
  · intro hall
    obtain ⟨pixel, ⟨hx, hy⟩, hx', hy'⟩ := exists_pixel display frame.paintScopes.contentMask
      next.paintScopes.contentMask
    have hprobe := probe_operations frame.paintScopes hx hy
    have hprobe' := probe_operations next.paintScopes hx' hy'
    -- The probe shows the opacity and the fade.
    have himage := hall fun _ _ => .code (probe display pixel)
    simp only [renders, Prepaint.painting, Painting.operations, hprobe, hprobe',
      List.cons.injEq, PaintOperation.primitive.injEq, Primitive.polychromeSprite.injEq,
      PolychromeSprite.mk.injEq] at himage
    -- Code that paints the probe only if it reads what it does in the first frame.
    have hread : next.paintScopes.readable = frame.paintScopes.readable := by
      by_contra hne
      have hread := hall fun _ _ => .code <| .read fun readable =>
        if readable = frame.paintScopes.readable then probe display pixel else .empty
      simp [renders, Prepaint.painting, Painting.operations, PaintCode.operations, hne,
        hprobe] at hread
    -- A view that renders the probe only if it reads the rem size of the first frame.
    have hrem : next.prepaintScopes.remSize = frame.prepaintScopes.remSize := by
      by_contra hne
      have hrem := hall fun _ readable =>
        if readable.remSize = frame.prepaintScopes.remSize then .code (probe display pixel)
        else .empty
      simp [renders, Prepaint.painting, Painting.operations, Ambient.readable, hne,
        hprobe] at hrem
    exact ⟨hrem.symm, Baked.ext hread.symm himage.1.2.1 himage.1.2.2.2.2.2.1⟩
  · rintro ⟨hrem, hbaked⟩
    have hbounds : frame.bounds = next.bounds := congrArg ViewElementCacheKey.bounds hkey
    have hreadable : frame.prepaintScopes.readable = next.prepaintScopes.readable :=
      Readable.ext hrem (congrArg ViewElementCacheKey.textStyle hkey)
        (congrArg ViewElementCacheKey.contentMask hkey)
    intro view
    rw [renders, renders, hbounds, hreadable, Prepaint.painting_congr _ hreadable,
      Painting.operations_congr _ hbaked]

omit [Inhabited Style] [DecidableEq Style] in
theorem isChain_forall {ι α : Type} {r : ι → α → α → Prop} {xs : List α} :
    (∀ i, xs.IsChain (r i)) ↔ xs.IsChain fun x y => ∀ i, r i x y := by
  induction xs with
  | nil => simp
  | cons x xs ih =>
    cases xs with
    | nil => simp
    | cons y xs => simp only [List.isChain_cons_cons, forall_and, ih]

/-- Every view contributes in every frame what it contributes when it is rendered again,
exactly if the scopes that the cache key leaves out are the same in every two consecutive
frames in which the view is reused. -/
theorem transparent_iff (display : Display) (entityId : ℕ) (ambient : Ambient Style)
    (ids : List ℕ) (frames : List (FrameInput Style)) :
    (∀ view : View Style,
      Transparent display entityId view (Window.new ambient ids) frames) ↔
      frames.IsChain fun frame next =>
        Reuses entityId frame next → SameScopes display frame next := by
  cases frames with
  | nil => simp [Transparent]
  | cons frame frames =>
    -- The first frame renders the view: there is no state yet.
    have hfirst (view : View Style) :
        Transparent display entityId view (Window.new ambient ids) (frame :: frames) ↔
          (frame :: frames).IsChain fun frame next => Reuses entityId frame next →
            renders display view frame = renders display view next := by
      have hrender : reusable (atView entityId (Window.new ambient ids) frame) entityId
        frame.bounds = false := rfl
      obtain ⟨hcontributed, hdrawn⟩ := drawFrame_rendered display view hrender
      rw [Transparent, drawFrame_refreshing, hcontributed]
      exact (and_iff_right rfl).trans (transparent_iff_chain display entityId view frames hdrawn)
    simp only [hfirst, isChain_forall]
    refine List.IsChain.iff fun frame next => ?_
    rw [forall_comm]
    exact forall_congr' renders_iff

theorem plainScale_pos : (0 : ℚ) < 1 := one_pos

/-- A display with one device pixel for each pixel. -/
def plainDisplay : Display where
  scaleFactor := 1
  scaleFactor_pos := plainScale_pos
  shouldUseSubpixelRendering := fun _ _ => false
  glyphDilationForColor := fun _ => 0
  rasterBounds := fun _ => none
  glyphTile := fun _ => none
  svgTile := fun _ _ => none

/-- No scopes, in a window of 100 by 100 pixels. -/
def plainAmbient : Ambient Unit where
  viewportSize := ⟨100, 100⟩
  baseRemSize := 16
  remSizeOverrideStack := []
  textStyleStack := []
  contentMaskStack := []
  elementOpacity := 1
  edgeFade := none
  roundedClip := none

/-- A frame with the view at 10 by 10 pixels and painted with an opacity. -/
def fadedFrame (opacity : ℚ) : FrameInput Unit where
  bounds := ⟨⟨0, 0⟩, ⟨10, 10⟩⟩
  dirtyViews := []
  refreshing := false
  prepaintScopes := plainAmbient
  paintScopes := plainAmbient.push (.elementOpacity (some opacity))
  before := []
  after := []

/-- A view that fills its bounds with black. -/
def blackView : View Unit := fun bounds _ =>
  .code <| .call <| .quad
    { bounds := bounds
      cornerRadii := ⟨0, 0, 0, 0⟩
      background := ⟨.solid, .srgb, black, 0, (⟨black, 0⟩, ⟨black, 0⟩)⟩
      borderWidths := ⟨0, 0, 0, 0⟩
      borderColor := transparentBlack
      borderStyle := .solid }

/-- A view that is opaque in one frame is opaque in the next one, in which the element
around it has half the opacity. -/
theorem transparent_fails :
    ¬ Transparent plainDisplay 1 blackView (Window.new plainAmbient [])
      [fadedFrame 1, fadedFrame (1 / 2)] := by
  intro h
  have hsecond := h.2.1
  revert hsecond
  decide +kernel

end Zui.Gpui
