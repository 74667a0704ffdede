/-
What an element inherits from the elements around it.

The paint scopes that enclose an element are an `Ambient`; the methods of the window
push a scope, run their argument and take the scope away again (`Scope.push`).  What the
display fixes for all of them is a `Display`: the window refreshes when it changes.

Main statements:

* `Readable`, `Baked` — what code may read of an `Ambient`, and all that painting can see
  of it;
* `elementOpacityRamp_congr` — the opacity that fades a primitive as a whole is a function
  of what is baked;
* `push_readable`, `push_baked` — what can be read, or is baked, inside a scope is a
  function of what it is outside.
-/
import Zui.Paint.Scene

namespace Zui.Gpui

/-- `RenderGlyphParams` of a glyph that is not an emoji. -/
structure RenderGlyphParams where
  fontId : ℕ
  glyphId : ℕ
  fontSize : ℚ
  subpixelVariant : Point ℕ
  isEmoji : Bool := false
  subpixelRendering : Bool
  dilation : ℕ

/-- The scale factor of the window, and what its text system and its sprite atlas answer
at this scale. -/
structure Display where
  scaleFactor : ℚ
  scaleFactor_pos : 0 < scaleFactor
  /-- `should_use_subpixel_rendering`. -/
  shouldUseSubpixelRendering : ℕ → ℚ → Bool
  /-- `glyph_dilation_for_color`. -/
  glyphDilationForColor : Hsla → ℕ
  /-- `raster_bounds`; `none` is an error. -/
  rasterBounds : RenderGlyphParams → Option (Bounds ℚ)
  /-- The tile of the glyph in the sprite atlas; `none` is an error. -/
  glyphTile : RenderGlyphParams → Option AtlasTile
  /-- The tile of an image with a path and a size; `none` is an error, or no image. -/
  svgTile : String → Size ℤ → Option AtlasTile

/-- `EdgeFade`. -/
structure EdgeFade where
  bounds : Bounds ℚ
  band : ℚ
  bandTop : Option ℚ := none
  bandBottom : Option ℚ := none
  bandLeft : Option ℚ := none
  bandRight : Option ℚ := none
  top : Bool := false
  bottom : Bool := false
  left : Bool := false
  right : Bool := false
  deriving DecidableEq

namespace EdgeFade

/-- `top_band`. -/
def topBand (self : EdgeFade) : ℚ := max (self.bandTop.getD self.band) 1

/-- `bottom_band`. -/
def bottomBand (self : EdgeFade) : ℚ := max (self.bandBottom.getD self.band) 1

/-- `left_band`. -/
def leftBand (self : EdgeFade) : ℚ := max (self.bandLeft.getD self.band) 1

/-- `right_band`. -/
def rightBand (self : EdgeFade) : ℚ := max (self.bandRight.getD self.band) 1

end EdgeFade

/-- The paint scopes around an element: the fields of the window that hold them.  The
last scope of a stack is the head of its list. -/
structure Ambient (Style : Type) where
  viewportSize : Size ℚ
  baseRemSize : ℚ
  remSizeOverrideStack : List ℚ
  /-- Each refinement overrides some properties of a style. -/
  textStyleStack : List (Style → Style)
  contentMaskStack : List ContentMask
  elementOpacity : ℚ
  edgeFade : Option EdgeFade
  roundedClip : Option (Bounds ℚ × ℚ)

variable {Style : Type} [Inhabited Style]

namespace Ambient

/-- `rem_size`. -/
def remSize (self : Ambient Style) : ℚ := self.remSizeOverrideStack.headD self.baseRemSize

/-- `text_style`. -/
def textStyle (self : Ambient Style) : Style :=
  self.textStyleStack.foldr (fun refinement style => refinement style) default

/-- `content_mask`. -/
def contentMask (self : Ambient Style) : ContentMask :=
  self.contentMaskStack.headD ⟨⟨⟨0, 0⟩, self.viewportSize⟩⟩

/-- `clamp(0.0, 1.0)`. -/
def clampUnit (x : ℚ) : ℚ := max 0 (min x 1)

/-- The body of `element_opacity_at` and of `element_opacity_for_bounds`, which differ in
the places that they compare with the edges. -/
def elementOpacityRamp (self : Ambient Style) (top bottom left right : ℚ) : ℚ :=
  match self.edgeFade with
  | none => self.elementOpacity
  | some fade =>
    let ramp : ℚ := 1
    let ramp := if fade.top then
      min ramp (clampUnit ((top - fade.bounds.origin.y) / fade.topBand)) else ramp
    let ramp := if fade.bottom then
      min ramp (clampUnit ((fade.bounds.bottomRight.y - bottom) / fade.bottomBand)) else ramp
    let ramp := if fade.left then
      min ramp (clampUnit ((left - fade.bounds.origin.x) / fade.leftBand)) else ramp
    let ramp := if fade.right then
      min ramp (clampUnit ((fade.bounds.bottomRight.x - right) / fade.rightBand)) else ramp
    self.elementOpacity * ramp * ramp

/-- `element_opacity_at`. -/
def elementOpacityAt (self : Ambient Style) (center : Point ℚ) : ℚ :=
  self.elementOpacityRamp center.y center.y center.x center.x

/-- `element_opacity_for_bounds`. -/
def elementOpacityForBounds (self : Ambient Style) (bounds : Bounds ℚ) : ℚ :=
  self.elementOpacityRamp bounds.origin.y bounds.bottomRight.y bounds.origin.x
    bounds.bottomRight.x

/-- `scaled_fade_ramp`. -/
def scaledFadeRamp (self : Ambient Style) (scale : ℚ) : EdgeFadeParams :=
  match self.edgeFade with
  | none => {}
  | some fade =>
    if !(fade.top || fade.bottom || fade.left || fade.right) then {}
    else
      { topY := fade.bounds.origin.y * scale
        bottomY := fade.bounds.bottomRight.y * scale
        bandTop := if fade.top then fade.topBand * scale else 0
        bandBottom := if fade.bottom then fade.bottomBand * scale else 0
        leftX := fade.bounds.origin.x * scale
        rightX := fade.bounds.bottomRight.x * scale
        bandLeft := if fade.left then fade.leftBand * scale else 0
        bandRight := if fade.right then fade.rightBand * scale else 0 }

/-- `scaled_edge_fade`. -/
def scaledEdgeFade (display : Display) (self : Ambient Style) : EdgeFadeParams :=
  let scale := display.scaleFactor
  let params := self.scaledFadeRamp scale
  match self.roundedClip with
  | none => params
  | some (bounds, radius) =>
    { params with
      clipLeft := bounds.origin.x * scale
      clipTop := bounds.origin.y * scale
      clipRight := bounds.bottomRight.x * scale
      clipBottom := bounds.bottomRight.y * scale
      clipRadius := radius * scale }

end Ambient

/-! ### Device pixels -/

/-- `round_half_toward_zero`. -/
def roundHalfTowardZero (value : ℚ) : ℚ :=
  let magnitude : ℚ := ⌈|value| - 1 / 2⌉
  if value < 0 then -magnitude else magnitude

/-- `round_to_device_pixel`. -/
def roundToDevicePixel (logical scaleFactor : ℚ) : ℚ := roundHalfTowardZero (logical * scaleFactor)

/-- `round_stroke_to_device_pixel`. -/
def roundStrokeToDevicePixel (logical scaleFactor : ℚ) : ℚ :=
  if logical = 0 then 0 else max (roundToDevicePixel (max logical 0) scaleFactor) 1

/-- `floor_to_device_pixel`. -/
def floorToDevicePixel (logical scaleFactor : ℚ) : ℚ := ⌊logical * scaleFactor⌋

/-- `ceil_to_device_pixel`. -/
def ceilToDevicePixel (logical scaleFactor : ℚ) : ℚ := ⌈logical * scaleFactor⌉

namespace Display

/-- `snap_bounds`. -/
def snapBounds (self : Display) (bounds : Bounds ℚ) : Bounds ℚ :=
  let left := roundToDevicePixel bounds.origin.x self.scaleFactor
  let top := roundToDevicePixel bounds.origin.y self.scaleFactor
  let right := max (roundToDevicePixel bounds.bottomRight.x self.scaleFactor) left
  let bottom := max (roundToDevicePixel bounds.bottomRight.y self.scaleFactor) top
  Bounds.fromCorners ⟨left, top⟩ ⟨right, bottom⟩

/-- `snap_stroke`. -/
def snapStroke (self : Display) (value : ℚ) : ℚ := roundStrokeToDevicePixel value self.scaleFactor

/-- `snap_border_widths`. -/
def snapBorderWidths (self : Display) (edges : Edges) : Edges :=
  ⟨self.snapStroke edges.top, self.snapStroke edges.right, self.snapStroke edges.bottom,
    self.snapStroke edges.left⟩

/-- `cover_bounds`. -/
def coverBounds (self : Display) (bounds : Bounds ℚ) : Bounds ℚ :=
  let left := floorToDevicePixel bounds.origin.x self.scaleFactor
  let top := floorToDevicePixel bounds.origin.y self.scaleFactor
  let right := max (ceilToDevicePixel bounds.bottomRight.x self.scaleFactor) left
  let bottom := max (ceilToDevicePixel bounds.bottomRight.y self.scaleFactor) top
  Bounds.fromCorners ⟨left, top⟩ ⟨right, bottom⟩

/-- `Point::scale`. -/
def scalePoint (self : Display) (point : Point ℚ) : Point ℚ :=
  ⟨point.x * self.scaleFactor, point.y * self.scaleFactor⟩

/-- `Bounds::scale`. -/
def scaleBounds (self : Display) (bounds : Bounds ℚ) : Bounds ℚ :=
  ⟨self.scalePoint bounds.origin,
    ⟨bounds.size.width * self.scaleFactor, bounds.size.height * self.scaleFactor⟩⟩

/-- `ContentMask::scale`. -/
def scaleMask (self : Display) (mask : ContentMask) : ContentMask := ⟨self.scaleBounds mask.bounds⟩

/-- `Corners::scale`. -/
def scaleCorners (self : Display) (corners : Corners) : Corners :=
  ⟨corners.topLeft * self.scaleFactor, corners.topRight * self.scaleFactor,
    corners.bottomRight * self.scaleFactor, corners.bottomLeft * self.scaleFactor⟩

/-- `snapped_content_mask`, of a given content mask. -/
def snapMask (self : Display) (mask : ContentMask) : ContentMask := ⟨self.coverBounds mask.bounds⟩

end Display

/-! ### What is baked into the primitives -/

/-- What code may read of the scopes around it. -/
@[ext] structure Readable (Style : Type) where
  remSize : ℚ
  textStyle : Style
  contentMask : ContentMask
  deriving DecidableEq

/-- What painting can see of the scopes around it: what code may read, and what the paint
methods put into the primitives. -/
@[ext] structure Baked (Style : Type) where
  readable : Readable Style
  elementOpacity : ℚ
  edgeFade : EdgeFadeParams
  deriving DecidableEq

namespace Ambient

/-- What code may read. -/
def readable (self : Ambient Style) : Readable Style :=
  ⟨self.remSize, self.textStyle, self.contentMask⟩

/-- What painting can see. -/
def baked (display : Display) (self : Ambient Style) : Baked Style where
  readable := self.readable
  elementOpacity := self.elementOpacity
  edgeFade := self.scaledEdgeFade display

/-! ### The opacity of a whole primitive -/

/-- The ramp of the edge fade, from the parameters of the shader. -/
def rampOf (scale : ℚ) (params : EdgeFadeParams) (top bottom left right : ℚ) : ℚ :=
  let ramp : ℚ := 1
  let ramp := if params.bandTop ≠ 0 then
    min ramp (clampUnit ((top * scale - params.topY) / params.bandTop)) else ramp
  let ramp := if params.bandBottom ≠ 0 then
    min ramp (clampUnit ((params.bottomY - bottom * scale) / params.bandBottom)) else ramp
  let ramp := if params.bandLeft ≠ 0 then
    min ramp (clampUnit ((left * scale - params.leftX) / params.bandLeft)) else ramp
  let ramp := if params.bandRight ≠ 0 then
    min ramp (clampUnit ((params.rightX - right * scale) / params.bandRight)) else ramp
  ramp

omit [Inhabited Style] in
theorem rampOf_scaledEdgeFade (display : Display) (self : Ambient Style)
    (top bottom left right : ℚ) :
    rampOf display.scaleFactor (self.scaledEdgeFade display) top bottom left right =
      rampOf display.scaleFactor (self.scaledFadeRamp display.scaleFactor) top bottom left
        right := by
  rw [scaledEdgeFade]
  rcases self.roundedClip with _ | ⟨bounds, radius⟩ <;> rfl

omit [Inhabited Style] in
/-- The opacity of a whole primitive is a function of the opacity of the scope and of the
parameters of the shader. -/
theorem elementOpacityRamp_eq (display : Display) (self : Ambient Style)
    (top bottom left right : ℚ) :
    self.elementOpacityRamp top bottom left right =
      self.elementOpacity *
          rampOf display.scaleFactor (self.scaledEdgeFade display) top bottom left right *
        rampOf display.scaleFactor (self.scaledEdgeFade display) top bottom left right := by
  have hs : display.scaleFactor ≠ 0 := display.scaleFactor_pos.ne'
  have hdiv (x y z : ℚ) :
      (x * display.scaleFactor - y * display.scaleFactor) / (z * display.scaleFactor) =
        (x - y) / z := by
    rw [← sub_mul, mul_div_mul_right _ _ hs]
  rw [rampOf_scaledEdgeFade]
  rcases hfade : self.edgeFade with _ | fade
  · simp [elementOpacityRamp, rampOf, scaledFadeRamp, hfade]
  -- The bands are at least one, so that a band tells whether its edge is active.
  have hband (x : ℚ) : max x 1 ≠ 0 := (lt_max_of_lt_right one_pos).ne'
  simp only [elementOpacityRamp, rampOf, scaledFadeRamp, hfade]
  cases fade.top <;> cases fade.bottom <;> cases fade.left <;> cases fade.right <;>
    simp [EdgeFade.topBand, EdgeFade.bottomBand, EdgeFade.leftBand, EdgeFade.rightBand, hs,
      hband, hdiv]

theorem elementOpacityRamp_congr {display : Display} {a b : Ambient Style}
    (h : a.baked display = b.baked display) (top bottom left right : ℚ) :
    a.elementOpacityRamp top bottom left right = b.elementOpacityRamp top bottom left right := by
  have hopacity : a.elementOpacity = b.elementOpacity := congrArg Baked.elementOpacity h
  have hfade : a.scaledEdgeFade display = b.scaledEdgeFade display :=
    congrArg Baked.edgeFade h
  rw [elementOpacityRamp_eq display, elementOpacityRamp_eq display, hopacity, hfade]

end Ambient

/-! ### Scopes -/

/-- The scopes that an element can put around what it paints: the arguments of
`with_content_mask`, `with_text_style`, `with_rem_size`, `with_element_opacity`,
`with_edge_fade` and `with_rounded_clip`. -/
inductive Scope (Style : Type)
  | contentMask (mask : Option ContentMask)
  | textStyle (style : Option (Style → Style))
  | remSize (remSize : Option ℚ)
  | elementOpacity (opacity : Option ℚ)
  | edgeFade (fade : Option EdgeFade)
  | roundedClip (bounds : Bounds ℚ) (radius : ℚ)

namespace Ambient

/-- The scopes inside `scope`. -/
def push (self : Ambient Style) : Scope Style → Ambient Style
  | .contentMask none => self
  | .contentMask (some mask) =>
    { self with
      contentMaskStack := mask.intersect self.contentMask :: self.contentMaskStack }
  | .textStyle none => self
  | .textStyle (some style) => { self with textStyleStack := style :: self.textStyleStack }
  | .remSize none => self
  | .remSize (some remSize) =>
    { self with remSizeOverrideStack := remSize :: self.remSizeOverrideStack }
  | .elementOpacity none => self
  | .elementOpacity (some opacity) =>
    { self with elementOpacity := self.elementOpacity * opacity }
  | .edgeFade none => self
  | .edgeFade (some fade) =>
    if !(fade.top || fade.bottom || fade.left || fade.right) then self
    else { self with edgeFade := some fade }
  | .roundedClip bounds radius =>
    { self with
      roundedClip := some (bounds, radius)
      contentMaskStack :=
        (ContentMask.mk bounds).intersect self.contentMask :: self.contentMaskStack }

omit [Inhabited Style] in
theorem scaledFadeRamp_clip (self : Ambient Style) (scale : ℚ) :
    (self.scaledFadeRamp scale).clipLeft = 0 ∧ (self.scaledFadeRamp scale).clipTop = 0 ∧
      (self.scaledFadeRamp scale).clipRight = 0 ∧ (self.scaledFadeRamp scale).clipBottom = 0 ∧
      (self.scaledFadeRamp scale).clipRadius = 0 := by
  rw [scaledFadeRamp]
  cases self.edgeFade with
  | none => simp
  | some fade =>
    dsimp only
    split <;> simp

omit [Inhabited Style] in
theorem scaledEdgeFade_congr_fade {display : Display} {a b : Ambient Style}
    (h : a.scaledEdgeFade display = b.scaledEdgeFade display) (fade : EdgeFade) :
    ({ a with edgeFade := some fade } : Ambient Style).scaledEdgeFade display =
      ({ b with edgeFade := some fade } : Ambient Style).scaledEdgeFade display := by
  have hramp : ({ a with edgeFade := some fade } : Ambient Style).scaledFadeRamp
      display.scaleFactor =
      ({ b with edgeFade := some fade } : Ambient Style).scaledFadeRamp display.scaleFactor := rfl
  obtain ⟨hleft, htop, hright, hbottom, hradius⟩ :=
    a.scaledFadeRamp_clip display.scaleFactor
  obtain ⟨hleft', htop', hright', hbottom', hradius'⟩ :=
    b.scaledFadeRamp_clip display.scaleFactor
  obtain ⟨gleft, gtop, gright, gbottom, gradius⟩ :=
    ({ b with edgeFade := some fade } : Ambient Style).scaledFadeRamp_clip display.scaleFactor
  simp only [scaledEdgeFade, hramp, EdgeFadeParams.ext_iff] at h ⊢
  -- Only the fields of the rounded clip are left to compare.
  rcases ha : a.roundedClip with _ | ⟨bounds, radius⟩ <;>
    rcases hb : b.roundedClip with _ | ⟨bounds', radius'⟩ <;>
    simp_all

omit [Inhabited Style] in
theorem scaledEdgeFade_congr_clip {display : Display} {a b : Ambient Style}
    (h : a.scaledEdgeFade display = b.scaledEdgeFade display) (clip : Bounds ℚ × ℚ)
    (masks masks' : List ContentMask) :
    ({ a with roundedClip := some clip, contentMaskStack := masks } :
        Ambient Style).scaledEdgeFade display =
      ({ b with roundedClip := some clip, contentMaskStack := masks' } :
        Ambient Style).scaledEdgeFade display := by
  have ha : ({ a with roundedClip := some clip, contentMaskStack := masks } :
      Ambient Style).scaledFadeRamp display.scaleFactor =
      a.scaledFadeRamp display.scaleFactor := rfl
  have hb : ({ b with roundedClip := some clip, contentMaskStack := masks' } :
      Ambient Style).scaledFadeRamp display.scaleFactor =
      b.scaledFadeRamp display.scaleFactor := rfl
  simp only [scaledEdgeFade, ha, hb, EdgeFadeParams.ext_iff] at h ⊢
  rcases ha : a.roundedClip with _ | ⟨bounds, radius⟩ <;>
    rcases hb : b.roundedClip with _ | ⟨bounds', radius'⟩ <;>
    simp_all

/-- What can be read inside a scope is a function of what can be read outside. -/
theorem push_readable {a b : Ambient Style} (h : a.readable = b.readable)
    (scope : Scope Style) : (a.push scope).readable = (b.push scope).readable := by
  obtain ⟨hrem, hstyle, hmask⟩ := Readable.ext_iff.mp h
  cases scope with
  | contentMask mask =>
    cases mask with
    | none => exact h
    | some mask => exact Readable.ext hrem hstyle (congrArg mask.intersect hmask)
  | textStyle style =>
    cases style with
    | none => exact h
    | some style => exact Readable.ext hrem (congrArg style hstyle) hmask
  | remSize remSize =>
    cases remSize with
    | none => exact h
    | some remSize => exact Readable.ext rfl hstyle hmask
  | elementOpacity opacity => cases opacity <;> exact h
  | edgeFade fade =>
    cases fade with
    | none => exact h
    | some fade =>
      simp only [push]
      split <;> exact h
  | roundedClip bounds radius =>
    exact Readable.ext hrem hstyle (congrArg (ContentMask.mk bounds).intersect hmask)

/-- What is baked inside a scope is a function of what is baked outside. -/
theorem push_baked {display : Display} {a b : Ambient Style}
    (h : a.baked display = b.baked display) (scope : Scope Style) :
    (a.push scope).baked display = (b.push scope).baked display := by
  obtain ⟨hreadable, hopacity, hfade⟩ := Baked.ext_iff.mp h
  have hread := push_readable hreadable scope
  -- Only two scopes change more than what can be read.
  cases scope with
  | contentMask mask => cases mask <;> exact Baked.ext hread hopacity hfade
  | textStyle style => cases style <;> exact Baked.ext hread hopacity hfade
  | remSize remSize => cases remSize <;> exact Baked.ext hread hopacity hfade
  | elementOpacity opacity =>
    cases opacity with
    | none => exact h
    | some opacity => exact Baked.ext hread (congrArg (fun x => x * opacity) hopacity) hfade
  | edgeFade fade =>
    cases fade with
    | none => exact h
    | some fade =>
      simp only [push] at hread ⊢
      split
      · exact h
      · exact Baked.ext hreadable hopacity (scaledEdgeFade_congr_fade hfade fade)
  | roundedClip bounds radius =>
    exact Baked.ext hread hopacity (scaledEdgeFade_congr_clip hfade (bounds, radius) _ _)

end Ambient

end Zui.Gpui
