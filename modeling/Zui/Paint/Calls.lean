/-
The paint methods of a window.

Each of them computes primitives from the scopes around the call and inserts them into
the scene in order; here it is the list of the operations that it inserts.

Main statement:

* `PaintCall.operations_congr` — what a call inserts is a function of what is baked.
-/
import Zui.Library.Rounding
import Zui.Paint.Ambient

namespace Zui.Gpui

/-- `PaintQuad`. -/
structure PaintQuad where
  bounds : Bounds ℚ
  cornerRadii : Corners
  background : Background
  borderWidths : Edges
  borderColor : Hsla
  borderStyle : BorderStyle

/-- `UnderlineStyle`. -/
structure UnderlineStyle where
  thickness : ℚ
  color : Option Hsla
  wavy : Bool

/-- `StrikethroughStyle`. -/
structure StrikethroughStyle where
  thickness : ℚ
  color : Option Hsla

/-- `BoxShadow`. -/
structure BoxShadow where
  color : Hsla
  offset : Point ℚ
  blurRadius : ℚ
  spreadRadius : ℚ
  inset : Bool

/-- `Bounds::dilate`. -/
def Bounds.dilate (self : Bounds ℚ) (amount : ℚ) : Bounds ℚ :=
  ⟨⟨self.origin.x - amount, self.origin.y - amount⟩,
    ⟨self.size.width + (amount + amount), self.size.height + (amount + amount)⟩⟩

/-- `bounds + offset`. -/
def Bounds.offset (self : Bounds ℚ) (offset : Point ℚ) : Bounds ℚ :=
  ⟨⟨self.origin.x + offset.x, self.origin.y + offset.y⟩, self.size⟩

/-- `f32::trunc`. -/
def truncate (value : ℚ) : ℚ := if value < 0 then ⌈value⌉ else ⌊value⌋

/-- `SUBPIXEL_VARIANTS_X`. -/
def SUBPIXEL_VARIANTS_X : ℚ := 4

/-- `SUBPIXEL_VARIANTS_Y`. -/
def SUBPIXEL_VARIANTS_Y : ℚ := 1

/-- `as u8`. -/
def asU8 (value : ℚ) : ℕ := saturatingCast 255 value

/-- `f32::fract`. -/
def fract (value : ℚ) : ℚ := value - truncate value

/-- The nearest multiple of the distance between two of `variants` positions in a pixel. -/
def quantize (variants coordinate : ℚ) : ℚ :=
  roundHalfTowardZero (coordinate * variants) / variants

/-- `subpixel_variant` and `integer_origin`. -/
structure GlyphOrigin where
  subpixelVariant : Point ℕ
  integerOrigin : Point ℚ
  deriving DecidableEq

/-- The first lines of `paint_glyph` and of `paint_glyph_transformed`, which are the same. -/
def splitOrigin (scaleFactor : ℚ) (origin : Point ℚ) : GlyphOrigin :=
  let glyphOrigin : Point ℚ := ⟨origin.x * scaleFactor, origin.y * scaleFactor⟩
  let quantizedOrigin : Point ℚ :=
    ⟨quantize SUBPIXEL_VARIANTS_X glyphOrigin.x, quantize SUBPIXEL_VARIANTS_Y glyphOrigin.y⟩
  { subpixelVariant :=
      ⟨asU8 (fract quantizedOrigin.x * SUBPIXEL_VARIANTS_X),
        asU8 (fract quantizedOrigin.y * SUBPIXEL_VARIANTS_Y)⟩
    integerOrigin := ⟨truncate quantizedOrigin.x, truncate quantizedOrigin.y⟩ }

variable {Style : Type} [Inhabited Style]

section Methods

variable (display : Display) (window : Ambient Style)

/-- `snapped_content_mask`. -/
def snappedContentMask : ContentMask := display.snapMask window.contentMask

/-- `paint_drop_shadows`. -/
def paintDropShadows (bounds : Bounds ℚ) (cornerRadii : Corners) (shadows : List BoxShadow) :
    List PaintOperation :=
  let opacity := window.elementOpacityForBounds bounds
  (shadows.filter fun shadow => !shadow.inset).map fun shadow =>
    .primitive <| .shadow
      { blurRadius := shadow.blurRadius * display.scaleFactor
        bounds := display.coverBounds ((bounds.offset shadow.offset).dilate shadow.spreadRadius)
        contentMask := snappedContentMask display window
        cornerRadii := display.scaleCorners cornerRadii
        color := shadow.color.opacity opacity
        elementBounds := display.coverBounds bounds
        elementCornerRadii := display.scaleCorners cornerRadii
        inset := false }

/-- `paint_inset_shadows`. -/
def paintInsetShadows (bounds : Bounds ℚ) (cornerRadii : Corners) (shadows : List BoxShadow) :
    List PaintOperation :=
  let opacity := window.elementOpacityForBounds bounds
  (shadows.filter fun shadow => shadow.inset).map fun shadow =>
    let hole := (bounds.offset shadow.offset).dilate (-shadow.spreadRadius)
    let holeCornerRadii : Corners :=
      { topLeft := max (cornerRadii.topLeft - shadow.spreadRadius) 0
        topRight := max (cornerRadii.topRight - shadow.spreadRadius) 0
        bottomRight := max (cornerRadii.bottomRight - shadow.spreadRadius) 0
        bottomLeft := max (cornerRadii.bottomLeft - shadow.spreadRadius) 0 }
    .primitive <| .shadow
      { blurRadius := shadow.blurRadius * display.scaleFactor
        bounds := display.coverBounds hole
        contentMask := snappedContentMask display window
        cornerRadii := display.scaleCorners holeCornerRadii
        color := shadow.color.opacity opacity
        elementBounds := display.coverBounds bounds
        elementCornerRadii := display.scaleCorners cornerRadii
        inset := true }

/-- `paint_backdrop_blur`. -/
def paintBackdropBlur (bounds : Bounds ℚ) (cornerRadii : Corners) (blurRadius : ℚ) :
    List PaintOperation :=
  let contentMask := display.scaleMask window.contentMask
  -- An invisible shadow, which forces a batch boundary at its order.
  [.primitive <| .shadow
      { blurRadius := 0
        bounds := display.scaleBounds bounds
        cornerRadii := display.scaleCorners cornerRadii
        contentMask := contentMask
        color := transparentBlack
        elementBounds := display.scaleBounds bounds
        elementCornerRadii := display.scaleCorners cornerRadii
        inset := false },
    .backdropBlur
      { blurRadius := blurRadius * display.scaleFactor
        bounds := display.scaleBounds bounds
        contentMask := contentMask
        cornerRadii := display.scaleCorners cornerRadii }]

/-- The strips of `paint_quad` that cover the borders of a quad without a fill. -/
def borderStrips (quad : Quad) (innerBounds : Bounds ℚ) : List (Bounds ℚ) :=
  let outerBounds := quad.bounds
  [ Bounds.fromCorners outerBounds.origin ⟨outerBounds.bottomRight.x, innerBounds.origin.y⟩,
    Bounds.fromCorners ⟨outerBounds.origin.x, innerBounds.bottomRight.y⟩ outerBounds.bottomRight,
    Bounds.fromCorners ⟨outerBounds.origin.x, innerBounds.origin.y⟩
      ⟨innerBounds.origin.x, innerBounds.bottomRight.y⟩,
    Bounds.fromCorners ⟨innerBounds.bottomRight.x, innerBounds.origin.y⟩
      ⟨outerBounds.bottomRight.x, innerBounds.bottomRight.y⟩ ]

/-- The bounds inside the borders of a quad. -/
def innerBounds (quad : Quad) : Bounds ℚ :=
  let radii := quad.cornerRadii
  let widths := quad.borderWidths
  let topLeftInset : Point ℚ :=
    ⟨widths.left + 1, max (max widths.top radii.topLeft) radii.topRight + 1⟩
  let bottomRightInset : Point ℚ :=
    ⟨widths.right + 1, max (max widths.bottom radii.bottomLeft) radii.bottomRight + 1⟩
  Bounds.fromCorners
    ⟨quad.bounds.origin.x + topLeftInset.x, quad.bounds.origin.y + topLeftInset.y⟩
    ⟨quad.bounds.bottomRight.x - bottomRightInset.x,
      quad.bounds.bottomRight.y - bottomRightInset.y⟩

/-- `paint_quad`. -/
def paintQuad (quad : PaintQuad) : List PaintOperation :=
  let opacity := window.elementOpacity
  let quad : Quad :=
    { bounds := display.snapBounds quad.bounds
      contentMask := snappedContentMask display window
      background := quad.background.opacity opacity
      borderColor := quad.borderColor.opacity opacity
      cornerRadii := display.scaleCorners quad.cornerRadii
      borderWidths := display.snapBorderWidths quad.borderWidths
      borderStyle := quad.borderStyle
      fade := window.scaledEdgeFade display }
  if !quad.background.isTransparent then [.primitive (.quad quad)]
  else if (innerBounds quad).isEmpty then [.primitive (.quad quad)]
  else
    (borderStrips quad (innerBounds quad)).filterMap fun strip =>
      let contentMaskBounds := quad.contentMask.bounds.intersect strip
      if contentMaskBounds.isEmpty then none
      else some (.primitive (.quad { quad with contentMask := ⟨contentMaskBounds⟩ }))

/-- `paint_path`. -/
def paintPath (path : Path) (color : Background) : List PaintOperation :=
  let opacity := window.elementOpacityForBounds path.bounds
  [.primitive <| .path
    { bounds := display.scaleBounds path.bounds
      contentMask := display.scaleMask window.contentMask
      vertices := path.vertices.map fun vertex =>
        { xyPosition := display.scalePoint vertex.xyPosition
          stPosition := vertex.stPosition
          contentMask := display.scaleMask vertex.contentMask }
      color := color.opacity opacity
      start := display.scalePoint path.start
      current := display.scalePoint path.current
      contourCount := path.contourCount }]

/-- The origin of an underline or of a strikethrough. -/
def strokeOrigin (origin : Point ℚ) : Point ℚ :=
  ⟨roundToDevicePixel origin.x display.scaleFactor, roundToDevicePixel origin.y display.scaleFactor⟩

/-- `paint_underline`. -/
def paintUnderline (origin : Point ℚ) (width : ℚ) (style : UnderlineStyle) :
    List PaintOperation :=
  let thickness := display.snapStroke style.thickness
  let height := if style.wavy then thickness * 3 else thickness
  let opacity := window.elementOpacityAt origin
  [.primitive <| .underline
    { bounds := ⟨strokeOrigin display origin, ⟨display.snapStroke width, height⟩⟩
      contentMask := snappedContentMask display window
      color := (style.color.getD transparentBlack).opacity opacity
      thickness := thickness
      wavy := style.wavy }]

/-- `paint_strikethrough`. -/
def paintStrikethrough (origin : Point ℚ) (width : ℚ) (style : StrikethroughStyle) :
    List PaintOperation :=
  let height := style.thickness
  let opacity := window.elementOpacityAt origin
  [.primitive <| .underline
    { bounds :=
        ⟨strokeOrigin display origin, ⟨display.snapStroke width, display.snapStroke height⟩⟩
      contentMask := snappedContentMask display window
      thickness := display.snapStroke style.thickness
      color := (style.color.getD transparentBlack).opacity opacity
      wavy := false }]

/-- `paint_glyph`; an error of the text system ends it. -/
def paintGlyph (origin : Point ℚ) (fontId glyphId : ℕ) (fontSize : ℚ) (color : Hsla) :
    List PaintOperation :=
  let glyphOrigin := display.scalePoint origin
  let quantizedOrigin : Point ℚ :=
    ⟨roundHalfTowardZero (glyphOrigin.x * SUBPIXEL_VARIANTS_X) / SUBPIXEL_VARIANTS_X,
      roundHalfTowardZero (glyphOrigin.y * SUBPIXEL_VARIANTS_Y) / SUBPIXEL_VARIANTS_Y⟩
  let fract (x : ℚ) : ℚ := x - truncate x
  let subpixelVariant : Point ℕ :=
    ⟨⌊fract quantizedOrigin.x * SUBPIXEL_VARIANTS_X⌋.toNat,
      ⌊fract quantizedOrigin.y * SUBPIXEL_VARIANTS_Y⌋.toNat⟩
  let integerOrigin : Point ℚ := ⟨truncate quantizedOrigin.x, truncate quantizedOrigin.y⟩
  let subpixelRendering := display.shouldUseSubpixelRendering fontId fontSize
  let params : RenderGlyphParams :=
    { fontId, glyphId, fontSize, subpixelVariant, subpixelRendering
      dilation := display.glyphDilationForColor color }
  match display.rasterBounds params with
  | none => []
  | some rasterBounds =>
    -- `is_zero` of the bounds.
    if rasterBounds.size.width = 0 ∨ rasterBounds.size.height = 0 then []
    else
      match display.glyphTile params with
      | none => []
      | some tile =>
        [.primitive <| .glyphSprite
          { subpixel := subpixelRendering
            bounds :=
              ⟨⟨integerOrigin.x + rasterBounds.origin.x, integerOrigin.y + rasterBounds.origin.y⟩,
                ⟨tile.bounds.size.width, tile.bounds.size.height⟩⟩
            contentMask := snappedContentMask display window
            color := color.opacity window.elementOpacity
            tile := tile
            fade := window.scaledEdgeFade display }]

/-- `paint_image_fitted_masked` without a mask, once it has the tile of the image, cropped to
the part that is visible. -/
def paintImage (visible : Bounds ℚ) (cornerRadii : Corners) (tile : AtlasTile)
    (grayscale : Bool) : List PaintOperation :=
  [.primitive <| .polychromeSprite
    { grayscale := grayscale
      opacity := window.elementOpacity
      bounds := display.snapBounds visible
      contentMask := snappedContentMask display window
      cornerRadii := display.scaleCorners cornerRadii
      fade := window.scaledEdgeFade display
      tile := tile }]

/-- The tile of a glyph, and its bounds behind an integer origin; the result is `none` for an error
of the text system and for a glyph without pixels. -/
def placeTile (params : RenderGlyphParams) (integerOrigin : Point ℚ) :
    Option (AtlasTile × Bounds ℚ) := do
  let rasterBounds ← display.rasterBounds params
  if rasterBounds.size.width = 0 ∨ rasterBounds.size.height = 0 then none
  else
    let tile ← display.glyphTile params
    return (tile,
      ⟨⟨integerOrigin.x + rasterBounds.origin.x, integerOrigin.y + rasterBounds.origin.y⟩,
        ⟨tile.bounds.size.width, tile.bounds.size.height⟩⟩)

/-- `paint_glyph_transformed` behind the split of the origin. -/
def paintGlyphTransformedAt (split : GlyphOrigin) (fontId glyphId : ℕ) (fontSize : ℚ) (color : Hsla)
    (transformation : TransformationMatrix) (blur : ℚ) : List PaintOperation :=
  let params : RenderGlyphParams :=
    { fontId, glyphId, fontSize, subpixelVariant := split.subpixelVariant
      subpixelRendering := false
      dilation := display.glyphDilationForColor color }
  match placeTile display params split.integerOrigin with
  | none => []
  | some (tile, glyphBounds) =>
    let blur := max (blur * display.scaleFactor) 0
    let blurPad := 3 * blur
    [.primitive <| .monochromeSprite
      { bounds :=
          ⟨⟨glyphBounds.origin.x - blurPad, glyphBounds.origin.y - blurPad⟩,
            ⟨glyphBounds.size.width + blurPad + blurPad,
              glyphBounds.size.height + blurPad + blurPad⟩⟩
        contentMask := snappedContentMask display window
        color := color.opacity window.elementOpacity
        tile := tile
        transformation := transformation
        fade := window.scaledEdgeFade display
        blur := blur }]

/-- `paint_glyph_transformed`. -/
def paintGlyphTransformed (origin : Point ℚ) (fontId glyphId : ℕ) (fontSize : ℚ) (color : Hsla)
    (transformation : TransformationMatrix) (blur : ℚ) : List PaintOperation :=
  paintGlyphTransformedAt display window (splitOrigin display.scaleFactor origin) fontId glyphId
    fontSize color transformation blur

/-- `paint_emoji`. -/
def paintEmoji (origin : Point ℚ) (fontId glyphId : ℕ) (fontSize : ℚ) : List PaintOperation :=
  let params : RenderGlyphParams :=
    { fontId, glyphId, fontSize, subpixelVariant := ⟨0, 0⟩, isEmoji := true
      subpixelRendering := false
      dilation := 0 }
  let glyphOrigin := display.scalePoint origin
  match placeTile display params
    ⟨roundHalfTowardZero glyphOrigin.x, roundHalfTowardZero glyphOrigin.y⟩ with
  | none => []
  | some (tile, bounds) =>
    [.primitive <| .polychromeSprite
      { grayscale := false
        opacity := window.elementOpacity
        bounds := bounds
        contentMask := snappedContentMask display window
        cornerRadii := ⟨0, 0, 0, 0⟩
        fade := window.scaledEdgeFade display
        tile := tile }]

/-- `paint_svg`, with a `SMOOTH_SVG_SCALE_FACTOR` of 2. -/
def paintSvg (bounds : Bounds ℚ) (path : String) (transformation : TransformationMatrix)
    (color : Hsla) : List PaintOperation :=
  let bounds := display.snapBounds bounds
  match display.svgTile path ⟨⌈bounds.size.width * 2⌉, ⌈bounds.size.height * 2⌉⟩ with
  | none => []
  | some tile =>
    let width : ℚ := tile.bounds.size.width / 2
    let height : ℚ := tile.bounds.size.height / 2
    [.primitive <| .monochromeSprite
      { bounds :=
          ⟨⟨roundHalfTowardZero (bounds.origin.x + bounds.size.width / 2 - width / 2),
              roundHalfTowardZero (bounds.origin.y + bounds.size.height / 2 - height / 2)⟩,
            ⟨⌈width⌉, ⌈height⌉⟩⟩
        contentMask := snappedContentMask display window
        color := color.opacity window.elementOpacity
        tile := tile
        transformation := transformation
        fade := window.scaledEdgeFade display
        blur := 0 }]

/-- `paint_surface`. -/
def paintSurface (bounds : Bounds ℚ) (imageBuffer : ℕ) : List PaintOperation :=
  [.primitive <| .surface
    ⟨display.snapBounds bounds, snappedContentMask display window, imageBuffer⟩]

end Methods

/-- A call of a paint method. -/
inductive PaintCall
  | dropShadows (bounds : Bounds ℚ) (cornerRadii : Corners) (shadows : List BoxShadow)
  | insetShadows (bounds : Bounds ℚ) (cornerRadii : Corners) (shadows : List BoxShadow)
  | backdropBlur (bounds : Bounds ℚ) (cornerRadii : Corners) (blurRadius : ℚ)
  | quad (quad : PaintQuad)
  | path (path : Path) (color : Background)
  | underline (origin : Point ℚ) (width : ℚ) (style : UnderlineStyle)
  | strikethrough (origin : Point ℚ) (width : ℚ) (style : StrikethroughStyle)
  | glyph (origin : Point ℚ) (fontId glyphId : ℕ) (fontSize : ℚ) (color : Hsla)
  | glyphTransformed (origin : Point ℚ) (fontId glyphId : ℕ) (fontSize : ℚ) (color : Hsla)
      (transformation : TransformationMatrix) (blur : ℚ)
  | emoji (origin : Point ℚ) (fontId glyphId : ℕ) (fontSize : ℚ)
  | svg (bounds : Bounds ℚ) (path : String) (transformation : TransformationMatrix) (color : Hsla)
  | image (visible : Bounds ℚ) (cornerRadii : Corners) (tile : AtlasTile) (grayscale : Bool)
  | surface (bounds : Bounds ℚ) (imageBuffer : ℕ)

namespace PaintCall

/-- What the call inserts into the scene. -/
def operations (display : Display) (window : Ambient Style) : PaintCall → List PaintOperation
  | .dropShadows bounds radii shadows => paintDropShadows display window bounds radii shadows
  | .insetShadows bounds radii shadows => paintInsetShadows display window bounds radii shadows
  | .backdropBlur bounds radii blur => paintBackdropBlur display window bounds radii blur
  | .quad q => paintQuad display window q
  | .path p color => paintPath display window p color
  | .underline origin width style => paintUnderline display window origin width style
  | .strikethrough origin width style => paintStrikethrough display window origin width style
  | .glyph origin fontId glyphId fontSize color =>
    paintGlyph display window origin fontId glyphId fontSize color
  | .glyphTransformed origin fontId glyphId fontSize color transformation blur =>
    paintGlyphTransformed display window origin fontId glyphId fontSize color transformation blur
  | .emoji origin fontId glyphId fontSize =>
    paintEmoji display window origin fontId glyphId fontSize
  | .svg bounds name transformation color =>
    paintSvg display window bounds name transformation color
  | .image visible radii tile grayscale => paintImage display window visible radii tile grayscale
  | .surface bounds imageBuffer => paintSurface display window bounds imageBuffer

/-- What a call inserts is a function of what is baked. -/
theorem operations_congr {display : Display} {a b : Ambient Style}
    (h : a.baked display = b.baked display) (call : PaintCall) :
    call.operations display a = call.operations display b := by
  obtain ⟨hreadable, hopacity, hfade⟩ := Baked.ext_iff.mp h
  have hmask : a.contentMask = b.contentMask := congrArg Readable.contentMask hreadable
  have hopacity : a.elementOpacity = b.elementOpacity := hopacity
  have hfade : a.scaledEdgeFade display = b.scaledEdgeFade display := hfade
  have hat (p : Point ℚ) : a.elementOpacityAt p = b.elementOpacityAt p :=
    Ambient.elementOpacityRamp_congr h ..
  have hfor (p : Bounds ℚ) : a.elementOpacityForBounds p = b.elementOpacityForBounds p :=
    Ambient.elementOpacityRamp_congr h ..
  have hsnapped : snappedContentMask display a = snappedContentMask display b := by
    rw [snappedContentMask, hmask, snappedContentMask]
  cases call with
  | dropShadows => simp only [operations, paintDropShadows, hfor, hsnapped]
  | insetShadows => simp only [operations, paintInsetShadows, hfor, hsnapped]
  | backdropBlur => simp only [operations, paintBackdropBlur, hmask]
  | quad => simp only [operations, paintQuad, hopacity, hfade, hsnapped]
  | path => simp only [operations, paintPath, hfor, hmask]
  | underline => simp only [operations, paintUnderline, hat, hsnapped]
  | strikethrough => simp only [operations, paintStrikethrough, hat, hsnapped]
  | glyph => simp only [operations, paintGlyph, hopacity, hfade, hsnapped]
  | glyphTransformed =>
    simp only [operations, paintGlyphTransformed, paintGlyphTransformedAt, hopacity,
      hfade, hsnapped]
  | emoji => simp only [operations, paintEmoji, hopacity, hfade, hsnapped]
  | svg => simp only [operations, paintSvg, hopacity, hfade, hsnapped]
  | image => simp only [operations, paintImage, hopacity, hfade, hsnapped]
  | surface => simp only [operations, paintSurface, hsnapped]

end PaintCall

end Zui.Gpui
