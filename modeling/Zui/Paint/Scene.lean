/-
Colours, primitives and the scene that they are recorded in.

A scene is the sequence of its paint operations.  The draw orders, which the scene assigns
as the operations come in, and its lists by kind depend on this sequence alone and are
left out.

Design notes:

* lengths and alpha values are exact (rational) numbers;
* padding fields, which only fill the layout in memory, are left out;
* the surfaces, which one platform alone paints, are left out.

Main statements:

* `Scene.replay_eq` — replaying operations that a scene has recorded records them again,
  every one and in order.
-/
import Zui.Gpui.Geometry

namespace Zui.Gpui

/-- `Hsla`. -/
structure Hsla where
  h : ℚ
  s : ℚ
  l : ℚ
  a : ℚ
  deriving DecidableEq

namespace Hsla

/-- `opacity`. -/
def opacity (self : Hsla) (factor : ℚ) : Hsla :=
  { self with a := self.a * max 0 (min factor 1) }

/-- `is_transparent`. -/
def isTransparent (self : Hsla) : Bool := self.a = 0

end Hsla

/-- `black`. -/
def black : Hsla := ⟨0, 0, 0, 1⟩

/-- `transparent_black`. -/
def transparentBlack : Hsla := ⟨0, 0, 0, 0⟩

/-- `BackgroundTag`. -/
inductive BackgroundTag
  | solid
  | linearGradient
  | patternSlash
  | checkerboard
  deriving DecidableEq

/-- `ColorSpace`. -/
inductive ColorSpace
  | srgb
  | oklab
  deriving DecidableEq

/-- `LinearColorStop`. -/
structure LinearColorStop where
  color : Hsla
  percentage : ℚ
  deriving DecidableEq

/-- `LinearColorStop::opacity`. -/
def LinearColorStop.opacity (self : LinearColorStop) (factor : ℚ) : LinearColorStop :=
  { self with color := self.color.opacity factor }

/-- `Background`. -/
structure Background where
  tag : BackgroundTag
  colorSpace : ColorSpace
  solid : Hsla
  gradientAngleOrPatternHeight : ℚ
  colors : LinearColorStop × LinearColorStop
  deriving DecidableEq

namespace Background

/-- `opacity`. -/
def opacity (self : Background) (factor : ℚ) : Background :=
  { self with
    solid := self.solid.opacity factor
    colors := (self.colors.1.opacity factor, self.colors.2.opacity factor) }

/-- `is_transparent`. -/
def isTransparent (self : Background) : Bool :=
  match self.tag with
  | .solid => self.solid.isTransparent
  | .linearGradient => self.colors.1.color.isTransparent && self.colors.2.color.isTransparent
  | .patternSlash => self.solid.isTransparent
  | .checkerboard => self.solid.isTransparent

end Background

/-- `Corners`. -/
structure Corners where
  topLeft : ℚ
  topRight : ℚ
  bottomRight : ℚ
  bottomLeft : ℚ
  deriving DecidableEq

/-- `Edges`. -/
structure Edges where
  top : ℚ
  right : ℚ
  bottom : ℚ
  left : ℚ
  deriving DecidableEq

/-- `ContentMask`. -/
structure ContentMask where
  bounds : Bounds ℚ
  deriving DecidableEq

/-- `ContentMask::intersect`. -/
def ContentMask.intersect (self other : ContentMask) : ContentMask :=
  ⟨self.bounds.intersect other.bounds⟩

/-- `EdgeFadeParams`. -/
@[ext] structure EdgeFadeParams where
  topY : ℚ := 0
  bottomY : ℚ := 0
  bandTop : ℚ := 0
  bandBottom : ℚ := 0
  leftX : ℚ := 0
  rightX : ℚ := 0
  bandLeft : ℚ := 0
  bandRight : ℚ := 0
  clipLeft : ℚ := 0
  clipTop : ℚ := 0
  clipRight : ℚ := 0
  clipBottom : ℚ := 0
  clipRadius : ℚ := 0
  deriving DecidableEq

/-! ### Primitives -/

/-- `BorderStyle`. -/
inductive BorderStyle
  | solid
  | dashed
  deriving DecidableEq

/-- `Quad`. -/
structure Quad where
  borderStyle : BorderStyle
  bounds : Bounds ℚ
  contentMask : ContentMask
  background : Background
  borderColor : Hsla
  cornerRadii : Corners
  borderWidths : Edges
  fade : EdgeFadeParams
  deriving DecidableEq

/-- `Underline`. -/
structure Underline where
  bounds : Bounds ℚ
  contentMask : ContentMask
  color : Hsla
  thickness : ℚ
  wavy : Bool
  deriving DecidableEq

/-- `Shadow`. -/
structure Shadow where
  blurRadius : ℚ
  bounds : Bounds ℚ
  cornerRadii : Corners
  contentMask : ContentMask
  color : Hsla
  elementBounds : Bounds ℚ
  elementCornerRadii : Corners
  inset : Bool
  deriving DecidableEq

/-- `BackdropBlur`. -/
structure BackdropBlur where
  blurRadius : ℚ
  bounds : Bounds ℚ
  contentMask : ContentMask
  cornerRadii : Corners
  deriving DecidableEq

/-- `PathVertex`. -/
structure PathVertex where
  xyPosition : Point ℚ
  stPosition : Point ℚ
  contentMask : ContentMask
  deriving DecidableEq

/-- `Path`. -/
structure Path where
  bounds : Bounds ℚ
  contentMask : ContentMask
  vertices : List PathVertex
  color : Background
  start : Point ℚ
  current : Point ℚ
  contourCount : ℕ
  deriving DecidableEq

/-- `AtlasTile`. -/
structure AtlasTile where
  textureId : ℕ
  tileId : ℕ
  padding : ℕ
  bounds : Bounds ℤ
  deriving DecidableEq

/-- `TransformationMatrix`. -/
structure TransformationMatrix where
  rotationScale : (ℚ × ℚ) × (ℚ × ℚ)
  translation : ℚ × ℚ
  deriving DecidableEq

/-- `MonochromeSprite`. -/
structure MonochromeSprite where
  bounds : Bounds ℚ
  contentMask : ContentMask
  color : Hsla
  tile : AtlasTile
  transformation : TransformationMatrix
  fade : EdgeFadeParams
  blur : ℚ
  deriving DecidableEq

/-- `MonochromeSprite` and `SubpixelSprite`, painted without a transformation or a blur. -/
structure GlyphSprite where
  subpixel : Bool
  bounds : Bounds ℚ
  contentMask : ContentMask
  color : Hsla
  tile : AtlasTile
  fade : EdgeFadeParams
  deriving DecidableEq

/-- `PolychromeSprite`, painted without an alpha mask. -/
structure PolychromeSprite where
  grayscale : Bool
  opacity : ℚ
  bounds : Bounds ℚ
  contentMask : ContentMask
  cornerRadii : Corners
  fade : EdgeFadeParams
  tile : AtlasTile
  deriving DecidableEq

/-- `PaintSurface`. -/
structure PaintSurface where
  bounds : Bounds ℚ
  contentMask : ContentMask
  imageBuffer : ℕ
  deriving DecidableEq

/-- `Primitive`. -/
inductive Primitive
  | shadow (shadow : Shadow)
  | quad (quad : Quad)
  | path (path : Path)
  | underline (underline : Underline)
  | glyphSprite (sprite : GlyphSprite)
  | monochromeSprite (sprite : MonochromeSprite)
  | polychromeSprite (sprite : PolychromeSprite)
  | surface (surface : PaintSurface)
  deriving DecidableEq

namespace Primitive

/-- `bounds`. -/
def bounds : Primitive → Bounds ℚ
  | shadow p => p.bounds
  | quad p => p.bounds
  | path p => p.bounds
  | underline p => p.bounds
  | glyphSprite p => p.bounds
  | monochromeSprite p => p.bounds
  | polychromeSprite p => p.bounds
  | surface p => p.bounds

/-- `content_mask`. -/
def contentMask : Primitive → ContentMask
  | shadow p => p.contentMask
  | quad p => p.contentMask
  | path p => p.contentMask
  | underline p => p.contentMask
  | glyphSprite p => p.contentMask
  | monochromeSprite p => p.contentMask
  | polychromeSprite p => p.contentMask
  | surface p => p.contentMask

end Primitive

/-! ### The scene -/

/-- `PaintOperation`. -/
inductive PaintOperation
  | primitive (primitive : Primitive)
  | backdropBlur (blur : BackdropBlur)
  | startLayer (bounds : Bounds ℚ)
  | endLayer
  deriving DecidableEq

/-- `Scene`. -/
structure Scene where
  paintOperations : List PaintOperation := []

namespace Scene

/-- `len`. -/
def len (self : Scene) : ℕ := self.paintOperations.length

/-- `paint_operations.push`. -/
def record (self : Scene) (operation : PaintOperation) : Scene :=
  ⟨self.paintOperations ++ [operation]⟩

/-- `push_layer`. -/
def pushLayer (self : Scene) (bounds : Bounds ℚ) : Scene := self.record (.startLayer bounds)

/-- `pop_layer`. -/
def popLayer (self : Scene) : Scene := self.record .endLayer

/-- `insert_backdrop_blur`. -/
def insertBackdropBlur (self : Scene) (blur : BackdropBlur) : Scene :=
  if (blur.bounds.intersect blur.contentMask.bounds).isEmpty then self
  else self.record (.backdropBlur blur)

/-- `insert_primitive`. -/
def insertPrimitive (self : Scene) (primitive : Primitive) : Scene :=
  if (primitive.bounds.intersect primitive.contentMask.bounds).isEmpty then self
  else self.record (.primitive primitive)

/-- The body of the loop of `replay`. -/
def insert (self : Scene) : PaintOperation → Scene
  | .primitive primitive => self.insertPrimitive primitive
  | .backdropBlur blur => self.insertBackdropBlur blur
  | .startLayer bounds => self.pushLayer bounds
  | .endLayer => self.popLayer

/-- Every operation of a list, in order. -/
def insertAll (self : Scene) (operations : List PaintOperation) : Scene :=
  operations.foldl insert self

/-- `replay`. -/
def replay (self : Scene) (range : ℕ × ℕ) (prevScene : Scene) : Scene :=
  self.insertAll ((prevScene.paintOperations.take range.2).drop range.1)

end Scene

namespace PaintOperation

/-- The operation passes the test for clipped bounds that are not empty. -/
def visible : PaintOperation → Bool
  | primitive p => !(p.bounds.intersect p.contentMask.bounds).isEmpty
  | backdropBlur blur => !(blur.bounds.intersect blur.contentMask.bounds).isEmpty
  | startLayer _ => true
  | endLayer => true

end PaintOperation

namespace Scene

theorem insert_eq (scene : Scene) (operation : PaintOperation) :
    scene.insert operation =
      ⟨scene.paintOperations ++ [operation].filter PaintOperation.visible⟩ := by
  cases operation with
  | primitive p =>
    simp only [insert, insertPrimitive, PaintOperation.visible, List.filter_singleton]
    cases (p.bounds.intersect p.contentMask.bounds).isEmpty <;> simp [record]
  | backdropBlur blur =>
    simp only [insert, insertBackdropBlur, PaintOperation.visible, List.filter_singleton]
    cases (blur.bounds.intersect blur.contentMask.bounds).isEmpty <;> simp [record]
  | startLayer bounds => rfl
  | endLayer => rfl

theorem insertAll_eq (scene : Scene) (operations : List PaintOperation) :
    scene.insertAll operations =
      ⟨scene.paintOperations ++ operations.filter PaintOperation.visible⟩ := by
  induction operations generalizing scene with
  | nil => simp [insertAll]
  | cons operation rest ih =>
    have h : scene.insertAll (operation :: rest) = (scene.insert operation).insertAll rest := rfl
    rw [h, ih, insert_eq]
    simp only [List.append_assoc, ← List.filter_append, List.singleton_append]

/-- Replaying the operations between two places of a scene, all of them visible, records
them again. -/
theorem replay_eq (scene : Scene) {before operations after : List PaintOperation}
    (h : ∀ operation ∈ operations, operation.visible = true) :
    scene.replay (before.length, before.length + operations.length)
        ⟨before ++ operations ++ after⟩ =
      ⟨scene.paintOperations ++ operations⟩ := by
  have hslice : ((before ++ operations ++ after).take (before.length + operations.length)).drop
      before.length = operations := by
    rw [List.take_append_of_le_length (by simp), List.take_of_length_le (by simp),
      List.drop_left]
  rw [replay, hslice, insertAll_eq, List.filter_eq_self.mpr h]

end Scene

end Zui.Gpui
