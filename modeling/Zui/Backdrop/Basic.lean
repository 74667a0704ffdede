/-
The regions of a backdrop blur, and the functions of the shading language.

A blur has a horizontal pass and a vertical pass, each within a scissor rectangle of its texture,
and a composite into the drawable.  This file has the rectangles of the wgpu renderer.

Design notes:

* coordinates and radii are exact: `K` is a linearly ordered field with floors, such as the rational
  or the real numbers.  The functions of the floating point library are `Builtins`;
* the integers do not overflow, but a subtraction of unsigned integers below zero and a `clamp` with
  its bounds the wrong way round are errors.
-/
import Zui.Gpui.Geometry
import Zui.Library.Loop

namespace Zui

open Gpui

namespace Backdrop

/-- The ways in which a blur panics. -/
inductive Panic
  /-- A subtraction of unsigned integers below zero. -/
  | arithmeticOverflow
  /-- `clamp` with its minimum above its maximum. -/
  | clampBounds
  deriving DecidableEq, Repr

/-- What a function that may panic returns. -/
abbrev Result (α : Type) : Type := Except Panic α

/-- A subtraction of unsigned integers. -/
def sub (a b : ℕ) : Result ℕ := if b ≤ a then .ok (a - b) else .error .arithmeticOverflow

/-- `clamp`. -/
def clamp (x low high : ℤ) : Result ℤ :=
  if low ≤ high then .ok (max low (min x high)) else .error .clampBounds

/-- `div_ceil`. -/
def divCeil (a b : ℕ) : ℕ := (a + b - 1) / b

/-- `Corners`. -/
structure Corners (K : Type) where
  topLeft : K
  topRight : K
  bottomRight : K
  bottomLeft : K

/-- A rectangle of texels. -/
structure Region where
  x : ℕ
  y : ℕ
  width : ℕ
  height : ℕ
  deriving DecidableEq

/-- The texel is in the rectangle. -/
def Region.Has (self : Region) (i j : ℤ) : Prop :=
  self.x ≤ i ∧ i < self.x + self.width ∧ self.y ≤ j ∧ j < self.y + self.height

instance (self : Region) (i j : ℤ) : Decidable (self.Has i j) :=
  inferInstanceAs (Decidable (_ ∧ _ ∧ _ ∧ _))

/-- A rectangle is in another one. -/
def Region.Inside (self other : Region) : Prop :=
  other.x ≤ self.x ∧ self.x + self.width ≤ other.x + other.width ∧
    other.y ≤ self.y ∧ self.y + self.height ≤ other.y + other.height

instance (self other : Region) : Decidable (self.Inside other) :=
  inferInstanceAs (Decidable (_ ∧ _ ∧ _ ∧ _))

section Fields

variable {K : Type} [Field K] [LinearOrder K] [FloorRing K]

/-! ### The scissor rectangles -/

/-- The vertical pass along an axis: the start and the length of its output. -/
def verticalRegion (visible size : K) (source extent output : ℕ) : Result (ℕ × ℕ) := do
  let scale : K := output / extent
  let start : ℤ := ⌊(visible - source) * scale⌋ - 1
  let stop : ℤ := ⌈(visible + size - source) * scale⌉ + 1
  let start ← clamp start 0 output
  let stop ← clamp stop start output
  let length ← sub stop.toNat start.toNat
  .ok (start.toNat, length)

/-- The horizontal pass along an axis, from the vertical one. -/
def horizontalRegion (halo : ℕ) (vertical : ℕ × ℕ) (output : ℕ) : Result (ℕ × ℕ) := do
  let start := vertical.1 - halo
  let stop := min (vertical.1 + vertical.2 + halo) output
  let length ← sub stop start
  .ok (start, length)

/-- `blur_regions`: the outputs of the horizontal and of the vertical pass. -/
def blurRegions (visible : Bounds K) (source : Region) (outputWidth outputHeight : ℕ) (sigma : K) :
    Result (Region × Region) := do
  let (x, width) ← verticalRegion visible.origin.x visible.size.width source.x source.width
    outputWidth
  let (y, height) ← verticalRegion visible.origin.y visible.size.height source.y source.height
    outputHeight
  let (x', width') ← horizontalRegion 1 (x, width) outputWidth
  let (y', height') ← horizontalRegion (⌈3 * sigma⌉.toNat + 1) (y, height) outputHeight
  .ok (⟨x', y', width', height'⟩, ⟨x, y, width, height⟩)

end Fields

/-! ### The shading language -/

/-- The functions of the floating point library and of the shading language. -/
structure Builtins (K : Type) [Field K] [LinearOrder K] where
  exp : K → K
  length : Point K → K
  exp_pos : ∀ x, 0 < exp x

section Shapes

variable {K : Type} [Field K] [LinearOrder K]

/-! ### Sampling -/

/-- An index clamped to the edge. -/
def clampToEdge (i : ℤ) (extent : ℕ) : ℤ := max 0 (min i (extent - 1))

/-! ### Shapes -/

/-- `pick_corner_radius`. -/
def pickCornerRadius (centerToPoint : Point K) (radii : Corners K) : K :=
  if centerToPoint.x < 0 then
    if centerToPoint.y < 0 then radii.topLeft else radii.bottomLeft
  else if centerToPoint.y < 0 then radii.topRight else radii.bottomRight

/-- `quad_sdf_impl`. -/
def quadSdfImpl (m : Builtins K) (cornerCenterToPoint : Point K) (cornerRadius : K) : K :=
  if cornerRadius = 0 then max cornerCenterToPoint.x cornerCenterToPoint.y
  else
    m.length ⟨max 0 cornerCenterToPoint.x, max 0 cornerCenterToPoint.y⟩
      + min 0 (max cornerCenterToPoint.x cornerCenterToPoint.y) - cornerRadius

/-- The point is in the bounds, or on their edge. -/
def Contains (bounds : Bounds K) (point : Point K) : Prop :=
  bounds.origin.x ≤ point.x ∧ point.x ≤ bounds.origin.x + bounds.size.width ∧
    bounds.origin.y ≤ point.y ∧ point.y ≤ bounds.origin.y + bounds.size.height

instance (bounds : Bounds K) (point : Point K) : Decidable (Contains bounds point) :=
  inferInstanceAs (Decidable (_ ∧ _ ∧ _ ∧ _))

/-- `distance_from_clip_rect_impl`. -/
def clipDistances (point : Point K) (clipBounds : Bounds K) : List K :=
  [point.x - clipBounds.origin.x, clipBounds.origin.x + clipBounds.size.width - point.x,
    point.y - clipBounds.origin.y, clipBounds.origin.y + clipBounds.size.height - point.y]

end Shapes

end Backdrop

end Zui
