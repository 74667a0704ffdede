/-
The fragment shader of a quad.

The shader computes the colour of a quad at a position: its background, and its border with
rounded corners and dashes.  The definitions are those of the shading language, with one definition
for each variable of `fs_quad`.

Design notes:

* arithmetic is exact, in a linearly ordered field `K` with floors, and a quotient by zero is zero;
* the functions of the shading language are parameters, and the length of a horizontal vector is all
  that is known of them;
* the colours that the vertex shader prepares are the same at every vertex, and are computed here.

Main statements:

* `gradientColor_a` — a transparent background has no alpha anywhere;
* `dashPosition` and `dashFactor` — the dashes of a border, as a factor of its alpha.
-/
import Mathlib
import Zui.Paint.Scene
import Zui.Backdrop.Basic

namespace Zui

open Gpui (Point Size Bounds BackgroundTag ColorSpace BorderStyle)

namespace Borders

open Backdrop (Corners pickCornerRadius quadSdfImpl clipDistances)

/-- The functions of the shading language. -/
structure Builtins (K : Type) [Field K] [LinearOrder K] extends Backdrop.Builtins K where
  sin : K → K
  cos : K → K
  pow : K → K → K
  atan2 : K → K → K
  length_horizontal : ∀ x, length ⟨x, 0⟩ = |x|

/-! ### The data of a quad -/

/-- `Hsla`. -/
structure Hsla (K : Type) where
  h : K
  s : K
  l : K
  a : K

/-- A colour with its alpha channel. -/
@[ext] structure Rgba (K : Type) where
  r : K
  g : K
  b : K
  a : K

/-- `Edges`. -/
structure Edges (K : Type) where
  top : K
  right : K
  bottom : K
  left : K

/-- `LinearColorStop`. -/
structure LinearColorStop (K : Type) where
  color : Hsla K
  percentage : K

/-- `Background`. -/
structure Background (K : Type) where
  tag : BackgroundTag
  colorSpace : ColorSpace
  solid : Hsla K
  gradientAngleOrPatternHeight : K
  colors : LinearColorStop K × LinearColorStop K

/-- `EdgeFadeParams`. -/
structure EdgeFadeParams (K : Type) where
  topY : K
  bottomY : K
  bandTop : K
  bandBottom : K
  leftX : K
  rightX : K
  bandLeft : K
  bandRight : K
  clipLeft : K
  clipTop : K
  clipRight : K
  clipBottom : K
  clipRadius : K

/-- `Quad`. -/
structure Quad (K : Type) where
  borderStyle : BorderStyle
  bounds : Bounds K
  contentMask : Bounds K
  background : Background K
  borderColor : Hsla K
  cornerRadii : Corners K
  borderWidths : Edges K
  fade : EdgeFadeParams K

section Shader

variable {K : Type} [Field K] [LinearOrder K] [FloorRing K]

/-- `M_PI_F`. -/
def M_PI_F : K := 3.1415926

/-! ### The shading language -/

/-- `trunc`. -/
def trunc (x : K) : K := if x < 0 then ⌈x⌉ else ⌊x⌋

/-- `fmod`, and the operator `%`. -/
def fmod (a b : K) : K := a - b * trunc (a / b)

/-- `clamp`. -/
def clamp (x low high : K) : K := min (max x low) high

/-- `saturate`. -/
def saturate (x : K) : K := clamp x 0 1

/-- `mix` of two numbers. -/
def mix (x y t : K) : K := x * (1 - t) + y * t

/-- `mix` of two colours. -/
def Rgba.mix (x y : Rgba K) (t : K) : Rgba K :=
  ⟨Borders.mix x.r y.r t, Borders.mix x.g y.g t, Borders.mix x.b y.b t, Borders.mix x.a y.a t⟩

/-- The zero vector. -/
instance : Zero (Rgba K) := ⟨⟨0, 0, 0, 0⟩⟩

/-! ### Colours -/

/-- `hsla_to_rgba`. -/
def hslaToRgba (hsla : Hsla K) : Rgba K :=
  let h := hsla.h * 6
  let c := (1 - |2 * hsla.l - 1|) * hsla.s
  let x := c * (1 - |fmod h 2 - 1|)
  let m := hsla.l - c / 2
  if h ≥ 0 ∧ h < 1 then ⟨m + c, m + x, m, hsla.a⟩
  else if h ≥ 1 ∧ h < 2 then ⟨m + x, m + c, m, hsla.a⟩
  else if h ≥ 2 ∧ h < 3 then ⟨m, m + c, m + x, hsla.a⟩
  else if h ≥ 3 ∧ h < 4 then ⟨m, m + x, m + c, hsla.a⟩
  else if h ≥ 4 ∧ h < 5 then ⟨m + x, m, m + c, hsla.a⟩
  else ⟨m + c, m, m + x, hsla.a⟩

/-- A component of `linear_to_srgb`. -/
def linearToSrgb (m : Builtins K) (linear : K) : K :=
  if linear < 0.0031308 then linear * 12.92 else 1.055 * m.pow linear (1 / 2.4) - 0.055

/-- `linear_to_srgba`. -/
def linearToSrgba (m : Builtins K) (color : Rgba K) : Rgba K :=
  ⟨linearToSrgb m color.r, linearToSrgb m color.g, linearToSrgb m color.b, color.a⟩

/-- A component of `srgb_to_linear`. -/
def srgbToLinear (m : Builtins K) (srgb : K) : K :=
  if srgb < 0.04045 then srgb / 12.92 else m.pow ((srgb + 0.055) / 1.055) 2.4

/-- `srgba_to_linear`. -/
def srgbaToLinear (m : Builtins K) (color : Rgba K) : Rgba K :=
  ⟨srgbToLinear m color.r, srgbToLinear m color.g, srgbToLinear m color.b, color.a⟩

/-- `linear_srgb_to_oklab`. -/
def linearSrgbToOklab (builtins : Builtins K) (color : Rgba K) : Rgba K :=
  let l := 0.4122214708 * color.r + 0.5363325363 * color.g + 0.0514459929 * color.b
  let m := 0.2119034982 * color.r + 0.6806995451 * color.g + 0.1073969566 * color.b
  let s := 0.0883024619 * color.r + 0.2817188376 * color.g + 0.6299787005 * color.b
  let l' := builtins.pow l (1 / 3)
  let m' := builtins.pow m (1 / 3)
  let s' := builtins.pow s (1 / 3)
  ⟨0.2104542553 * l' + 0.7936177850 * m' - 0.0040720468 * s',
    1.9779984951 * l' - 2.4285922050 * m' + 0.4505937099 * s',
    0.0259040371 * l' + 0.7827717662 * m' - 0.8086757660 * s', color.a⟩

/-- `oklab_to_linear_srgb`. -/
def oklabToLinearSrgb (color : Rgba K) : Rgba K :=
  let l' := color.r + 0.3963377774 * color.g + 0.2158037573 * color.b
  let m' := color.r - 0.1055613458 * color.g - 0.0638541728 * color.b
  let s' := color.r - 0.0894841775 * color.g - 1.2914855480 * color.b
  let l := l' * l' * l'
  let m := m' * m' * m'
  let s := s' * s' * s'
  ⟨4.0767416621 * l - 3.3077115913 * m + 0.2309699292 * s,
    -1.2684380046 * l + 2.6097574011 * m - 0.3413193965 * s,
    -0.0041960863 * l - 0.7034186147 * m + 1.7076147010 * s, color.a⟩

/-- `over`. -/
def composeOver (below above : Rgba K) : Rgba K :=
  let alpha := above.a + below.a * (1 - above.a)
  let channel (below' above' : K) : K :=
    (above' * above.a + below' * below.a * (1 - above.a)) / alpha
  ⟨channel below.r above.r, channel below.g above.g, channel below.b above.b, alpha⟩

/-- `blend_color`. -/
def blendColor (premultipliedAlpha : Bool) (color : Rgba K) (alphaFactor : K) : Rgba K :=
  let alpha := color.a * alphaFactor
  let multiplier := if premultipliedAlpha then alpha else 1
  ⟨color.r * multiplier, color.g * multiplier, color.b * multiplier, alpha⟩

/-! ### Backgrounds -/

/-- `GradientColor`. -/
structure GradientColor (K : Type) where
  solid : Rgba K
  color0 : Rgba K
  color1 : Rgba K

/-- The colour of a gradient stop, in the colour space of the gradient. -/
def prepareStop (m : Builtins K) (colorSpace : ColorSpace) (color : Hsla K) : Rgba K :=
  match colorSpace with
  | .srgb => linearToSrgba m (hslaToRgba color)
  | .oklab => linearSrgbToOklab m (hslaToRgba color)

/-- `prepare_gradient_color`. -/
def prepareGradientColor (m : Builtins K) (background : Background K) : GradientColor K :=
  match background.tag with
  | .solid | .patternSlash | .checkerboard => ⟨hslaToRgba background.solid, 0, 0⟩
  | .linearGradient =>
    ⟨0, prepareStop m background.colorSpace background.colors.1.color,
      prepareStop m background.colorSpace background.colors.2.color⟩

/-- `gradient_color`. -/
def gradientColor (m : Builtins K) (background : Background K) (position : Point K)
    (bounds : Bounds K) (gradient : GradientColor K) : Rgba K :=
  let relative : Point K := ⟨position.x - bounds.origin.x, position.y - bounds.origin.y⟩
  match background.tag with
  | .solid => gradient.solid
  | .linearGradient =>
    let radians := (fmod background.gradientAngleOrPatternHeight 360 - 90) * M_PI_F / 180
    let x := m.cos radians
    let y := m.sin radians
    let direction : Point K :=
      if bounds.size.width > bounds.size.height then
        ⟨x, y * (bounds.size.height / bounds.size.width)⟩
      else ⟨x * (bounds.size.width / bounds.size.height), y⟩
    let centerToPoint : Point K :=
      ⟨position.x - (bounds.origin.x + bounds.size.width / 2),
        position.y - (bounds.origin.y + bounds.size.height / 2)⟩
    let t := (centerToPoint.x * direction.x + centerToPoint.y * direction.y) / m.length direction
    let t := if |direction.x| > |direction.y| then
        (t + bounds.size.width / 2) / bounds.size.width
      else (t + bounds.size.height / 2) / bounds.size.height
    let t := (t - background.colors.1.percentage) /
      (background.colors.2.percentage - background.colors.1.percentage)
    let mixed := gradient.color0.mix gradient.color1 (clamp t 0 1)
    match background.colorSpace with
    | .srgb => srgbaToLinear m mixed
    | .oklab => oklabToLinearSrgb mixed
  | .patternSlash =>
    let patternWidth := background.gradientAngleOrPatternHeight / 65535 / 255
    let patternInterval := fmod background.gradientAngleOrPatternHeight 65535 / 255
    let patternHeight := patternWidth + patternInterval
    let stripeAngle : K := M_PI_F / 4
    let patternPeriod := patternHeight * m.sin stripeAngle
    -- The columns of the matrix are `(cos, -sin)` and `(sin, cos)`.
    let rotatedX := m.cos stripeAngle * relative.x + m.sin stripeAngle * relative.y
    let pattern := fmod rotatedX patternPeriod
    let distance := min pattern (patternPeriod - pattern) -
      patternPeriod * (patternWidth / patternHeight) / 2
    { gradient.solid with a := gradient.solid.a * saturate (1 / 2 - distance) }
  | .checkerboard =>
    let size := background.gradientAngleOrPatternHeight
    let xIndex : K := ⌊relative.x / size⌋
    let yIndex : K := ⌊relative.y / size⌋
    let shouldBeColored := fmod (xIndex + yIndex) 2
    { gradient.solid with a := gradient.solid.a * saturate shouldBeColored }

/-! ### The edge fade -/

/-- `edge_fade_alpha`. -/
def edgeFadeAlpha (m : Builtins K) (position : Point K) (fade : EdgeFadeParams K) : K :=
  let ramp : K := 1
  let ramp := if fade.bandTop > 0 then
    min ramp (clamp ((position.y - fade.topY) / fade.bandTop) 0 1) else ramp
  let ramp := if fade.bandBottom > 0 then
    min ramp (clamp ((fade.bottomY - position.y) / fade.bandBottom) 0 1) else ramp
  let ramp := if fade.bandLeft > 0 then
    min ramp (clamp ((position.x - fade.leftX) / fade.bandLeft) 0 1) else ramp
  let ramp := if fade.bandRight > 0 then
    min ramp (clamp ((fade.rightX - position.x) / fade.bandRight) 0 1) else ramp
  let alpha := ramp * ramp
  if fade.clipRight > fade.clipLeft then
    let halfSize : Point K :=
      ⟨(fade.clipRight - fade.clipLeft) / 2, (fade.clipBottom - fade.clipTop) / 2⟩
    let center : Point K := ⟨fade.clipLeft + halfSize.x, fade.clipTop + halfSize.y⟩
    let radius := min fade.clipRadius (min halfSize.x halfSize.y)
    let q : Point K :=
      ⟨|position.x - center.x| - halfSize.x + radius, |position.y - center.y| - halfSize.y + radius⟩
    let distance := m.length ⟨max q.x 0, max q.y 0⟩ + min (max q.x q.y) 0 - radius
    alpha * clamp (1 / 2 - distance) 0 1
  else alpha

/-! ### Distances -/

section Distances

variable (quad : Quad K) (position : Point K)

/-- `unrounded`. -/
def Quad.Unrounded : Prop :=
  quad.cornerRadii.topLeft = 0 ∧ quad.cornerRadii.bottomLeft = 0 ∧
    quad.cornerRadii.topRight = 0 ∧ quad.cornerRadii.bottomRight = 0

instance : Decidable quad.Unrounded := inferInstanceAs (Decidable (_ ∧ _ ∧ _ ∧ _))

/-- The quad has no border. -/
def Quad.Borderless : Prop :=
  quad.borderWidths.top = 0 ∧ quad.borderWidths.left = 0 ∧
    quad.borderWidths.right = 0 ∧ quad.borderWidths.bottom = 0

instance : Decidable quad.Borderless := inferInstanceAs (Decidable (_ ∧ _ ∧ _ ∧ _))

/-- `point`. -/
def Quad.point : Point K := ⟨position.x - quad.bounds.origin.x, position.y - quad.bounds.origin.y⟩

/-- `center_to_point`. -/
def Quad.centerToPoint : Point K :=
  ⟨(quad.point position).x - quad.bounds.size.width / 2,
    (quad.point position).y - quad.bounds.size.height / 2⟩

/-- `corner_radius`. -/
def Quad.cornerRadius : K := pickCornerRadius (quad.centerToPoint position) quad.cornerRadii

/-- `border`. -/
def Quad.border : Point K :=
  ⟨if (quad.centerToPoint position).x < 0 then quad.borderWidths.left else quad.borderWidths.right,
    if (quad.centerToPoint position).y < 0 then quad.borderWidths.top else quad.borderWidths.bottom⟩

/-- A component of `reduced_border`. -/
def reduced (border : K) : K := if border = 0 then -(1 / 2) else border

/-- `reduced_border`. -/
def Quad.reducedBorder : Point K :=
  ⟨reduced (quad.border position).x, reduced (quad.border position).y⟩

/-- `corner_to_point`. -/
def Quad.cornerToPoint : Point K :=
  ⟨|(quad.centerToPoint position).x| - quad.bounds.size.width / 2,
    |(quad.centerToPoint position).y| - quad.bounds.size.height / 2⟩

/-- `corner_center_to_point`. -/
def Quad.cornerCenterToPoint : Point K :=
  ⟨(quad.cornerToPoint position).x + quad.cornerRadius position,
    (quad.cornerToPoint position).y + quad.cornerRadius position⟩

/-- `is_near_rounded_corner`. -/
def Quad.IsNearRoundedCorner : Prop :=
  (quad.cornerCenterToPoint position).x ≥ 0 ∧ (quad.cornerCenterToPoint position).y ≥ 0

instance : Decidable (quad.IsNearRoundedCorner position) := inferInstanceAs (Decidable (_ ∧ _))

/-- `straight_border_inner_corner_to_point`. -/
def Quad.straightBorderInnerCornerToPoint : Point K :=
  ⟨(quad.cornerToPoint position).x + (quad.reducedBorder position).x,
    (quad.cornerToPoint position).y + (quad.reducedBorder position).y⟩

/-- `is_beyond_inner_straight_border`. -/
def Quad.IsBeyondInnerStraightBorder : Prop :=
  (quad.straightBorderInnerCornerToPoint position).x > 0 ∨
    (quad.straightBorderInnerCornerToPoint position).y > 0

instance : Decidable (quad.IsBeyondInnerStraightBorder position) :=
  inferInstanceAs (Decidable (_ ∨ _))

/-- `is_within_inner_straight_border`. -/
def Quad.IsWithinInnerStraightBorder : Prop :=
  (quad.straightBorderInnerCornerToPoint position).x < -(1 / 2) ∧
    (quad.straightBorderInnerCornerToPoint position).y < -(1 / 2)

instance : Decidable (quad.IsWithinInnerStraightBorder position) :=
  inferInstanceAs (Decidable (_ ∧ _))

/-- `quarter_ellipse_sdf`. -/
def quarterEllipseSdf (m : Builtins K) (point radii : Point K) : K :=
  let unitCircleSdf := m.length ⟨point.x / radii.x, point.y / radii.y⟩ - 1
  unitCircleSdf * (radii.x + radii.y) * -(1 / 2)

/-- `outer_sdf`. -/
def Quad.outerSdf (m : Builtins K) : K :=
  quadSdfImpl m.toBuiltins (quad.cornerCenterToPoint position) (quad.cornerRadius position)

/-- `inner_sdf`. -/
def Quad.innerSdf (m : Builtins K) : K :=
  let corner := quad.cornerCenterToPoint position
  let straight := quad.straightBorderInnerCornerToPoint position
  let reduced := quad.reducedBorder position
  if corner.x ≤ 0 ∨ corner.y ≤ 0 then -max straight.x straight.y
  else if quad.IsBeyondInnerStraightBorder position then -1
  else if reduced.x = reduced.y then -(quad.outerSdf position m + reduced.x)
  else
    quarterEllipseSdf m corner
      ⟨max 0 (quad.cornerRadius position - reduced.x),
        max 0 (quad.cornerRadius position - reduced.y)⟩

end Distances

/-! ### Dashes -/

/-- A position along a border in dash space. -/
structure DashPosition (K : Type) where
  t : K
  maxT : K
  dashVelocity : K

/-- `dv_numerator`. -/
def dvNumerator : K := 1 / 3

/-- `dash_length`. -/
def dashLength : K := 2 / 3

/-- `corner_dash_velocity`. -/
def cornerDashVelocity (dv1 dv2 : K) : K :=
  if dv1 = 0 then dv2 else if dv2 = 0 then dv1 else min dv1 dv2

/-- `dash_alpha`. -/
def dashAlpha (t period length dashVelocity antialiasThreshold : K) : K :=
  let halfPeriod := period / 2
  let halfLength := length / 2
  let centered := fmod (t + halfPeriod - halfLength) period - halfPeriod
  let signedDistance := |centered| - halfLength
  saturate (antialiasThreshold - signedDistance / dashVelocity)

section Dashes

variable (quad : Quad K) (position : Point K)

/-- `is_horizontal`. -/
def Quad.IsHorizontal : Prop :=
  (quad.cornerCenterToPoint position).x < (quad.cornerCenterToPoint position).y

instance : Decidable (quad.IsHorizontal position) := inferInstanceAs (Decidable (_ < _))

/-- The dashes of a quad without rounded corners, laid out on each line. -/
def Quad.unroundedDash : DashPosition K :=
  let widths := quad.borderWidths
  let borderWidth := if quad.IsHorizontal position then max widths.bottom widths.top
    else max widths.right widths.left
  let dashVelocity := dvNumerator / borderWidth
  { t := (if quad.IsHorizontal position then (quad.point position).x
      else (quad.point position).y) * dashVelocity
    maxT := (if quad.IsHorizontal position then quad.bounds.size.width
      else quad.bounds.size.height) * dashVelocity
    dashVelocity := dashVelocity }

/-- The dashes of a quad with rounded corners, laid out clockwise around the perimeter. -/
def Quad.roundedDash (m : Builtins K) : DashPosition K :=
  let radii := quad.cornerRadii
  let size := quad.bounds.size
  let point := quad.point position
  let corner := quad.cornerCenterToPoint position
  let center := quad.centerToPoint position
  let velocity (width : K) : K := if width ≤ 0 then 0 else dvNumerator / width
  let dvT := velocity quad.borderWidths.top
  let dvR := velocity quad.borderWidths.right
  let dvB := velocity quad.borderWidths.bottom
  let dvL := velocity quad.borderWidths.left
  let sT := (size.width - radii.topLeft - radii.topRight) * dvT
  let sR := (size.height - radii.topRight - radii.bottomRight) * dvR
  let sB := (size.width - radii.bottomRight - radii.bottomLeft) * dvB
  let sL := (size.height - radii.bottomLeft - radii.topLeft) * dvL
  let velocityTr := cornerDashVelocity dvT dvR
  let velocityBr := cornerDashVelocity dvB dvR
  let velocityBl := cornerDashVelocity dvB dvL
  let velocityTl := cornerDashVelocity dvT dvL
  let cTr := radii.topRight * (M_PI_F / 2) * velocityTr
  let cBr := radii.bottomRight * (M_PI_F / 2) * velocityBr
  let cBl := radii.bottomLeft * (M_PI_F / 2) * velocityBl
  let cTl := radii.topLeft * (M_PI_F / 2) * velocityTl
  let uptoTr := sT
  let uptoR := uptoTr + cTr
  let uptoBr := uptoR + sR
  let uptoB := uptoBr + cBr
  let uptoBl := uptoB + sB
  let uptoL := uptoBl + cBl
  let uptoTl := uptoL + sL
  let maxT := uptoTl + cTl
  if quad.IsNearRoundedCorner position then
    let cornerT := m.atan2 corner.y corner.x * quad.cornerRadius position
    if center.x ≥ 0 then
      if center.y < 0 then ⟨uptoR - cornerT * velocityTr, maxT, velocityTr⟩
      else ⟨uptoBr + cornerT * velocityBr, maxT, velocityBr⟩
    else if center.y ≥ 0 then ⟨uptoL - cornerT * velocityBl, maxT, velocityBl⟩
    else ⟨uptoTl + cornerT * velocityTl, maxT, velocityTl⟩
  else if quad.IsHorizontal position then
    if center.y < 0 then ⟨(point.x - radii.topLeft) * dvT, maxT, dvT⟩
    else ⟨uptoBl - (point.x - radii.bottomLeft) * dvB, maxT, dvB⟩
  else if center.x < 0 then ⟨uptoTl - (point.y - radii.topLeft) * dvL, maxT, dvL⟩
  else ⟨uptoR + (point.y - radii.topRight) * dvR, maxT, dvR⟩

/-- The position of a point along the border, in dash space. -/
def Quad.dashPosition (m : Builtins K) : DashPosition K :=
  if quad.Unrounded then quad.unroundedDash position else quad.roundedDash position m

/-- The factor of the alpha of the border for its dashes. -/
def Quad.dashFactor (m : Builtins K) : K :=
  match quad.borderStyle with
  | .solid => 1
  | .dashed =>
    let dash := quad.dashPosition position m
    let maxT := dash.maxT - if quad.Unrounded then dashLength else 0
    if maxT ≥ 1 then
      let dashPeriod := maxT / ⌊maxT⌋
      dashAlpha dash.t dashPeriod dashLength dash.dashVelocity (1 / 2)
    else if quad.Unrounded then
      let dashGap := maxT - dashLength
      if dashGap > 0 then
        dashAlpha dash.t (dashLength + dashGap) dashLength dash.dashVelocity (1 / 2)
      else 1
    else 1

end Dashes

/-! ### The fragment -/

section Fragment

variable (m : Builtins K) (premultipliedAlpha : Bool) (quad : Quad K) (position : Point K)

/-- The colour of the background, faded. -/
def Quad.backgroundColor : Rgba K :=
  let color := gradientColor m quad.background position quad.bounds
    (prepareGradientColor m quad.background)
  { color with a := color.a * edgeFadeAlpha m position quad.fade }

/-- The colour of the border, with its dashes. -/
def Quad.dashedBorderColor : Rgba K :=
  let color := hslaToRgba quad.borderColor
  { color with a := color.a * quad.dashFactor position m }

/-- The clip test: no clip distance is negative. -/
def Quad.PassesClip : Prop :=
  ∀ distance ∈ clipDistances position quad.contentMask, ¬ distance < 0

instance : Decidable (quad.PassesClip position) := inferInstanceAs (Decidable (∀ _ ∈ _, _))

/-- `fs_quad` behind the clip test. -/
def Quad.shade : Rgba K :=
  let background := quad.backgroundColor m position
  if quad.Borderless ∧ quad.Unrounded then blendColor premultipliedAlpha background 1
  else if quad.IsWithinInnerStraightBorder position ∧ ¬ quad.IsNearRoundedCorner position then
    blendColor premultipliedAlpha background 1
  else
    let outerSdf := quad.outerSdf position m
    let innerSdf := quad.innerSdf position m
    let borderSdf := max innerSdf outerSdf
    let color := if borderSdf < 1 / 2 then
        background.mix (composeOver background (quad.dashedBorderColor m position))
          (saturate (1 / 2 - innerSdf))
      else background
    blendColor premultipliedAlpha color
      (saturate (1 / 2 - outerSdf) * edgeFadeAlpha m position quad.fade)

/-- `fs_quad`. -/
def Quad.fsQuad : Rgba K :=
  if quad.PassesClip position then quad.shade m premultipliedAlpha position else 0

end Fragment

/-! ### Transparent backgrounds -/

@[simp] theorem hslaToRgba_a (color : Hsla K) : (hslaToRgba color).a = color.a := by
  rw [hslaToRgba]
  split_ifs <;> rfl

@[simp] theorem prepareStop_a (m : Builtins K) (colorSpace : ColorSpace) (color : Hsla K) :
    (prepareStop m colorSpace color).a = color.a := by
  cases colorSpace <;> exact hslaToRgba_a color

/-- `is_transparent`. -/
def Background.IsTransparent (background : Background K) : Prop :=
  match background.tag with
  | .solid | .patternSlash | .checkerboard => background.solid.a = 0
  | .linearGradient => background.colors.1.color.a = 0 ∧ background.colors.2.color.a = 0

/-- A transparent background has no alpha anywhere. -/
theorem gradientColor_a (m : Builtins K) {background : Background K}
    (h : background.IsTransparent) (position : Point K) (bounds : Bounds K) :
    (gradientColor m background position bounds (prepareGradientColor m background)).a = 0 := by
  cases htag : background.tag with
  | solid =>
    have hsolid : background.solid.a = 0 := by simpa [Background.IsTransparent, htag] using h
    simp [gradientColor, prepareGradientColor, htag, hsolid]
  | patternSlash =>
    have hsolid : background.solid.a = 0 := by simpa [Background.IsTransparent, htag] using h
    simp [gradientColor, prepareGradientColor, htag, hsolid]
  | checkerboard =>
    have hsolid : background.solid.a = 0 := by simpa [Background.IsTransparent, htag] using h
    simp [gradientColor, prepareGradientColor, htag, hsolid]
  | linearGradient =>
    have hstops : background.colors.1.color.a = 0 ∧ background.colors.2.color.a = 0 := by
      simpa [Background.IsTransparent, htag] using h
    cases hspace : background.colorSpace <;>
      simp [gradientColor, prepareGradientColor, htag, hspace, srgbaToLinear, oklabToLinearSrgb,
        Rgba.mix, mix, hstops]

end Shader

end Borders

end Zui
