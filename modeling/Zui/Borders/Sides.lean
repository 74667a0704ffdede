/-
The straight sides of a border.

In the rows between the rounded corners of a quad, a pixel is either in the border of the nearer
side, which covers it as a whole, or it is background.

* `outerSdf_eq` — the distance to the outer edge, off the rounded corners;
* `shade_a_of_side` — the alpha of a pixel in these rows, on a transparent background.
-/
import Zui.Borders.Shader

namespace Zui

open Gpui (Point Size Bounds)

namespace Borders

open Backdrop (quadSdfImpl pickCornerRadius)

variable {K : Type} [Field K] [LinearOrder K] [IsStrictOrderedRing K]
  (m : Builtins K) (premultipliedAlpha : Bool) {quad : Quad K} {position : Point K}

theorem saturate_of_one_le {x : K} (h : 1 ≤ x) : saturate x = 1 := by
  rw [saturate, clamp, max_eq_left (zero_le_one.trans h), min_eq_right h]

omit [IsStrictOrderedRing K] in
theorem backgroundColor_a [FloorRing K] (h : quad.background.IsTransparent) :
    (quad.backgroundColor m position).a = 0 := by
  rw [Quad.backgroundColor]
  show (gradientColor m quad.background position quad.bounds
    (prepareGradientColor m quad.background)).a * _ = 0
  rw [gradientColor_a m h, zero_mul]

/-- The distance to the outer edge, where no rounded corner is near. -/
theorem outerSdf_eq (hcorner : (quad.cornerCenterToPoint position).y ≤ 0) :
    quad.outerSdf position m =
      max (quad.cornerToPoint position).x (quad.cornerToPoint position).y := by
  have hx : (quad.cornerCenterToPoint position).x =
      (quad.cornerToPoint position).x + quad.cornerRadius position := rfl
  have hy : (quad.cornerCenterToPoint position).y =
      (quad.cornerToPoint position).y + quad.cornerRadius position := rfl
  rw [Quad.outerSdf, quadSdfImpl]
  split_ifs with hradius
  · rw [hx, hy, hradius, add_zero, add_zero]
  rw [max_eq_left hcorner, m.length_horizontal, abs_of_nonneg (le_max_left _ _)]
  rcases le_total 0 (quad.cornerCenterToPoint position).x with hpos | hneg
  · -- beside the corner: the distance to the side alone
    have hle : (quad.cornerToPoint position).y ≤ (quad.cornerToPoint position).x := by linarith
    rw [max_eq_right hpos, min_eq_left (hpos.trans (le_max_left _ _)), max_eq_left hle, hx]
    ring
  · rw [max_eq_left hneg, min_eq_right (max_le hneg hcorner), hx, hy, max_add_add_right]
    ring

/-- A pixel inside the inner edge of the nearer side is background. -/
theorem shade_a_of_inside [FloorRing K] (h : quad.background.IsTransparent)
    (hcorner : (quad.cornerCenterToPoint position).y < 0)
    (hx : (quad.straightBorderInnerCornerToPoint position).x ≤ -(1 / 2))
    (hy : (quad.straightBorderInnerCornerToPoint position).y ≤ -1) :
    (quad.shade m premultipliedAlpha position).a = 0 := by
  have hback : (quad.backgroundColor m position).a = 0 := backgroundColor_a m h
  have hinner : 1 / 2 ≤ quad.innerSdf position m := by
    rw [Quad.innerSdf]
    simp only [if_pos (Or.inr hcorner.le)]
    have hmax := max_le hx (hy.trans (by norm_num : (-1 : K) ≤ -(1 / 2)))
    linarith
  have hborder : ¬ max (quad.innerSdf position m) (quad.outerSdf position m) < 1 / 2 :=
    not_lt.mpr (hinner.trans (le_max_left _ _))
  rw [Quad.shade]
  simp only [if_neg hborder]
  split_ifs <;> simp [blendColor, hback]

theorem shade_a_of_border [FloorRing K] (h : quad.background.IsTransparent)
    (hcorner : (quad.cornerCenterToPoint position).y < 0)
    (hx : 1 / 2 ≤ (quad.straightBorderInnerCornerToPoint position).x)
    (houter : max (quad.cornerToPoint position).x (quad.cornerToPoint position).y ≤ -(1 / 2)) :
    (quad.shade m premultipliedAlpha position).a =
      quad.borderColor.a * quad.dashFactor position m * edgeFadeAlpha m position quad.fade := by
  have hback : (quad.backgroundColor m position).a = 0 := backgroundColor_a m h
  have hsdf := (outerSdf_eq m hcorner.le).trans_le houter
  have hinner : quad.innerSdf position m ≤ -(1 / 2) := by
    rw [Quad.innerSdf]
    simp only [if_pos (Or.inr hcorner.le)]
    have hmax := hx.trans (le_max_left _ (quad.straightBorderInnerCornerToPoint position).y)
    linarith
  have hborder : max (quad.innerSdf position m) (quad.outerSdf position m) < 1 / 2 :=
    (max_le hinner hsdf).trans_lt (by norm_num)
  -- a side without a border has none of its pixels beyond the inner edge
  have hwide : ¬ (quad.Borderless ∧ quad.Unrounded) := by
    rintro ⟨⟨-, hleft, hright, -⟩, -⟩
    have hzero : (quad.border position).x = 0 := by
      show (if _ then quad.borderWidths.left else quad.borderWidths.right) = 0
      rw [hleft, hright, ite_self]
    have hstraight : (quad.straightBorderInnerCornerToPoint position).x =
        (quad.cornerToPoint position).x + reduced (quad.border position).x := rfl
    rw [hzero, reduced, if_pos rfl] at hstraight
    have hle := (le_max_left _ _).trans houter
    linarith
  have hwithin : ¬ (quad.IsWithinInnerStraightBorder position ∧
      ¬ quad.IsNearRoundedCorner position) := by
    rintro ⟨⟨hlt, -⟩, -⟩
    linarith
  rw [Quad.shade]
  simp only [if_neg hwide, if_neg hwithin, if_pos hborder, blendColor]
  rw [saturate_of_one_le (show (1 : K) ≤ 1 / 2 - quad.outerSdf position m by linarith),
    saturate_of_one_le (show (1 : K) ≤ 1 / 2 - quad.innerSdf position m by linarith), one_mul]
  simp [Rgba.mix, mix, composeOver, hback, Quad.dashedBorderColor]

/-! ### Rows between the corners -/

/-- The row of a position is between the rounded corners, and a pixel away from them. -/
structure Quad.Between (quad : Quad K) (position : Point K) : Prop where
  top : max (max quad.borderWidths.top quad.cornerRadii.topLeft) quad.cornerRadii.topRight + 1 ≤
    (quad.point position).y
  bottom :
    max (max quad.borderWidths.bottom quad.cornerRadii.bottomLeft)
      quad.cornerRadii.bottomRight + 1 ≤
      quad.bounds.size.height - (quad.point position).y
  top_nonneg : 0 ≤ quad.borderWidths.top
  bottom_nonneg : 0 ≤ quad.borderWidths.bottom

theorem abs_sub_half (x length : K) :
    |x - length / 2| - length / 2 = if x - length / 2 < 0 then -x else x - length := by
  split_ifs with hside
  · rw [abs_of_neg hside]
    ring
  · rw [abs_of_nonneg (not_lt.mp hside)]
    ring

theorem reduced_le (border : K) (h : 0 ≤ border) : reduced border ≤ border := by
  rw [reduced]
  split_ifs
  · linarith
  · exact le_rfl

theorem Quad.Between.vertical (h : quad.Between position) :
    (quad.cornerToPoint position).y ≤ -1 ∧ (quad.cornerCenterToPoint position).y ≤ -1 ∧
      (quad.straightBorderInnerCornerToPoint position).y ≤ -1 := by
  obtain ⟨htop, hbottom, hpos, hpos'⟩ := h
  obtain ⟨⟨htl, htr⟩, hbl, hbr⟩ :
      ((max quad.borderWidths.top quad.cornerRadii.topLeft ≤ (quad.point position).y - 1) ∧
        quad.cornerRadii.topRight ≤ (quad.point position).y - 1) ∧
      (max quad.borderWidths.bottom quad.cornerRadii.bottomLeft ≤
        quad.bounds.size.height - (quad.point position).y - 1) ∧
      quad.cornerRadii.bottomRight ≤ quad.bounds.size.height - (quad.point position).y - 1 :=
    ⟨max_le_iff.mp (by linarith), max_le_iff.mp (by linarith)⟩
  obtain ⟨ht, htl⟩ := max_le_iff.mp htl
  obtain ⟨hb, hbl⟩ := max_le_iff.mp hbl
  have hreduced := reduced_le _ hpos
  have hreduced' := reduced_le _ hpos'
  simp only [Quad.straightBorderInnerCornerToPoint, Quad.cornerCenterToPoint, Quad.cornerRadius,
    pickCornerRadius, Quad.reducedBorder, Quad.border, Quad.cornerToPoint, Quad.centerToPoint,
    abs_sub_half]
  -- the quadrant of the position chooses the border and the radius
  by_cases hx : (quad.point position).x - quad.bounds.size.width / 2 < 0 <;>
    by_cases hy : (quad.point position).y - quad.bounds.size.height / 2 < 0 <;>
    simp only [hx, hy, if_true, if_false] <;> refine ⟨?_, ?_, ?_⟩ <;> linarith

/-- The alpha of a pixel in a row between the corners: that of the border, if it is in the border of
the nearer side. -/
theorem shade_a_of_side [FloorRing K] (h : quad.background.IsTransparent)
    (hbetween : quad.Between position)
    {k : ℤ} (hk : (quad.cornerToPoint position).x = k + 1 / 2) (hneg : k < 0)
    {n : ℕ} (hn : (quad.border position).x = n) :
    (quad.shade m premultipliedAlpha position).a =
      if 0 < k + (n : ℤ) + 1 then
        quad.borderColor.a * quad.dashFactor position m * edgeFadeAlpha m position quad.fade
      else 0 := by
  obtain ⟨hy, hcorner, hstraight⟩ := hbetween.vertical
  have hcorner : (quad.cornerCenterToPoint position).y < 0 := hcorner.trans_lt (by norm_num)
  have hx : (quad.straightBorderInnerCornerToPoint position).x =
      (quad.cornerToPoint position).x + reduced (quad.border position).x := rfl
  have hk' : (k : K) ≤ -1 := by
    have hle : k ≤ -1 := by omega
    exact_mod_cast hle
  rw [hk, hn, reduced] at hx
  split_ifs with hinside
  · -- the border is at least one pixel wide here
    have hwide : (n : K) ≠ 0 := by
      have hpos : n ≠ 0 := by omega
      exact_mod_cast hpos
    have hle : (0 : K) ≤ k + n := by
      have hle : 0 ≤ k + (n : ℤ) := by omega
      exact_mod_cast hle
    rw [if_neg hwide] at hx
    refine shade_a_of_border m premultipliedAlpha h hcorner ?_ (max_le ?_ ?_)
    · rw [hx]
      linarith
    · rw [hk]
      linarith
    · exact hy.trans (by norm_num)
  · refine shade_a_of_inside m premultipliedAlpha h hcorner ?_ hstraight
    have hle : (k : K) + n ≤ -1 := by
      have hle : k + (n : ℤ) ≤ -1 := by omega
      exact_mod_cast hle
    rw [hx]
    split_ifs <;> linarith

end Borders

end Zui
