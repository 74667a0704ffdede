/-
Where a glyph is painted.

The origin of a glyph, in device pixels, is rounded to a multiple of the distance between two
subpixel variants, and the result is split into a whole number of pixels and the variant that makes
up for the rest.  The split truncates: left of zero its rest is negative, and a negative rest is
cast to the variant zero.

* `quantize_nearest` — the rounded coordinate is the nearest multiple, with ties toward zero;
* `split_of_nonneg`, `split_of_neg` — the place that a split stands for;
* `splits_iff` — the coordinates that are split exactly;
* `glyph_origin_splits_iff` — the glyphs that `paint_glyph` and `paint_glyph_transformed` paint
  where they are asked for. -/
import Zui.Paint.Calls

namespace Zui.Gpui

section Methods

variable {Style : Type} (display : Display) (window : Ambient Style)

/-- `paint_glyph` behind the split of the origin. -/
def paintGlyphAt (split : GlyphOrigin) (fontId glyphId : ℕ) (fontSize : ℚ) (color : Hsla) :
    List PaintOperation :=
  let subpixelRendering := display.shouldUseSubpixelRendering fontId fontSize
  let params : RenderGlyphParams :=
    { fontId, glyphId, fontSize, subpixelVariant := split.subpixelVariant, subpixelRendering
      dilation := display.glyphDilationForColor color }
  match display.rasterBounds params with
  | none => []
  | some rasterBounds =>
    if rasterBounds.size.width = 0 ∨ rasterBounds.size.height = 0 then []
    else
      match display.glyphTile params with
      | none => []
      | some tile =>
        [.primitive <| .glyphSprite
          { subpixel := subpixelRendering
            bounds :=
              ⟨⟨split.integerOrigin.x + rasterBounds.origin.x,
                  split.integerOrigin.y + rasterBounds.origin.y⟩,
                ⟨tile.bounds.size.width, tile.bounds.size.height⟩⟩
            contentMask := snappedContentMask display window
            color := color.opacity window.elementOpacity
            tile := tile
            fade := window.scaledEdgeFade display }]

end Methods

/-! ### Rounding -/

theorem roundHalfTowardZero_eq_cast (x : ℚ) : roundHalfTowardZero x = halfTowardZero x := by
  simp only [roundHalfTowardZero, halfTowardZero]
  split_ifs
  · rw [Int.cast_neg]
  · rfl

variable {n : ℕ} {x : ℚ}

theorem quantize_eq (n : ℕ) (x : ℚ) : quantize n x = (halfTowardZero (x * n) : ℚ) / n := by
  rw [quantize, roundHalfTowardZero_eq_cast]

theorem quantize_nearest (hn : 0 < n) : NearestMultiple (1 / (n : ℚ)) x (quantize n x) := by
  have hstep : (0 : ℚ) < 1 / n := by positivity
  have h := nearestMultiple_halfTowardZero hstep x
  rwa [div_div_eq_mul_div, div_one, mul_one_div, ← quantize_eq] at h

theorem abs_quantize_sub_le (hn : 0 < n) : |quantize n x - x| ≤ 1 / (2 * n) := by
  have hpos : (0 : ℚ) < n := by exact_mod_cast hn
  have hbound := abs_sub_halfTowardZero_le (x * n)
  have heq : quantize n x - x = (halfTowardZero (x * n) - x * n) / n := by
    rw [quantize_eq, sub_div, mul_div_cancel_right₀ x hpos.ne']
  rw [heq, abs_div, abs_of_pos hpos, abs_sub_comm, div_le_div_iff₀ hpos (by positivity)]
  nlinarith

/-! ### Splitting -/

/-- The place of a number of steps that is not negative. -/
theorem split_of_nonneg (hn : 0 < n) (hn' : n ≤ 256) {k : ℤ} (hk : 0 ≤ k) :
    asU8 (fract ((k : ℚ) / n) * n) < n ∧
      truncate ((k : ℚ) / n) + asU8 (fract ((k : ℚ) / n) * n) / n = (k : ℚ) / n := by
  have hpos : (0 : ℚ) < n := by exact_mod_cast hn
  have hn0 : (n : ℤ) ≠ 0 := by omega
  have htruncate : truncate ((k : ℚ) / n) = (k / n : ℤ) := by
    have hnonneg : (0 : ℚ) ≤ (k : ℚ) / n := div_nonneg (by exact_mod_cast hk) hpos.le
    rw [truncate, if_neg (not_lt.mpr hnonneg), Rat.floor_intCast_div_natCast]
  have hfract : fract ((k : ℚ) / n) * n = (k % n : ℤ) := by
    rw [fract, htruncate, sub_mul, div_mul_cancel₀ _ hpos.ne', Int.emod_def]
    push_cast
    ring
  have hlt := Int.emod_lt_of_pos k (by omega : (0 : ℤ) < n)
  have hvariant : asU8 (fract ((k : ℚ) / n) * n) = (k % n).toNat := by
    rw [asU8, saturatingCast, hfract, Int.floor_intCast]
    omega
  have hcast : (((k % n).toNat : ℕ) : ℚ) = (k % n : ℤ) := by
    exact_mod_cast Int.toNat_of_nonneg (Int.emod_nonneg k hn0)
  rw [hvariant, htruncate, hcast]
  refine ⟨by have := Int.emod_nonneg k hn0; omega, ?_⟩
  rw [eq_div_iff hpos.ne', add_mul, div_mul_cancel₀ _ hpos.ne']
  exact_mod_cast Int.ediv_mul_add_emod k n

/-- Left of zero the variant is zero, and the place is the truncated one. -/
theorem split_of_neg (hn : 0 < n) {k : ℤ} (hk : k < 0) :
    asU8 (fract ((k : ℚ) / n) * n) = 0 ∧ truncate ((k : ℚ) / n) = (-(-k / n) : ℤ) := by
  have hpos : (0 : ℚ) < n := by exact_mod_cast hn
  have htruncate : truncate ((k : ℚ) / n) = (-(-k / n) : ℤ) := by
    have hneg : (k : ℚ) / n < 0 := div_neg_of_neg_of_pos (by exact_mod_cast hk) hpos
    rw [truncate, if_pos hneg, Rat.ceil_intCast_div_natCast]
  have hfract : fract ((k : ℚ) / n) * n = (-(-k % n) : ℤ) := by
    rw [fract, htruncate, sub_mul, div_mul_cancel₀ _ hpos.ne', Int.emod_def]
    push_cast
    ring
  refine ⟨?_, htruncate⟩
  have := Int.emod_nonneg (-k) (by omega : (n : ℤ) ≠ 0)
  rw [asU8, saturatingCast, hfract, Int.floor_intCast]
  omega

/-- The variant is one of `n`, and with the whole pixels it makes up the nearest multiple. -/
structure Splits (n : ℕ) (x : ℚ) (variant : ℕ) (integer : ℚ) : Prop where
  variant_lt : variant < n
  nearest : NearestMultiple (1 / (n : ℚ)) x (integer + variant / n)
  within : |integer + variant / n - x| ≤ 1 / (2 * n)

theorem splits_iff_eq (hn : 0 < n) {variant : ℕ} {integer : ℚ} (hlt : variant < n) :
    Splits n x variant integer ↔ integer + variant / n = quantize n x := by
  constructor
  · intro h
    exact h.nearest.unique (quantize_nearest hn)
  · intro h
    exact ⟨hlt, h ▸ quantize_nearest hn, h ▸ abs_quantize_sub_le hn⟩

/-- A number of steps is a whole number of pixels or not negative. -/
theorem steps_iff (hn : 0 < n) : (0 ≤ halfTowardZero (x * n) ∨ (n : ℤ) ∣ halfTowardZero (x * n)) ↔
    -(1 / (2 * n : ℚ)) ≤ x ∨ ∃ k : ℤ, k - 1 / (2 * n : ℚ) ≤ x ∧ x < k + 1 / (2 * n : ℚ) := by
  have hpos : (0 : ℚ) < n := by exact_mod_cast hn
  have hhalf : 1 / (2 * n : ℚ) * n = 1 / 2 := by field_simp
  have hnonneg : 0 ≤ halfTowardZero (x * n) ↔ -(1 / (2 * n : ℚ)) ≤ x := by
    rw [halfTowardZero_nonneg_iff, ← hhalf, ← neg_mul, mul_le_mul_iff_of_pos_right hpos]
  rw [hnonneg]
  by_cases hx : -(1 / (2 * n : ℚ)) ≤ x
  · exact iff_of_true (.inl hx) (.inl hx)
  have hneg : x * n < 0 := by
    have hstep : (0 : ℚ) < 1 / (2 * n) := by positivity
    exact mul_neg_of_neg_of_pos (by linarith) hpos
  simp only [hx, false_or]
  have hwithin (k : ℤ) : halfTowardZero (x * n) = n * k ↔
      k - 1 / (2 * n : ℚ) ≤ x ∧ x < k + 1 / (2 * n : ℚ) := by
    rw [halfTowardZero_eq_iff_of_neg hneg, ← hhalf, Int.cast_mul, Int.cast_natCast,
      mul_comm (n : ℚ), ← sub_mul, ← add_mul, mul_le_mul_iff_of_pos_right hpos,
      mul_lt_mul_iff_of_pos_right hpos]
  exact exists_congr hwithin

/-- A coordinate is split exactly right of zero, and where it is rounded to a whole pixel. -/
theorem splits_iff (hn : 0 < n) (hn' : n ≤ 256) :
    Splits n x (asU8 (fract (quantize n x) * n)) (truncate (quantize n x)) ↔
      -(1 / (2 * n : ℚ)) ≤ x ∨ ∃ k : ℤ, k - 1 / (2 * n : ℚ) ≤ x ∧ x < k + 1 / (2 * n : ℚ) := by
  have hpos : (0 : ℚ) < n := by exact_mod_cast hn
  rw [← steps_iff hn]
  generalize hk : halfTowardZero (x * n) = k
  have hquantize : quantize n x = (k : ℚ) / n := by rw [quantize_eq, hk]
  rcases le_or_gt 0 k with hsign | hsign
  · obtain ⟨hlt, heq⟩ := split_of_nonneg hn hn' hsign
    rw [hquantize, splits_iff_eq hn hlt, hquantize, heq]
    simp [hsign]
  · obtain ⟨hvariant, htruncate⟩ := split_of_neg hn hsign
    rw [hquantize, hvariant, splits_iff_eq hn hn, hquantize, htruncate, eq_div_iff hpos.ne']
    simp only [not_le.mpr hsign, false_or, Nat.cast_zero, zero_div, add_zero]
    constructor
    · intro h
      have h : -(-k / n) * n = k := by exact_mod_cast h
      exact ⟨-(-k / n), by linarith⟩
    · rintro ⟨j, rfl⟩
      have hdiv : -(-(n * j) / (n : ℤ)) = j := by
        rw [← mul_neg, Int.mul_ediv_cancel_left _ (by omega), neg_neg]
      rw [hdiv]
      push_cast
      ring

theorem splits_one (x : ℚ) : Splits 1 x (asU8 (fract (quantize 1 x) * 1))
    (truncate (quantize 1 x)) := by
  have h := (splits_iff (n := 1) (x := x) one_pos (by norm_num)).mpr
    (Or.inr ⟨⌊x + 1 / 2⌋, by
      have := Int.floor_le (x + 1 / 2)
      have := Int.lt_floor_add_one (x + 1 / 2)
      constructor <;> push_cast <;> linarith⟩)
  simpa using h

/-! ### Painting -/

theorem asU8_of_lt {value : ℚ} (h : value < 256) : asU8 value = ⌊value⌋.toNat :=
  saturatingCast_of_lt (by norm_num; exact h)

theorem fract_lt_one (value : ℚ) : fract value < 1 := by
  rw [fract, truncate]
  split_ifs
  · linarith [Int.le_ceil value]
  · linarith [Int.lt_floor_add_one value]

theorem paintGlyph_eq {Style : Type} (display : Display) (window : Ambient Style) (origin : Point ℚ)
    (fontId glyphId : ℕ) (fontSize : ℚ) (color : Hsla) :
    paintGlyph display window origin fontId glyphId fontSize color =
      paintGlyphAt display window (splitOrigin display.scaleFactor origin) fontId glyphId fontSize
        color := by
  have hx (value : ℚ) : asU8 (fract value * SUBPIXEL_VARIANTS_X) =
      ⌊(value - truncate value) * SUBPIXEL_VARIANTS_X⌋.toNat := by
    refine asU8_of_lt ?_
    have hlt := fract_lt_one value
    simp only [SUBPIXEL_VARIANTS_X]
    linarith
  have hy (value : ℚ) : asU8 (fract value * SUBPIXEL_VARIANTS_Y) =
      ⌊(value - truncate value) * SUBPIXEL_VARIANTS_Y⌋.toNat := by
    refine asU8_of_lt ?_
    have hlt := fract_lt_one value
    simp only [SUBPIXEL_VARIANTS_Y]
    linarith
  simp only [paintGlyphAt, splitOrigin, hx, hy]
  rfl

/-- Both coordinates of a glyph are split exactly. -/
def GlyphOrigin.Exact (self : GlyphOrigin) (glyphOrigin : Point ℚ) : Prop :=
  Splits 4 glyphOrigin.x self.subpixelVariant.x self.integerOrigin.x ∧
    Splits 1 glyphOrigin.y self.subpixelVariant.y self.integerOrigin.y

/-- `paint_glyph` and `paint_glyph_transformed` ask for one of the variants and place it exactly
when the glyph lies right of zero, or is rounded to a whole pixel. -/
theorem glyph_origin_splits_iff {Style : Type} (display : Display) (window : Ambient Style)
    (origin : Point ℚ) (fontId glyphId : ℕ) (fontSize : ℚ) (color : Hsla) :
    paintGlyph display window origin fontId glyphId fontSize color =
        paintGlyphAt display window (splitOrigin display.scaleFactor origin) fontId glyphId fontSize
          color ∧
      (∀ transformation blur,
        paintGlyphTransformed display window origin fontId glyphId fontSize color
          transformation blur =
          paintGlyphTransformedAt display window (splitOrigin display.scaleFactor origin)
            fontId glyphId
            fontSize color transformation blur) ∧
      ∀ scaleFactor : ℚ,
        (splitOrigin scaleFactor origin).Exact
            ⟨origin.x * scaleFactor, origin.y * scaleFactor⟩ ↔
          -(1 / 8) ≤ origin.x * scaleFactor ∨
            ∃ k : ℤ, k - 1 / 8 ≤ origin.x * scaleFactor ∧ origin.x * scaleFactor < k + 1 / 8 := by
  refine ⟨paintGlyph_eq display window origin fontId glyphId fontSize color, fun _ _ => rfl,
    fun scaleFactor => ?_⟩
  have hx := splits_iff (n := 4) (x := origin.x * scaleFactor) (by norm_num) (by norm_num)
  have hy := splits_one (origin.y * scaleFactor)
  have heighth : (2 * (4 : ℕ) : ℚ) = 8 := by norm_num
  rw [heighth] at hx
  rw [← hx]
  exact and_iff_left hy

/-- A glyph a quarter of a pixel left of zero is painted at zero. -/
theorem glyph_origin_splits_not :
    splitOrigin 1 ⟨-1 / 4, 0⟩ = ⟨⟨0, 0⟩, ⟨0, 0⟩⟩ ∧
      ¬ (splitOrigin 1 ⟨-1 / 4, 0⟩).Exact ⟨-1 / 4 * 1, 0 * 1⟩ := by
  have hsplit : splitOrigin 1 ⟨-1 / 4, 0⟩ = ⟨⟨0, 0⟩, ⟨0, 0⟩⟩ := by decide +kernel
  refine ⟨hsplit, fun h => ?_⟩
  have hwithin := h.1.within
  rw [hsplit] at hwithin
  norm_num at hwithin

end Zui.Gpui
