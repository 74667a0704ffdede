/-
The scissor rectangles of a blur lose no sample.

A sample reads four texels, clamped to the edge.  The vertical rectangle has those of every sample
of the composite, and the horizontal one those of every tap of the vertical pass
(`blur_regions_keep_samples`).
-/
import Mathlib
import Zui.Backdrop.Window

namespace Zui

open Gpui

namespace Backdrop

variable {K : Type} [Field K] [LinearOrder K] [FloorRing K]

/-- The texels that a sample reads, in a texture of some size. -/
def sampledTexels (width height : ℕ) (uv : Point K) : List (ℤ × ℤ) :=
  let i := ⌊uv.x * width - 1 / 2⌋
  let j := ⌊uv.y * height - 1 / 2⌋
  [(clampToEdge i width, clampToEdge j height), (clampToEdge (i + 1) width, clampToEdge j height),
    (clampToEdge i width, clampToEdge (j + 1) height),
    (clampToEdge (i + 1) width, clampToEdge (j + 1) height)]

/-- A rectangle has the texels of a sample when it has them along each axis. -/
theorem has_sampledTexels {region : Region} {width height : ℕ} {uv : Point K}
    (hx : ∀ i, (i = ⌊uv.x * width - 1 / 2⌋ ∨ i = ⌊uv.x * width - 1 / 2⌋ + 1) →
      region.x ≤ clampToEdge i width ∧ clampToEdge i width < region.x + region.width)
    (hy : ∀ j, (j = ⌊uv.y * height - 1 / 2⌋ ∨ j = ⌊uv.y * height - 1 / 2⌋ + 1) →
      region.y ≤ clampToEdge j height ∧ clampToEdge j height < region.y + region.height) :
    ∀ texel ∈ sampledTexels width height uv, region.Has texel.1 texel.2 := by
  have hhas : ∀ i j, (i = ⌊uv.x * width - 1 / 2⌋ ∨ i = ⌊uv.x * width - 1 / 2⌋ + 1) →
      (j = ⌊uv.y * height - 1 / 2⌋ ∨ j = ⌊uv.y * height - 1 / 2⌋ + 1) →
        region.Has (clampToEdge i width) (clampToEdge j height) := by
    intro i j hi hj
    exact ⟨(hx i hi).1, (hx i hi).2, (hy j hj).1, (hy j hj).2⟩
  intro texel htexel
  simp only [sampledTexels, List.mem_cons, List.not_mem_nil, or_false] at htexel
  rcases htexel with rfl | rfl | rfl | rfl
  · exact hhas _ _ (.inl rfl) (.inl rfl)
  · exact hhas _ _ (.inr rfl) (.inl rfl)
  · exact hhas _ _ (.inl rfl) (.inr rfl)
  · exact hhas _ _ (.inr rfl) (.inr rfl)

variable [IsStrictOrderedRing K]

/-! ### Along an axis -/

theorem center_eq (i : ℤ) {extent : ℕ} (h : 0 < extent) :
    ((i : K) + 1 / 2) / extent * extent - 1 / 2 = i := by
  have hne : (extent : K) ≠ 0 := by positivity
  field_simp
  ring

theorem divCeil_pos {extent downsample : ℕ} (hextent : 0 < extent) (hdownsample : 0 < downsample) :
    0 < divCeil extent downsample := by
  have := le_divCeil_mul extent hdownsample
  by_contra hzero
  rw [Nat.eq_zero_of_not_pos hzero, Nat.zero_mul] at this
  omega

/-- The texels that a sample of a visible point of the source reads, and those of the vertical
pass. -/
theorem visible_texel {visible size point : K} {source extent output : ℕ} (hextent : 0 < extent)
    (houtput : 0 < output) (hvisible : visible ≤ point ∧ point ≤ visible + size)
    (hsource : (source : K) ≤ point ∧ point < source + extent) {i : ℤ}
    (hi : i = ⌊(point - source) / extent * output - 1 / 2⌋ ∨
      i = ⌊(point - source) / extent * output - 1 / 2⌋ + 1) :
    (0 ≤ clampToEdge i output ∧ clampToEdge i output < output) ∧
      ⌊(visible - source) * (output / extent : K)⌋ - 1 ≤ clampToEdge i output ∧
      clampToEdge i output < ⌈(visible + size - source) * (output / extent : K)⌉ + 1 := by
  have hextent' : (0 : K) < extent := by exact_mod_cast hextent
  have houtput' : (0 : K) < output := by exact_mod_cast houtput
  have hscale : (0 : K) < output / extent := div_pos houtput' hextent'
  set texel : K := (point - source) * (output / extent) with htexel
  have hsame : (point - source) / extent * output = texel := by
    rw [htexel]
    ring
  rw [hsame] at hi
  have hnonneg : 0 ≤ texel := mul_nonneg (by linarith) hscale.le
  have hlt : texel < output := by
    have hone : (point - source) / extent < 1 := by
      rw [div_lt_one hextent']
      linarith
    rw [← hsame]
    exact mul_lt_of_lt_one_left houtput' hone
  have hfirst : (visible - source) * (output / extent : K) ≤ texel :=
    mul_le_mul_of_nonneg_right (by linarith) hscale.le
  have hlast : texel ≤ (visible + size - source) * (output / extent : K) :=
    mul_le_mul_of_nonneg_right (by linarith) hscale.le
  set first : K := (visible - source) * (output / extent : K)
  set last : K := (visible + size - source) * (output / extent : K)
  -- The lower of the two texels is at most one below the first visible one.
  have hlow : ⌊first⌋ - 1 ≤ ⌊texel - 1 / 2⌋ := by
    rw [Int.le_floor]
    have := Int.floor_le first
    push_cast
    linarith
  have hfirst' : ⌊first⌋ < output := by
    rw [Int.floor_lt]
    push_cast
    linarith
  -- The upper one is at most one above the last visible one.
  have hhigh : ⌊texel - 1 / 2⌋ + 1 < ⌈last⌉ + 1 := by
    have hfloor := Int.floor_le (texel - 1 / 2)
    have hceil := Int.le_ceil last
    have : ((⌊texel - 1 / 2⌋ + 1 : ℤ) : K) < ((⌈last⌉ + 1 : ℤ) : K) := by
      push_cast
      linarith
    exact_mod_cast this
  have hlast' : 0 ≤ ⌈last⌉ := Int.ceil_nonneg (hnonneg.trans hlast)
  rw [clampToEdge]
  omega

theorem tap_texel {output : ℕ} (houtput : 0 < output) (j : ℤ) {radius : ℕ} {offset : K}
    (hlow : -((radius : K) + 1) ≤ offset) (hhigh : offset < radius + 1) {i : ℤ}
    (hi : i = ⌊((j + 1 / 2) / output + offset * (1 / output) : K) * output - 1 / 2⌋ ∨
      i = ⌊((j + 1 / 2) / output + offset * (1 / output) : K) * output - 1 / 2⌋ + 1) :
    ∃ k : ℤ, i = j + k ∧ |k| ≤ ((radius + 1 : ℕ) : ℤ) := by
  have hne : (output : K) ≠ 0 := by positivity
  have hat : ((j + 1 / 2) / output + offset * (1 / output) : K) * output - 1 / 2 = j + offset := by
    field_simp
    ring
  rw [hat, Int.floor_intCast_add] at hi
  have hfloor : -((radius : ℤ) + 1) ≤ ⌊offset⌋ := by
    rw [Int.le_floor]
    push_cast
    exact hlow
  have hfloor' : ⌊offset⌋ < radius + 1 := by
    rw [Int.floor_lt]
    push_cast
    exact hhigh
  refine ⟨i - j, by omega, ?_⟩
  rw [abs_le]
  push_cast
  omega

/-! ### Both rectangles -/

/-- The rectangle of all texels. -/
def wholeRegion (width height : ℕ) : Region := ⟨0, 0, width, height⟩

/-- Both rectangles are inside the output.  The vertical one has every texel that sampling a visible
point of the source reads, and the horizontal one every texel that a tap of the vertical pass
reads, with the one more that paired taps fetch. -/
theorem blur_regions_keep_samples (visible : Bounds K) (source : Region)
    (downsample : ℕ) (sigma : K)
    (hwidth : 0 < source.width) (hheight : 0 < source.height)
    (hdownsample : 1 ≤ downsample) :
    ∃ horizontal vertical : Region,
      blurRegions visible source (divCeil source.width downsample)
        (divCeil source.height downsample) sigma = .ok (horizontal, vertical) ∧
      horizontal.Inside (wholeRegion (divCeil source.width downsample)
        (divCeil source.height downsample)) ∧
      vertical.Inside (wholeRegion (divCeil source.width downsample)
        (divCeil source.height downsample)) ∧
      (∀ point : Point K, Contains visible point →
        ((source.x : K) ≤ point.x ∧ point.x < source.x + source.width) →
        ((source.y : K) ≤ point.y ∧ point.y < source.y + source.height) →
        ∀ texel ∈ sampledTexels (divCeil source.width downsample) (divCeil source.height downsample)
          (⟨(point.x - source.x) / source.width, (point.y - source.y) / source.height⟩ : Point K),
          vertical.Has texel.1 texel.2) ∧
      ∀ i j : ℤ, vertical.Has i j → ∀ offset : K, -((⌈3 * sigma⌉.toNat : K) + 1) ≤ offset →
        offset < ⌈3 * sigma⌉.toNat + 1 →
        ∀ texel ∈ sampledTexels (divCeil source.width downsample) (divCeil source.height downsample)
          (⟨(i + 1 / 2) / divCeil source.width downsample,
            (j + 1 / 2) / divCeil source.height downsample +
              offset * (1 / divCeil source.height downsample)⟩ : Point K),
          horizontal.Has texel.1 texel.2 := by
  have houtputWidth := divCeil_pos hwidth hdownsample
  have houtputHeight := divCeil_pos hheight hdownsample
  set outputWidth := divCeil source.width downsample
  set outputHeight := divCeil source.height downsample
  obtain ⟨x, width, hx, hxfits, hxmem⟩ := verticalRegion_spec visible.origin.x visible.size.width
    source.x source.width outputWidth
  obtain ⟨y, height, hy, hyfits, hymem⟩ := verticalRegion_spec visible.origin.y visible.size.height
    source.y source.height outputHeight
  obtain ⟨x', width', hx', hxfits', hxhalo⟩ := horizontalRegion_spec 1 hxfits
  obtain ⟨y', height', hy', hyfits', hyhalo⟩ :=
    horizontalRegion_spec (⌈3 * sigma⌉.toNat + 1) hyfits
  refine ⟨⟨x', y', width', height'⟩, ⟨x, y, width, height⟩, ?_, ?_, ?_, ?_, ?_⟩
  · rw [blurRegions, hx, ok_bind]
    dsimp only
    rw [hy, ok_bind]
    dsimp only
    rw [hx', ok_bind]
    dsimp only
    rw [hy', ok_bind]
  · refine ⟨Nat.zero_le _, ?_, Nat.zero_le _, ?_⟩
    · simpa [wholeRegion] using hxfits'
    · simpa [wholeRegion] using hyfits'
  · refine ⟨Nat.zero_le _, ?_, Nat.zero_le _, ?_⟩
    · simpa [wholeRegion] using hxfits
    · simpa [wholeRegion] using hyfits
  · intro point hcontains hinX hinY
    obtain ⟨hleft, hright, htop, hbottom⟩ := hcontains
    refine has_sampledTexels ?_ ?_
    · intro i hi
      obtain ⟨⟨h0, h1⟩, h2, h3⟩ := visible_texel hwidth houtputWidth ⟨hleft, hright⟩ hinX hi
      exact hxmem _ h0 h1 h2 h3
    · intro j hj
      obtain ⟨⟨h0, h1⟩, h2, h3⟩ := visible_texel hheight houtputHeight ⟨htop, hbottom⟩ hinY hj
      exact hymem _ h0 h1 h2 h3
  · rintro i j ⟨hi, hi', hj, hj'⟩ offset hlow hhigh
    refine has_sampledTexels ?_ ?_
    · intro column hcolumn
      dsimp only at hcolumn
      rw [center_eq i houtputWidth, Int.floor_intCast] at hcolumn
      rcases hcolumn with rfl | rfl
      · have := hxhalo column 0 hi hi' (by simp)
        rwa [add_zero] at this
      · exact hxhalo i 1 hi hi' (by simp)
    · intro row hrow
      obtain ⟨k, rfl, hk⟩ := tap_texel houtputHeight j hlow hhigh hrow
      exact hyhalo j k hj hj' hk

/-- A window of a drawable that a blur covers in part. -/
theorem blur_regions_keep_samples_window :
    ∃ horizontal vertical : Region,
      blurRegions (⟨⟨31, 17⟩, ⟨100, 20⟩⟩ : Bounds ℚ) ⟨20, 10, 64, 32⟩ 32 16 8 =
          .ok (horizontal, vertical) ∧
        horizontal.Inside (wholeRegion 32 16) ∧ vertical.Inside (wholeRegion 32 16) ∧
        (∀ point : Point ℚ, Contains ⟨⟨31, 17⟩, ⟨100, 20⟩⟩ point → (20 ≤ point.x ∧ point.x < 84) →
          (10 ≤ point.y ∧ point.y < 42) →
          ∀ texel ∈ sampledTexels 32 16 (⟨(point.x - 20) / 64, (point.y - 10) / 32⟩ : Point ℚ),
            vertical.Has texel.1 texel.2) ∧
        ∀ i j : ℤ, vertical.Has i j → ∀ offset : ℚ, -25 ≤ offset → offset < 25 →
          ∀ texel ∈ sampledTexels 32 16
            (⟨(i + 1 / 2) / 32, (j + 1 / 2) / 16 + offset * (1 / 16)⟩ : Point ℚ),
            horizontal.Has texel.1 texel.2 := by
  obtain ⟨horizontal, vertical, h, hinside, hinside', hpoints, hoffsets⟩ :=
    blur_regions_keep_samples (⟨⟨31, 17⟩, ⟨100, 20⟩⟩ : Bounds ℚ) ⟨20, 10, 64, 32⟩ 2 8
      (by decide) (by decide) (by decide)
  have hreach : ((⌈(3 * 8 : ℚ)⌉.toNat : ℕ) : ℚ) = 24 := by decide +kernel
  refine ⟨horizontal, vertical, h, hinside, hinside', ?_, ?_⟩
  · intro point hpoint hx hy
    exact hpoints point hpoint ⟨hx.1, by norm_num; exact hx.2⟩ ⟨hy.1, by norm_num; exact hy.2⟩
  · intro i j hij offset hlow hhigh
    exact hoffsets i j hij offset (by rw [hreach]; linarith) (by rw [hreach]; linarith)

end Backdrop

end Zui
