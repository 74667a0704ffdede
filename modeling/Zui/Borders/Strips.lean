/-
A quad with a border and no fill, in four strips.

`paint_quad` inserts such a quad once for each strip along its edges, with the strip as its content
mask, so that the shader skips the interior.  The strips touch, and the clip test of the shader
includes the edges of a mask: a row of pixel centres on a common edge belongs to two strips.

Main statements:

* `countP_strips` — how many of the inserted quads a pixel passes the clip test of;
* `shade_a_of_row` — the alpha of the whole quad in the rows of the side strips;
* `border_strips_iff` — the strips paint what the whole quad does, each pixel once, exactly if no
  visible pixel of a side border is centred on the edge between two strips;
* `side_border_blended_twice` — a quad with a pixel that is.
-/
import Zui.Borders.Sides
import Zui.Paint.Calls

namespace Zui

open Gpui

namespace Borders

open Backdrop (Contains clipDistances)

/-- The centre of a pixel. -/
def pixelCenter (px py : ℤ) : Point ℚ := ⟨px + 1 / 2, py + 1 / 2⟩

/-! ### The inserted quads -/

section Inserted

variable {Style : Type} [Inhabited Style]
  (display : Display) (window : Ambient Style) (quad : PaintQuad)

/-- The quad that `paint_quad` would insert as a whole. -/
def wholeQuad : Gpui.Quad where
  bounds := display.snapBounds quad.bounds
  contentMask := snappedContentMask display window
  background := quad.background.opacity window.elementOpacity
  borderColor := quad.borderColor.opacity window.elementOpacity
  cornerRadii := display.scaleCorners quad.cornerRadii
  borderWidths := display.snapBorderWidths quad.borderWidths
  borderStyle := quad.borderStyle
  fade := window.scaledEdgeFade display

/-- A paint operation that inserts a quad. -/
def asQuad : PaintOperation → Option Gpui.Quad
  | .primitive (.quad quad) => some quad
  | _ => none

/-- The quads that `paint_quad` inserts into a scene. -/
def insertedQuads : List Gpui.Quad :=
  (({} : Scene).insertAll (paintQuad display window quad)).paintOperations.filterMap asQuad

/-- The quad of a strip, if it is inserted. -/
def stripQuad (quad : Gpui.Quad) (strip : Bounds ℚ) : Option Gpui.Quad :=
  let contentMaskBounds := quad.contentMask.bounds.intersect strip
  if contentMaskBounds.isEmpty then none
  else if (quad.bounds.intersect contentMaskBounds).isEmpty then none
  else some { quad with contentMask := ⟨contentMaskBounds⟩ }

theorem Background.isTransparent_opacity {background : Gpui.Background}
    (h : background.isTransparent = true) (opacity : ℚ) :
    (background.opacity opacity).isTransparent = true := by
  cases htag : background.tag <;>
    simp_all [Gpui.Background.isTransparent, Gpui.Background.opacity, Hsla.isTransparent,
      Hsla.opacity, LinearColorStop.opacity]

theorem visible_quad (quad : Gpui.Quad) : (PaintOperation.primitive (.quad quad)).visible =
    !(quad.bounds.intersect quad.contentMask.bounds).isEmpty := rfl

omit [Inhabited Style] in
theorem insertedQuads_eq (h : quad.background.isTransparent = true) :
    insertedQuads display window quad =
      let whole := wholeQuad display window quad
      if (innerBounds whole).isEmpty then
        if (whole.bounds.intersect whole.contentMask.bounds).isEmpty then [] else [whole]
      else (borderStrips whole (innerBounds whole)).filterMap (stripQuad whole) := by
  have hpaint : paintQuad display window quad =
      let whole := wholeQuad display window quad
      if (innerBounds whole).isEmpty then [.primitive (.quad whole)]
      else (borderStrips whole (innerBounds whole)).filterMap fun strip =>
        let contentMaskBounds := whole.contentMask.bounds.intersect strip
        if contentMaskBounds.isEmpty then none
        else some (.primitive (.quad { whole with contentMask := ⟨contentMaskBounds⟩ })) := by
    have htransparent := Background.isTransparent_opacity h window.elementOpacity
    simp only [paintQuad, htransparent]
    rfl
  rw [insertedQuads, Scene.insertAll_eq, hpaint]
  generalize wholeQuad display window quad = whole
  simp only [List.nil_append]
  split_ifs with hsplit hvisible
  · simp [visible_quad, hvisible]
  · simp [visible_quad, hvisible, asQuad]
  · rw [List.filter_filterMap, List.filterMap_filterMap]
    refine List.filterMap_congr fun strip _ => ?_
    rw [stripQuad]
    split_ifs with hmask hvisible
    · rfl
    · simp [Option.filter, visible_quad, hvisible]
    · simp [Option.filter, visible_quad, hvisible, asQuad]

end Inserted

/-! ### Device pixels -/

/-- The edges of the bounds are between pixels. -/
def Integral (bounds : Bounds ℚ) : Prop :=
  ∃ left top right bottom : ℤ,
    bounds.origin = ⟨left, top⟩ ∧ bounds.bottomRight = ⟨right, bottom⟩

/-- A quad in device pixels. -/
structure Snapped (quad : Gpui.Quad) : Prop where
  bounds : Integral quad.bounds
  mask : Integral quad.contentMask.bounds
  left : ∃ n : ℕ, quad.borderWidths.left = n
  right : ∃ n : ℕ, quad.borderWidths.right = n
  top : 0 ≤ quad.borderWidths.top
  bottom : 0 ≤ quad.borderWidths.bottom

theorem roundHalfTowardZero_eq (value : ℚ) : ∃ n : ℤ, roundHalfTowardZero value = n := by
  simp only [roundHalfTowardZero]
  split_ifs
  · exact ⟨-⌈|value| - 1 / 2⌉, by push_cast; rfl⟩
  · exact ⟨_, rfl⟩

theorem roundStrokeToDevicePixel_eq (logical scaleFactor : ℚ) :
    ∃ n : ℕ, roundStrokeToDevicePixel logical scaleFactor = n := by
  rw [roundStrokeToDevicePixel]
  split_ifs
  · exact ⟨0, Nat.cast_zero.symm⟩
  obtain ⟨n, hn⟩ := roundHalfTowardZero_eq (max logical 0 * scaleFactor)
  refine ⟨(max n 1).toNat, ?_⟩
  rw [roundToDevicePixel, hn, ← Int.cast_natCast, Int.toNat_of_nonneg (by omega)]
  push_cast
  rfl

theorem integral_fromCorners (left top right bottom : ℤ) :
    Integral (Bounds.fromCorners ⟨left, top⟩ ⟨max (right : ℚ) left, max (bottom : ℚ) top⟩) := by
  refine ⟨left, top, max right left, max bottom top, rfl, ?_⟩
  rw [Bounds.bottomRight_fromCorners]
  push_cast
  rfl

theorem snapBounds_integral (display : Display) (bounds : Bounds ℚ) :
    Integral (display.snapBounds bounds) := by
  obtain ⟨left, hleft⟩ := roundHalfTowardZero_eq (bounds.origin.x * display.scaleFactor)
  obtain ⟨top, htop⟩ := roundHalfTowardZero_eq (bounds.origin.y * display.scaleFactor)
  obtain ⟨right, hright⟩ := roundHalfTowardZero_eq (bounds.bottomRight.x * display.scaleFactor)
  obtain ⟨bottom, hbottom⟩ := roundHalfTowardZero_eq (bounds.bottomRight.y * display.scaleFactor)
  simp only [Display.snapBounds, roundToDevicePixel, hleft, htop, hright, hbottom]
  exact integral_fromCorners left top right bottom

theorem wholeQuad_snapped {Style : Type} (display : Display) (window : Ambient Style)
    (quad : PaintQuad) : Snapped (wholeQuad display window quad) where
  bounds := snapBounds_integral display quad.bounds
  mask := integral_fromCorners _ _ _ _
  left := roundStrokeToDevicePixel_eq ..
  right := roundStrokeToDevicePixel_eq ..
  top := by
    obtain ⟨n, hn⟩ := roundStrokeToDevicePixel_eq quad.borderWidths.top display.scaleFactor
    exact n.cast_nonneg.trans_eq hn.symm
  bottom := by
    obtain ⟨n, hn⟩ := roundStrokeToDevicePixel_eq quad.borderWidths.bottom display.scaleFactor
    exact n.cast_nonneg.trans_eq hn.symm

/-! ### Pixels and strips -/

/-- The point is in the bounds, off their edge. -/
def Within (bounds : Bounds ℚ) (point : Point ℚ) : Prop :=
  (bounds.origin.x < point.x ∧ point.x < bounds.bottomRight.x) ∧
    bounds.origin.y < point.y ∧ point.y < bounds.bottomRight.y

theorem contains_iff {bounds : Bounds ℚ} {point : Point ℚ} : Contains bounds point ↔
    (bounds.origin.x ≤ point.x ∧ point.x ≤ bounds.bottomRight.x) ∧
      bounds.origin.y ≤ point.y ∧ point.y ≤ bounds.bottomRight.y := by
  rw [Contains, and_assoc]
  rfl

theorem center_le_iff {n p : ℤ} : ((p : ℚ) + 1 / 2 ≤ n ↔ (p : ℚ) + 1 / 2 < n) ∧
    ((n : ℚ) ≤ p + 1 / 2 ↔ (n : ℚ) < p + 1 / 2) := by
  have hne : (p : ℚ) + 1 / 2 ≠ n := by
    intro h
    have h : 2 * p + 1 = 2 * n := by
      have h : (2 : ℚ) * p + 1 = 2 * n := by linarith
      exact_mod_cast h
    omega
  exact ⟨⟨fun h => lt_of_le_of_ne h hne, le_of_lt⟩, ⟨fun h => lt_of_le_of_ne h hne.symm, le_of_lt⟩⟩

theorem center_lt_iff {n p : ℤ} : (p : ℚ) + 1 / 2 < n ↔ p < n := by
  constructor
  · intro h
    have hlt : (p : ℚ) < n := by linarith
    exact_mod_cast hlt
  · intro h
    have hle : (p : ℚ) + 1 ≤ n := by exact_mod_cast h
    linarith

theorem lt_center_iff {n p : ℤ} : (n : ℚ) < p + 1 / 2 ↔ n ≤ p := by
  constructor
  · intro h
    have hlt : (n : ℚ) < p + 1 := by linarith
    exact Int.lt_add_one_iff.mp (by exact_mod_cast hlt)
  · intro h
    have hle : (n : ℚ) ≤ p := by exact_mod_cast h
    linarith

theorem Integral.within {bounds : Bounds ℚ} (h : Integral bounds) {px py : ℤ}
    (hcontains : Contains bounds (pixelCenter px py)) : Within bounds (pixelCenter px py) := by
  obtain ⟨left, top, right, bottom, horigin, hcorner⟩ := h
  rw [contains_iff, horigin, hcorner] at hcontains
  rw [Within, horigin, hcorner]
  obtain ⟨⟨hleft, hright⟩, htop, hbottom⟩ := hcontains
  exact ⟨⟨center_le_iff.2.mp hleft, center_le_iff.1.mp hright⟩,
    center_le_iff.2.mp htop, center_le_iff.1.mp hbottom⟩

theorem intersect_eq (a b : Bounds ℚ) : a.intersect b =
    Bounds.fromCorners ⟨max a.origin.x b.origin.x, max a.origin.y b.origin.y⟩
      ⟨max (min a.bottomRight.x b.bottomRight.x) (max a.origin.x b.origin.x),
        max (min a.bottomRight.y b.bottomRight.y) (max a.origin.y b.origin.y)⟩ := by
  have hmax (x y : ℚ) : (if x > y then x else y) = max x y := by rw [max_comm, max_def_lt]
  simp only [Bounds.intersect, Point.max, Point.min, hmax, ← min_def]

theorem isEmpty_intersect_iff {a b : Bounds ℚ} : (a.intersect b).isEmpty = false ↔
    max a.origin.x b.origin.x < min a.bottomRight.x b.bottomRight.x ∧
      max a.origin.y b.origin.y < min a.bottomRight.y b.bottomRight.y := by
  have hlt (x y : ℚ) : x < max y x ↔ x < y := by simp
  rw [← Bool.not_eq_true, intersect_eq, Bounds.isEmpty_fromCorners, not_or, not_le, not_le]
  simp only [hlt]

theorem contains_intersect_iff {a b : Bounds ℚ} (h : (a.intersect b).isEmpty = false)
    {point : Point ℚ} :
    Contains (a.intersect b) point ↔ Contains a point ∧ Contains b point := by
  obtain ⟨hx, hy⟩ := isEmpty_intersect_iff.mp h
  rw [contains_iff, contains_iff, contains_iff, intersect_eq, Bounds.bottomRight_fromCorners]
  show ((max _ _ ≤ _ ∧ _ ≤ max _ _) ∧ max _ _ ≤ _ ∧ _ ≤ max _ _) ↔ _
  rw [max_eq_left hx.le, max_eq_left hy.le, max_le_iff, max_le_iff, le_min_iff, le_min_iff]
  tauto

theorem isEmpty_intersect_of_within {a b : Bounds ℚ} {point : Point ℚ} (ha : Within a point)
    (hb : Contains b point) (hne : b.isEmpty = false) : (a.intersect b).isEmpty = false := by
  obtain ⟨⟨hax, hax'⟩, hay, hay'⟩ := ha
  obtain ⟨⟨hbx, hbx'⟩, hby, hby'⟩ := contains_iff.mp hb
  rw [← Bool.not_eq_true, Bounds.isEmpty_iff, not_or, not_le, not_le] at hne
  rw [isEmpty_intersect_iff]
  simp only [max_lt_iff, lt_min_iff]
  refine ⟨⟨⟨?_, ?_⟩, ?_, ?_⟩, ⟨?_, ?_⟩, ?_, ?_⟩ <;> linarith

theorem stripQuad_passes {quad inserted : Gpui.Quad} {strip : Bounds ℚ} {point : Point ℚ}
    (h : stripQuad quad strip = some inserted)
    (hpasses : Contains inserted.contentMask.bounds point) :
    Contains quad.contentMask.bounds point ∧ Contains strip point := by
  rw [stripQuad] at h
  split_ifs at h with hmask hvisible
  obtain rfl := Option.some.inj h
  exact (contains_intersect_iff (Bool.eq_false_iff.mpr hmask)).mp hpasses

/-- The quad of a strip with an area is inserted where a pixel needs it. -/
theorem stripQuad_passes_iff {quad : Gpui.Quad} (h : Snapped quad) {strip : Bounds ℚ}
    (hstrip : strip.isEmpty = false) {px py : ℤ}
    (hbounds : Contains quad.bounds (pixelCenter px py)) :
    (∃ inserted, stripQuad quad strip = some inserted ∧
        Contains inserted.contentMask.bounds (pixelCenter px py)) ↔
      Contains quad.contentMask.bounds (pixelCenter px py) ∧
        Contains strip (pixelCenter px py) := by
  constructor
  · rintro ⟨inserted, heq, hpasses⟩
    exact stripQuad_passes heq hpasses
  · rintro ⟨hmask, hin⟩
    have hne := isEmpty_intersect_of_within (h.mask.within hmask) hin hstrip
    have hpasses := (contains_intersect_iff hne).mpr ⟨hmask, hin⟩
    have hvisible := isEmpty_intersect_of_within (h.bounds.within hbounds) hpasses hne
    refine ⟨{ quad with contentMask := ⟨quad.contentMask.bounds.intersect strip⟩ }, ?_, hpasses⟩
    rw [stripQuad, if_neg (Bool.eq_false_iff.mp hne), if_neg (Bool.eq_false_iff.mp hvisible)]

/-! ### The strips of a pixel -/

/-- A quad that is split, and a pixel in its bounds and in its mask. -/
structure Split (quad : Gpui.Quad) (px py : ℤ) : Prop where
  snapped : Snapped quad
  split : (innerBounds quad).isEmpty = false
  bounds : Contains quad.bounds (pixelCenter px py)
  mask : Contains quad.contentMask.bounds (pixelCenter px py)

theorem innerBounds_origin (quad : Gpui.Quad) : (innerBounds quad).origin =
    ⟨quad.bounds.origin.x + (quad.borderWidths.left + 1), quad.bounds.origin.y +
      (max (max quad.borderWidths.top quad.cornerRadii.topLeft) quad.cornerRadii.topRight + 1)⟩ :=
  rfl

theorem innerBounds_bottomRight (quad : Gpui.Quad) : (innerBounds quad).bottomRight =
    ⟨quad.bounds.bottomRight.x - (quad.borderWidths.right + 1), quad.bounds.bottomRight.y -
      (max (max quad.borderWidths.bottom quad.cornerRadii.bottomLeft)
        quad.cornerRadii.bottomRight + 1)⟩ :=
  Bounds.bottomRight_fromCorners _ _

/-- The edges of the inner bounds are between those of the quad. -/
theorem Split.order {quad : Gpui.Quad} {px py : ℤ} (h : Split quad px py) :
    (quad.bounds.origin.x < (innerBounds quad).origin.x ∧
      (innerBounds quad).origin.x < (innerBounds quad).bottomRight.x ∧
      (innerBounds quad).bottomRight.x < quad.bounds.bottomRight.x) ∧
    quad.bounds.origin.y < (innerBounds quad).origin.y ∧
      (innerBounds quad).origin.y < (innerBounds quad).bottomRight.y ∧
      (innerBounds quad).bottomRight.y < quad.bounds.bottomRight.y := by
  obtain ⟨left, hleft⟩ := h.snapped.left
  obtain ⟨right, hright⟩ := h.snapped.right
  have hleft : 0 ≤ quad.borderWidths.left := left.cast_nonneg.trans_eq hleft.symm
  have hright : 0 ≤ quad.borderWidths.right := right.cast_nonneg.trans_eq hright.symm
  have htop : quad.borderWidths.top ≤ max (max quad.borderWidths.top quad.cornerRadii.topLeft)
    quad.cornerRadii.topRight := (le_max_left _ _).trans (le_max_left _ _)
  have hbottom : quad.borderWidths.bottom ≤
      max (max quad.borderWidths.bottom quad.cornerRadii.bottomLeft)
        quad.cornerRadii.bottomRight := (le_max_left _ _).trans (le_max_left _ _)
  have hpos := h.snapped.top
  have hpos' := h.snapped.bottom
  have hsplit := h.split
  rw [← Bool.not_eq_true, Bounds.isEmpty_iff, not_or, not_le, not_le] at hsplit
  refine ⟨⟨?_, hsplit.1, ?_⟩, ?_, hsplit.2, ?_⟩ <;>
    simp only [innerBounds_origin, innerBounds_bottomRight] <;> linarith

theorem Split.strip_nonempty {quad : Gpui.Quad} {px py : ℤ} (h : Split quad px py)
    {strip : Bounds ℚ} (hstrip : strip ∈ borderStrips quad (innerBounds quad)) :
    strip.isEmpty = false := by
  obtain ⟨⟨hleft, hx, hright⟩, htop, hy, hbottom⟩ := h.order
  simp only [borderStrips, List.mem_cons, List.not_mem_nil, or_false] at hstrip
  rw [← Bool.not_eq_true]
  rcases hstrip with rfl | rfl | rfl | rfl <;>
    simp only [Bounds.isEmpty_fromCorners, not_or, not_le] <;> constructor <;> linarith

/-- Of how many of the inserted quads a pixel passes the clip test. -/
theorem countP_strips {quad : Gpui.Quad} {px py : ℤ} (h : Split quad px py) :
    (((borderStrips quad (innerBounds quad)).filterMap (stripQuad quad)).countP fun inserted =>
        Contains inserted.contentMask.bounds (pixelCenter px py)) =
      (borderStrips quad (innerBounds quad)).countP fun strip =>
        Contains strip (pixelCenter px py) := by
  rw [List.countP_filterMap]
  refine List.countP_congr fun strip hstrip => ?_
  have hiff := stripQuad_passes_iff h.snapped (h.strip_nonempty hstrip) h.bounds
  have hmask := h.mask
  rw [decide_eq_true_iff]
  cases heq : stripQuad quad strip <;> simp_all

/-- The rows of the side strips, their edges included. -/
def InRows (quad : Gpui.Quad) (point : Point ℚ) : Prop :=
  (innerBounds quad).origin.y ≤ point.y ∧ point.y ≤ (innerBounds quad).bottomRight.y

/-- The point is on the edge between the side strips and the top or the bottom one. -/
def OnEdge (quad : Gpui.Quad) (point : Point ℚ) : Prop :=
  point.y = (innerBounds quad).origin.y ∨ point.y = (innerBounds quad).bottomRight.y

/-- The point is beside the inner bounds. -/
def Beside (quad : Gpui.Quad) (point : Point ℚ) : Prop :=
  point.x ≤ (innerBounds quad).origin.x ∨ (innerBounds quad).bottomRight.x ≤ point.x

instance (quad : Gpui.Quad) (point : Point ℚ) : Decidable (InRows quad point) :=
  inferInstanceAs (Decidable (_ ∧ _))

instance (quad : Gpui.Quad) (point : Point ℚ) : Decidable (OnEdge quad point) :=
  inferInstanceAs (Decidable (_ ∨ _))

instance (quad : Gpui.Quad) (point : Point ℚ) : Decidable (Beside quad point) :=
  inferInstanceAs (Decidable (_ ∨ _))

/-- A pixel is in the top or the bottom strip unless it is strictly between them, and in one of the
side strips if it is beside the inner bounds in their rows. -/
theorem Split.countP_eq {quad : Gpui.Quad} {px py : ℤ} (h : Split quad px py) :
    ((borderStrips quad (innerBounds quad)).countP fun strip =>
        Contains strip (pixelCenter px py)) =
      (if InRows quad (pixelCenter px py) ∧ ¬ OnEdge quad (pixelCenter px py) then 0 else 1) +
        if InRows quad (pixelCenter px py) ∧ Beside quad (pixelCenter px py) then 1 else 0 := by
  obtain ⟨⟨hleft, hx, hright⟩, htop, hy, hbottom⟩ := h.order
  obtain ⟨⟨hl, hr⟩, ht, hb⟩ := h.snapped.bounds.within h.bounds
  generalize pixelCenter px py = point at hl hr ht hb ⊢
  set near := (innerBounds quad).origin
  set far := (innerBounds quad).bottomRight
  have htop' : Contains (Bounds.fromCorners quad.bounds.origin ⟨quad.bounds.bottomRight.x, near.y⟩)
      point ↔ point.y ≤ near.y := by
    rw [contains_iff, Bounds.bottomRight_fromCorners]
    exact ⟨fun hin => hin.2.2, fun hle => ⟨⟨hl.le, hr.le⟩, ht.le, hle⟩⟩
  have hbottom' : Contains (Bounds.fromCorners ⟨quad.bounds.origin.x, far.y⟩
    quad.bounds.bottomRight)
      point ↔ far.y ≤ point.y := by
    rw [contains_iff, Bounds.bottomRight_fromCorners]
    exact ⟨fun hin => hin.2.1, fun hle => ⟨⟨hl.le, hr.le⟩, hle, hb.le⟩⟩
  have hleft' : Contains (Bounds.fromCorners ⟨quad.bounds.origin.x, near.y⟩ ⟨near.x, far.y⟩) point ↔
      InRows quad point ∧ point.x ≤ near.x := by
    rw [contains_iff, Bounds.bottomRight_fromCorners]
    exact ⟨fun hin => ⟨hin.2, hin.1.2⟩, fun hin => ⟨⟨hl.le, hin.2⟩, hin.1⟩⟩
  have hright' : Contains (Bounds.fromCorners ⟨far.x, near.y⟩ ⟨quad.bounds.bottomRight.x, far.y⟩)
      point ↔ InRows quad point ∧ far.x ≤ point.x := by
    rw [contains_iff, Bounds.bottomRight_fromCorners]
    exact ⟨fun hin => ⟨hin.2, hin.1.1⟩, fun hin => ⟨⟨hin.2, hr.le⟩, hin.1⟩⟩
  have hcount : ((borderStrips quad (innerBounds quad)).countP fun strip =>
      Contains strip point) = (if far.y ≤ point.y ∨ point.y ≤ near.y then 1 else 0) +
        if InRows quad point ∧ Beside quad point then 1 else 0 := by
    simp only [borderStrips, List.countP_cons, List.countP_nil, decide_eq_true_iff]
    rw [if_congr htop' rfl rfl, if_congr hbottom' rfl rfl, if_congr hleft' rfl rfl,
      if_congr hright' rfl rfl]
    simp only [Beside]
    grind
  rw [hcount]
  congr 1
  simp only [InRows, OnEdge]
  grind

/-! ### Shading -/

section Shading

variable {K : Type} [Field K]

/-- A point as the shader reads it. -/
def uploadPoint (point : Point ℚ) : Point K := ⟨point.x, point.y⟩

/-- Bounds as the shader reads them. -/
def uploadBounds (bounds : Bounds ℚ) : Bounds K :=
  ⟨uploadPoint bounds.origin, bounds.size.width, bounds.size.height⟩

/-- A colour as the shader reads it. -/
def uploadHsla (color : Gpui.Hsla) : Hsla K := ⟨color.h, color.s, color.l, color.a⟩

/-- A gradient stop as the shader reads it. -/
def uploadStop (stop : Gpui.LinearColorStop) : LinearColorStop K :=
  ⟨uploadHsla stop.color, stop.percentage⟩

/-- A quad as the shader reads it. -/
def upload (quad : Gpui.Quad) : Quad K where
  borderStyle := quad.borderStyle
  bounds := uploadBounds quad.bounds
  contentMask := uploadBounds quad.contentMask.bounds
  background :=
    { tag := quad.background.tag
      colorSpace := quad.background.colorSpace
      solid := uploadHsla quad.background.solid
      gradientAngleOrPatternHeight := quad.background.gradientAngleOrPatternHeight
      colors := (uploadStop quad.background.colors.1, uploadStop quad.background.colors.2) }
  borderColor := uploadHsla quad.borderColor
  cornerRadii :=
    { topLeft := quad.cornerRadii.topLeft
      topRight := quad.cornerRadii.topRight
      bottomRight := quad.cornerRadii.bottomRight
      bottomLeft := quad.cornerRadii.bottomLeft }
  borderWidths :=
    { top := quad.borderWidths.top
      right := quad.borderWidths.right
      bottom := quad.borderWidths.bottom
      left := quad.borderWidths.left }
  fade :=
    { topY := quad.fade.topY
      bottomY := quad.fade.bottomY
      bandTop := quad.fade.bandTop
      bandBottom := quad.fade.bandBottom
      leftX := quad.fade.leftX
      rightX := quad.fade.rightX
      bandLeft := quad.fade.bandLeft
      bandRight := quad.fade.bandRight
      clipLeft := quad.fade.clipLeft
      clipTop := quad.fade.clipTop
      clipRight := quad.fade.clipRight
      clipBottom := quad.fade.clipBottom
      clipRadius := quad.fade.clipRadius }

/-- The blending of a fragment with a pixel. -/
def blend (premultipliedAlpha : Bool) (source destination : Rgba K) : Rgba K :=
  let factor := if premultipliedAlpha then 1 else source.a
  ⟨source.r * factor + destination.r * (1 - source.a),
    source.g * factor + destination.g * (1 - source.a),
    source.b * factor + destination.b * (1 - source.a),
    source.a + destination.a * (1 - source.a)⟩

variable [LinearOrder K] [FloorRing K] (m : Builtins K) (premultipliedAlpha : Bool)

/-- The fragment of a quad at a point. -/
def fragment (quad : Gpui.Quad) (point : Point ℚ) : Rgba K :=
  (upload quad).fsQuad m premultipliedAlpha (uploadPoint point)

/-- The fragments of quads at a point, blended with a pixel in order. -/
def drawQuads (quads : List Gpui.Quad) (point : Point ℚ) (pixel : Rgba K) : Rgba K :=
  quads.foldl (fun pixel quad =>
    if Contains quad.bounds point then
      blend premultipliedAlpha (fragment m premultipliedAlpha quad point) pixel
    else pixel) pixel

/-- At a pixel of a quad, what is inserted for the quad paints what the whole quad would: a pixel
that the whole quad shades passes the clip test of one quad, and a pixel that passes none is not
shaded. -/
structure PaintsAsOne (whole : Gpui.Quad) (inserted : List Gpui.Quad) (point : Point ℚ) : Prop where
  once : (fragment m premultipliedAlpha whole point).a ≠ 0 →
    (inserted.countP fun quad => (upload quad : Quad K).PassesClip (uploadPoint point)) = 1
  none : (∀ quad ∈ inserted, ¬ (upload quad : Quad K).PassesClip (uploadPoint point)) →
    (fragment m premultipliedAlpha whole point).a = 0
  same : ∀ pixel, drawQuads m premultipliedAlpha inserted point pixel =
    drawQuads m premultipliedAlpha [whole] point pixel

/-- The pixel is in the border of the nearer side. -/
def InSideBorder (quad : Gpui.Quad) (point : Point ℚ) : Prop :=
  if point.x < quad.bounds.origin.x + quad.bounds.size.width / 2 then
    point.x < quad.bounds.origin.x + quad.borderWidths.left
  else quad.bounds.bottomRight.x - quad.borderWidths.right < point.x

/-- The border is visible at a point: its colour, its dashes and the fade are. -/
structure BorderVisible (quad : Gpui.Quad) (point : Point ℚ) : Prop where
  color : quad.borderColor.a ≠ 0
  dash : (upload quad).dashFactor (uploadPoint point) m ≠ 0
  fade : edgeFadeAlpha m (uploadPoint point) (upload quad : Quad K).fade ≠ 0

/-- A visible pixel of a side border, centred on the edge between two strips. -/
structure DoublyBlended (quad : Gpui.Quad) (px py : ℤ) : Prop extends Split quad px py where
  edge : OnEdge quad (pixelCenter px py)
  side : InSideBorder quad (pixelCenter px py)
  visible : BorderVisible m quad (pixelCenter px py)

variable [IsStrictOrderedRing K]

theorem passesClip_upload {quad : Gpui.Quad} {point : Point ℚ} :
    (upload quad : Quad K).PassesClip (uploadPoint point) ↔
      Contains quad.contentMask.bounds point := by
  simp only [Quad.PassesClip, clipDistances, List.forall_mem_cons, List.not_mem_nil, false_imp_iff,
    implies_true, and_true, not_lt, sub_nonneg, Contains, upload, uploadBounds, uploadPoint]
  norm_cast

omit [LinearOrder K] [FloorRing K] [IsStrictOrderedRing K] in
theorem upload_isTransparent {quad : Gpui.Quad} (h : quad.background.isTransparent = true) :
    (upload quad : Quad K).background.IsTransparent := by
  cases htag : quad.background.tag <;>
    simp_all [Gpui.Background.isTransparent, Gpui.Hsla.isTransparent, Background.IsTransparent,
      upload, uploadHsla, uploadStop]

theorem between_of_row {quad : Gpui.Quad} {point : Point ℚ} (h : Snapped quad)
    (hrow : InRows quad point) : (upload quad : Quad K).Between (uploadPoint point) := by
  obtain ⟨htop, hbottom⟩ := hrow
  rw [innerBounds_origin] at htop
  rw [innerBounds_bottomRight] at hbottom
  have htop : max (max quad.borderWidths.top quad.cornerRadii.topLeft)
    quad.cornerRadii.topRight + 1 ≤
      point.y - quad.bounds.origin.y := le_sub_iff_add_le'.mpr htop
  have hbottom : max (max quad.borderWidths.bottom quad.cornerRadii.bottomLeft)
      quad.cornerRadii.bottomRight + 1 ≤
      quad.bounds.size.height - (point.y - quad.bounds.origin.y) := by
    simp only [Bounds.bottomRight] at hbottom
    linarith
  constructor
  · show max (max (quad.borderWidths.top : K) quad.cornerRadii.topLeft)
      quad.cornerRadii.topRight + 1 ≤
      point.y - quad.bounds.origin.y
    exact_mod_cast htop
  · show max (max (quad.borderWidths.bottom : K) quad.cornerRadii.bottomLeft)
      quad.cornerRadii.bottomRight + 1 ≤
      quad.bounds.size.height - ((point.y : K) - quad.bounds.origin.y)
    exact_mod_cast hbottom
  · exact Rat.cast_nonneg.mpr h.top
  · exact Rat.cast_nonneg.mpr h.bottom

/-- The distance to the nearer side and the width of its border, in pixels. -/
theorem side_of_split {quad : Gpui.Quad} {px py : ℤ} (h : Split quad px py) :
    ∃ (k : ℤ) (n : ℕ), k < 0 ∧
      ((upload quad : Quad K).cornerToPoint (uploadPoint (pixelCenter px py))).x = k + 1 / 2 ∧
      ((upload quad : Quad K).border (uploadPoint (pixelCenter px py))).x = n ∧
      (InSideBorder quad (pixelCenter px py) ↔ 0 < k + (n : ℤ) + 1) := by
  obtain ⟨⟨hl, hr⟩, -⟩ := h.snapped.bounds.within h.bounds
  obtain ⟨left, top, right, bottom, horigin, hcorner⟩ := h.snapped.bounds
  obtain ⟨n, hn⟩ := h.snapped.left
  obtain ⟨n', hn'⟩ := h.snapped.right
  have hx : quad.bounds.origin.x = left := congrArg Point.x horigin
  have hx' : quad.bounds.bottomRight.x = right := congrArg Point.x hcorner
  have hwidth : quad.bounds.size.width = right - left := by
    have hright : quad.bounds.origin.x + quad.bounds.size.width = right := hx'
    linarith
  have hl' : left ≤ px := lt_center_iff.mp (hx ▸ hl)
  have hr' : px < right := center_lt_iff.mp (hx' ▸ hr)
  -- the side that the shader takes for the nearer one
  have hpoint : ((upload quad : Quad K).point (uploadPoint (pixelCenter px py))).x =
      px + 1 / 2 - left := by
    show (((px : ℚ) + 1 / 2 : ℚ) : K) - quad.bounds.origin.x = _
    rw [hx]
    push_cast
    ring
  have hsize : (upload quad : Quad K).bounds.size.width = (right : K) - left := by
    show (quad.bounds.size.width : K) = _
    rw [hwidth]
    push_cast
    ring
  have hsign : ((upload quad : Quad K).point (uploadPoint (pixelCenter px py))).x -
      (upload quad : Quad K).bounds.size.width / 2 < 0 ↔
      (pixelCenter px py).x < quad.bounds.origin.x + quad.bounds.size.width / 2 := by
    have hcast : (((px + 1 / 2 - left - (right - left) / 2 : ℚ)) : K) < 0 ↔
        (px + 1 / 2 - left - (right - left) / 2 : ℚ) < 0 := Rat.cast_lt_zero
    push_cast at hcast
    rw [hpoint, hsize, hcast, hx, hwidth]
    show _ ↔ (px : ℚ) + 1 / 2 < _
    constructor <;> intro h <;> linarith
  have hdistance : ((upload quad : Quad K).cornerToPoint (uploadPoint (pixelCenter px py))).x =
      _ := abs_sub_half _ _
  have hborder : ((upload quad : Quad K).border (uploadPoint (pixelCenter px py))).x =
      if ((upload quad : Quad K).point (uploadPoint (pixelCenter px py))).x -
          (upload quad : Quad K).bounds.size.width / 2 < 0 then
        (quad.borderWidths.left : K) else quad.borderWidths.right := rfl
  rw [hdistance, hborder, InSideBorder, hpoint, hsize]
  rw [hpoint, hsize] at hsign
  by_cases hnear : (pixelCenter px py).x < quad.bounds.origin.x + quad.bounds.size.width / 2
  · refine ⟨left - px - 1, n, by omega, ?_, ?_, ?_⟩
    · rw [if_pos (hsign.mpr hnear)]
      push_cast
      ring
    · rw [if_pos (hsign.mpr hnear), hn, Rat.cast_natCast]
    · rw [if_pos hnear, hx, hn]
      show (px : ℚ) + 1 / 2 < _ ↔ _
      have hlt := center_lt_iff (n := left + n) (p := px)
      push_cast at hlt
      rw [hlt]
      omega
  · have hfar : ¬ (px + 1 / 2 - left - (right - left) / 2 : K) < 0 := fun h => hnear (hsign.mp h)
    refine ⟨px - right, n', by omega, ?_, ?_, ?_⟩
    · rw [if_neg hfar]
      push_cast
      ring
    · rw [if_neg hfar, hn', Rat.cast_natCast]
    · rw [if_neg hnear, hx', hn']
      show _ < (px : ℚ) + 1 / 2 ↔ _
      have hlt := lt_center_iff (n := right - n') (p := px)
      push_cast at hlt
      rw [hlt]
      omega

/-- The alpha of the whole quad in the rows of the side strips. -/
theorem shade_a_of_row {quad : Gpui.Quad} {px py : ℤ} (h : Split quad px py)
    (hback : quad.background.isTransparent = true) (hrow : InRows quad (pixelCenter px py)) :
    (fragment m premultipliedAlpha quad (pixelCenter px py)).a ≠ 0 ↔
      InSideBorder quad (pixelCenter px py) ∧ BorderVisible m quad (pixelCenter px py) := by
  obtain ⟨k, n, hneg, hk, hn, hside⟩ := side_of_split (K := K) h
  have hbetween := between_of_row (K := K) h.snapped hrow
  rw [fragment, Quad.fsQuad, if_pos (passesClip_upload.mpr h.mask),
    shade_a_of_side m premultipliedAlpha (upload_isTransparent hback) hbetween hk hneg hn, hside]
  have hcolor : (upload quad : Quad K).borderColor.a ≠ 0 ↔ quad.borderColor.a ≠ 0 :=
    Rat.cast_ne_zero
  split_ifs with hin
  · rw [mul_ne_zero_iff, mul_ne_zero_iff, hcolor]
    exact ⟨fun ⟨⟨hc, hd⟩, hf⟩ => ⟨hin, hc, hd, hf⟩, fun ⟨_, hc, hd, hf⟩ => ⟨⟨hc, hd⟩, hf⟩⟩
  · simp [hin]

/-! ### Blending -/

omit [FloorRing K] [IsStrictOrderedRing K] [LinearOrder K] in
theorem blend_zero (pixel : Rgba K) : blend premultipliedAlpha 0 pixel = pixel := by
  show Rgba.mk _ _ _ _ = pixel
  have hzero : (0 : Rgba K) = ⟨0, 0, 0, 0⟩ := rfl
  simp [hzero]

omit [FloorRing K] [IsStrictOrderedRing K] [LinearOrder K] in
theorem blend_of_a_eq_zero {color : Rgba K} {alphaFactor : K}
    (h : (blendColor premultipliedAlpha color alphaFactor).a = 0) (pixel : Rgba K) :
    blend premultipliedAlpha (blendColor premultipliedAlpha color alphaFactor) pixel = pixel := by
  have h : color.a * alphaFactor = 0 := h
  simp only [blend, blendColor, h]
  cases premultipliedAlpha <;> simp

omit [IsStrictOrderedRing K] in
theorem shade_eq_blendColor (quad : Quad K) (position : Point K) : ∃ color alphaFactor,
    quad.shade m premultipliedAlpha position = blendColor premultipliedAlpha color alphaFactor := by
  rw [Quad.shade]
  split_ifs <;> exact ⟨_, _, rfl⟩

theorem foldl_ite_eq_iterate {α β : Type} (p : α → Bool) (f : β → β) (xs : List α) (b : β) :
    xs.foldl (fun b x => if p x then f b else b) b = f^[xs.countP p] b := by
  induction xs generalizing b with
  | nil => rfl
  | cons x xs ih =>
    rw [List.foldl_cons, ih, List.countP_cons]
    split_ifs
    · rw [Function.iterate_add_apply]
      rfl
    · rfl

omit [IsStrictOrderedRing K] in
/-- Quads that differ from a whole one in their masks alone blend its fragment once for each of them
that passes the clip test. -/
theorem drawQuads_eq {whole : Gpui.Quad} {inserted : List Gpui.Quad} {point : Point ℚ}
    (hbounds : Contains whole.bounds point)
    (hinserted : ∀ quad ∈ inserted, ∃ mask, quad = { whole with contentMask := mask })
    (pixel : Rgba K) :
    drawQuads m premultipliedAlpha inserted point pixel =
      (blend premultipliedAlpha
        ((upload whole).shade m premultipliedAlpha
          (uploadPoint point)))^[inserted.countP fun quad =>
          (upload quad : Quad K).PassesClip (uploadPoint point)] pixel := by
  rw [← foldl_ite_eq_iterate, drawQuads]
  refine List.foldl_ext _ _ _ fun pixel quad hquad => ?_
  obtain ⟨mask, rfl⟩ := hinserted quad hquad
  rw [if_pos hbounds, fragment, Quad.fsQuad]
  simp only [decide_eq_true_iff]
  split_ifs
  · rfl
  · exact blend_zero premultipliedAlpha pixel

/-- What has to be shown of the number of the quads that a pixel passes the clip test of. -/
theorem paintsAsOne_of_countP {whole : Gpui.Quad} {inserted : List Gpui.Quad} {point : Point ℚ}
    (hbounds : Contains whole.bounds point)
    (hinserted : ∀ quad ∈ inserted, ∃ mask, quad = { whole with contentMask := mask })
    (honce : (fragment m premultipliedAlpha whole point).a ≠ 0 →
      (inserted.countP fun quad => Contains quad.contentMask.bounds point) = 1)
    (hnone : (inserted.countP fun quad => Contains quad.contentMask.bounds point) = 0 →
      (fragment m premultipliedAlpha whole point).a = 0)
    (hmask : ¬ Contains whole.contentMask.bounds point →
      (inserted.countP fun quad => Contains quad.contentMask.bounds point) = 0) :
    PaintsAsOne m premultipliedAlpha whole inserted point := by
  have hcount (quads : List Gpui.Quad) :
      (quads.countP fun quad => (upload quad : Quad K).PassesClip (uploadPoint point)) =
        quads.countP fun quad => Contains quad.contentMask.bounds point :=
    List.countP_congr fun quad _ => by
      rw [decide_eq_true_iff, decide_eq_true_iff, passesClip_upload]
  refine ⟨fun ha => (hcount inserted).trans (honce ha), fun hall => hnone ?_, fun pixel => ?_⟩
  · rw [← hcount, List.countP_eq_zero]
    simpa using hall
  rw [drawQuads_eq m premultipliedAlpha hbounds hinserted,
    drawQuads_eq m premultipliedAlpha hbounds
      (fun quad (hquad : quad ∈ [whole]) => ⟨_, List.mem_singleton.mp hquad⟩), hcount, hcount]
  by_cases hin : Contains whole.contentMask.bounds point
  · have hsingle : ([whole].countP fun quad => Contains quad.contentMask.bounds point) = 1 := by
      simp [hin]
    by_cases ha : (fragment m premultipliedAlpha whole point).a = 0
    · -- blending the fragment is the identity, however often
      rw [fragment, Quad.fsQuad, if_pos (passesClip_upload.mpr hin)] at ha
      obtain ⟨color, alphaFactor, heq⟩ :=
        shade_eq_blendColor m premultipliedAlpha (upload whole) (uploadPoint point)
      rw [heq] at ha ⊢
      have hid : blend premultipliedAlpha (blendColor premultipliedAlpha color alphaFactor) = id :=
        funext (blend_of_a_eq_zero premultipliedAlpha ha)
      rw [hid, Function.iterate_id, Function.iterate_id]
    · rw [honce ha, hsingle]
  · have hsingle : ([whole].countP fun quad => Contains quad.contentMask.bounds point) = 0 := by
      simp [hin]
    rw [hmask hin, hsingle]

/-! ### The pixels of a quad -/

theorem stripQuad_mask {quad inserted : Gpui.Quad} {strip : Bounds ℚ}
    (h : stripQuad quad strip = some inserted) :
    ∃ mask, inserted = { quad with contentMask := mask } := by
  rw [stripQuad] at h
  split_ifs at h
  exact ⟨_, (Option.some.inj h).symm⟩

theorem InSideBorder.beside {quad : Gpui.Quad} {point : Point ℚ} (h : InSideBorder quad point) :
    Beside quad point := by
  rw [InSideBorder] at h
  rw [Beside, innerBounds_origin, innerBounds_bottomRight]
  split_ifs at h
  · left
    show point.x ≤ quad.bounds.origin.x + (quad.borderWidths.left + 1)
    linarith
  · right
    show quad.bounds.bottomRight.x - (quad.borderWidths.right + 1) ≤ point.x
    linarith

theorem fragment_a_of_masked {quad : Gpui.Quad} {point : Point ℚ}
    (h : ¬ Contains quad.contentMask.bounds point) :
    (fragment m premultipliedAlpha quad point).a = 0 := by
  rw [fragment, Quad.fsQuad, if_neg (passesClip_upload.not.mpr h)]
  rfl

/-- A pixel of a quad that is split. -/
theorem paintsAsOne_strips_iff {quad : Gpui.Quad} {px py : ℤ} (h : Split quad px py)
    (hback : quad.background.isTransparent = true) :
    PaintsAsOne m premultipliedAlpha quad
        ((borderStrips quad (innerBounds quad)).filterMap (stripQuad quad)) (pixelCenter px py) ↔
      ¬ DoublyBlended m quad px py := by
  have hcount := (countP_strips h).trans h.countP_eq
  have hmembers : ∀ inserted ∈ (borderStrips quad (innerBounds quad)).filterMap (stripQuad quad),
      ∃ mask, inserted = { quad with contentMask := mask } := by
    intro inserted hinserted
    obtain ⟨strip, -, heq⟩ := List.mem_filterMap.mp hinserted
    exact stripQuad_mask heq
  constructor
  · rintro hpaints hdouble
    have hrow : InRows quad (pixelCenter px py) := by
      have horder := h.order.2.2.1
      rcases hdouble.edge with hy | hy
      · exact ⟨hy.ge, hy.le.trans horder.le⟩
      · exact ⟨horder.le.trans hy.ge, hy.le⟩
    have ha := (shade_a_of_row m premultipliedAlpha h hback hrow).mpr
      ⟨hdouble.side, hdouble.visible⟩
    have honce := hpaints.once ha
    simp only [passesClip_upload] at honce
    rw [hcount, if_neg (fun hin => hin.2 hdouble.edge), if_pos ⟨hrow, hdouble.side.beside⟩] at honce
    omega
  · intro hdouble
    refine paintsAsOne_of_countP m premultipliedAlpha h.bounds hmembers ?_ ?_
      fun hmask => absurd h.mask hmask
    · intro ha
      rw [hcount]
      by_cases hrow : InRows quad (pixelCenter px py)
      · obtain ⟨hside, hvisible⟩ := (shade_a_of_row m premultipliedAlpha h hback hrow).mp ha
        have hedge : ¬ OnEdge quad (pixelCenter px py) :=
          fun hedge => hdouble ⟨h, hedge, hside, hvisible⟩
        rw [if_pos ⟨hrow, hedge⟩, if_pos ⟨hrow, hside.beside⟩]
      · rw [if_neg (fun hin => hrow hin.1), if_neg (fun hin => hrow hin.1)]
    · rw [hcount]
      intro hzero
      by_contra ha
      by_cases hrow : InRows quad (pixelCenter px py)
      · obtain ⟨hside, -⟩ := (shade_a_of_row m premultipliedAlpha h hback hrow).mp ha
        rw [if_pos (⟨hrow, hside.beside⟩ : InRows quad (pixelCenter px py) ∧ _)] at hzero
        omega
      · rw [if_neg (fun hin => hrow hin.1)] at hzero
        omega

variable {Style : Type}

/-- A pixel of a quad that `paint_quad` paints. -/
theorem paintsAsOne_iff (display : Display) (window : Ambient Style) (quad : PaintQuad)
    (hback : quad.background.isTransparent = true) {px py : ℤ}
    (hbounds : Contains (wholeQuad display window quad).bounds (pixelCenter px py)) :
    PaintsAsOne m premultipliedAlpha (wholeQuad display window quad)
        (insertedQuads display window quad) (pixelCenter px py) ↔
      ¬ DoublyBlended m (wholeQuad display window quad) px py := by
  have hsnapped := wholeQuad_snapped display window quad
  have hback' : (wholeQuad display window quad).background.isTransparent = true :=
    Background.isTransparent_opacity hback window.elementOpacity
  rw [insertedQuads_eq display window quad hback]
  generalize wholeQuad display window quad = whole at hbounds hsnapped hback' ⊢
  dsimp only
  split_ifs with hsplit hvisible
  · -- nothing is inserted, and the mask keeps the pixel out
    have hmask : ¬ Contains whole.contentMask.bounds (pixelCenter px py) := by
      intro hmask
      obtain ⟨⟨hl, hr⟩, ht, hb⟩ := hsnapped.mask.within hmask
      have hne : whole.contentMask.bounds.isEmpty = false := by
        rw [← Bool.not_eq_true, Bounds.isEmpty_iff, not_or, not_le, not_le]
        exact ⟨hl.trans hr, ht.trans hb⟩
      have harea := isEmpty_intersect_of_within (hsnapped.bounds.within hbounds) hmask hne
      exact Bool.eq_false_iff.mp harea hvisible
    refine iff_of_true ?_ fun hdouble => hmask hdouble.mask
    exact paintsAsOne_of_countP m premultipliedAlpha hbounds (by simp)
      (fun ha => absurd (fragment_a_of_masked m premultipliedAlpha hmask) ha)
      (fun _ => fragment_a_of_masked m premultipliedAlpha hmask) fun _ => rfl
  · -- the quad as a whole
    refine iff_of_true ?_ fun hdouble => Bool.eq_false_iff.mp hdouble.split hsplit
    refine paintsAsOne_of_countP m premultipliedAlpha hbounds
      (fun quad hquad => ⟨_, List.mem_singleton.mp hquad⟩) ?_ ?_ ?_
    · intro ha
      have hmask : Contains whole.contentMask.bounds (pixelCenter px py) :=
        not_not.mp fun hmask => ha (fragment_a_of_masked m premultipliedAlpha hmask)
      simp [hmask]
    · intro hzero
      exact fragment_a_of_masked m premultipliedAlpha (by simpa using hzero)
    · intro hmask
      simp [hmask]
  · by_cases hmask : Contains whole.contentMask.bounds (pixelCenter px py)
    · exact paintsAsOne_strips_iff m premultipliedAlpha
        ⟨hsnapped, Bool.eq_false_iff.mpr hsplit, hbounds, hmask⟩ hback'
    · have hzero : ((borderStrips whole (innerBounds whole)).filterMap (stripQuad whole)).countP
          (fun quad => Contains quad.contentMask.bounds (pixelCenter px py)) = 0 := by
        rw [List.countP_eq_zero]
        intro inserted hinserted
        obtain ⟨strip, -, heq⟩ := List.mem_filterMap.mp hinserted
        simpa using fun hpasses => hmask (stripQuad_passes heq hpasses).1
      refine iff_of_true ?_ fun hdouble => hmask hdouble.mask
      refine paintsAsOne_of_countP m premultipliedAlpha hbounds ?_
        (fun ha => absurd (fragment_a_of_masked m premultipliedAlpha hmask) ha)
        (fun _ => fragment_a_of_masked m premultipliedAlpha hmask) fun _ => hzero
      intro inserted hinserted
      obtain ⟨strip, -, heq⟩ := List.mem_filterMap.mp hinserted
      exact stripQuad_mask heq

/-- The quads that `paint_quad` inserts for a quad without a fill paint what the whole quad would,
each pixel once, exactly if no visible pixel of a side border is centred on the edge between two of
its strips. -/
theorem border_strips_iff (display : Display) (window : Ambient Style) (quad : PaintQuad)
    (hback : quad.background.isTransparent = true) :
    (∀ px py : ℤ, Contains (wholeQuad display window quad).bounds (pixelCenter px py) →
      PaintsAsOne m premultipliedAlpha (wholeQuad display window quad)
        (insertedQuads display window quad) (pixelCenter px py)) ↔
      ∀ px py : ℤ, ¬ DoublyBlended m (wholeQuad display window quad) px py := by
  constructor
  · intro h px py hdouble
    exact (paintsAsOne_iff m premultipliedAlpha display window quad hback hdouble.bounds).mp
      (h px py hdouble.bounds) hdouble
  · intro h px py hbounds
    exact (paintsAsOne_iff m premultipliedAlpha display window quad hback hbounds).mpr (h px py)

end Shading

/-! ### A quad with a pixel that is blended twice -/

/-- The functions of the shading language on the real numbers. -/
noncomputable def realBuiltins : Builtins ℝ where
  exp := Real.exp
  length v := √(v.x ^ 2 + v.y ^ 2)
  exp_pos := Real.exp_pos
  sin := Real.sin
  cos := Real.cos
  pow x y := x ^ y
  atan2 y x := Complex.arg ⟨x, y⟩
  length_horizontal x := by simp [Real.sqrt_sq_eq_abs]

/-- A display with one device pixel for a logical one. -/
def plainDisplay : Display where
  scaleFactor := 1
  scaleFactor_pos := one_pos
  shouldUseSubpixelRendering _ _ := false
  glyphDilationForColor _ := 0
  rasterBounds _ := none
  glyphTile _ := none
  svgTile _ _ := none

/-- A window without scopes. -/
def plainWindow : Ambient Unit where
  viewportSize := ⟨20, 20⟩
  baseRemSize := 16
  remSizeOverrideStack := []
  textStyleStack := []
  contentMaskStack := []
  elementOpacity := 1
  edgeFade := none
  roundedClip := none

/-- A translucent border of one pixel, with rounded corners of four and a half. -/
def outline : PaintQuad where
  bounds := ⟨⟨0, 0⟩, ⟨20, 20⟩⟩
  cornerRadii := ⟨9 / 2, 9 / 2, 9 / 2, 9 / 2⟩
  background := ⟨.solid, .srgb, transparentBlack, 0, (⟨transparentBlack, 0⟩, ⟨transparentBlack, 1⟩)⟩
  borderWidths := ⟨1, 1, 1, 1⟩
  borderColor := ⟨0, 0, 0, 1 / 2⟩
  borderStyle := .solid

/-- The statement at the outline, whose strips meet at five and a half. -/
theorem border_strips_outline :
    (∀ px py : ℤ, Contains (wholeQuad plainDisplay plainWindow outline).bounds (pixelCenter px py) →
      PaintsAsOne realBuiltins true (wholeQuad plainDisplay plainWindow outline)
        (insertedQuads plainDisplay plainWindow outline) (pixelCenter px py)) ↔
      ∀ px py : ℤ, ¬ DoublyBlended realBuiltins
        (wholeQuad plainDisplay plainWindow outline) px py :=
  border_strips_iff realBuiltins true plainDisplay plainWindow outline (by decide +kernel)

/-- The pixel of the left border in the row of the common edge is blended twice. -/
theorem side_border_blended_twice :
    Contains (wholeQuad plainDisplay plainWindow outline).bounds (pixelCenter 0 5) ∧
      ¬ PaintsAsOne realBuiltins true (wholeQuad plainDisplay plainWindow outline)
        (insertedQuads plainDisplay plainWindow outline) (pixelCenter 0 5) := by
  have hbounds : Contains (wholeQuad plainDisplay plainWindow outline).bounds
    (pixelCenter 0 5) := by
    decide +kernel
  refine ⟨hbounds, fun hpaints => ?_⟩
  refine (paintsAsOne_iff realBuiltins true plainDisplay plainWindow outline (by decide +kernel)
    hbounds).mp hpaints ⟨⟨wholeQuad_snapped .., by decide +kernel, hbounds, by decide +kernel⟩,
      by decide +kernel, ?_, by decide +kernel, ?_, ?_⟩
  · rw [InSideBorder]
    decide +kernel
  · exact one_ne_zero
  · have hfade : (wholeQuad plainDisplay plainWindow outline).fade = {} := rfl
    simp [edgeFadeAlpha, upload, hfade]

end Borders

end Zui
