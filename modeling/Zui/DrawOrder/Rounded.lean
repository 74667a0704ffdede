/-
Scenes whose coordinates are not rounded.

The coordinates of a scene are numbers of single precision, and so every sum and every difference of
them is rounded.  Where the corners of all bounds are multiples of some power of two with fewer than
22 bits, none of them is, and the scene gives the orders that it would give over the rationals.

Main statements:

* `sameArithmetic` — the operations of such bounds are exact;
* `Scene.applyAll_agrees` — operations build the same scene in two arithmetics that agree.
-/
import Zui.DrawOrder.Orders
import Zui.Gpui.Exact
import Zui.Library.Binary32

namespace Zui

open Gpui (Bounds BoundsTree NodesFit Point SameArithmetic)

namespace DrawOrder

/-! ### Scenes in two arithmetics -/

section Agreement

variable {U D : Type} {add : Add U} {sub : Sub U} {zero : Zero U} [Add U] [Sub U] [Zero U]
  [LinearOrder U] {Fits : Bounds U → Prop}

/-- The bounds and the content mask fit. -/
def PaintOperation.Within (Fits : Bounds U → Prop) : PaintOperation U D → Prop
  | .primitive p => Fits p.bounds ∧ Fits p.contentMask
  | .backdropBlur b => Fits b.bounds ∧ Fits b.contentMask
  | .startLayer bounds => Fits bounds
  | .endLayer => True

/-- All bounds of a scene fit. -/
structure Scene.Within (Fits : Bounds U → Prop) (scene : Scene U D) : Prop where
  tree : NodesFit Fits scene.primitiveBounds.nodes
  operations : ∀ op ∈ scene.paintOperations, op.Within Fits

variable (h : SameArithmetic add sub zero Fits)

include h

theorem Drawn.clippedBounds_eq {x : Drawn U D} (hx : x.operation.Within Fits) :
    @Drawn.clippedBounds U D add sub _ x = x.clippedBounds ∧ Fits x.clippedBounds := by
  cases x with
  | primitive p => exact ⟨h.intersect hx.1 hx.2, h.fits_intersect hx.1 hx.2⟩
  | backdropBlur b => exact ⟨h.intersect hx.1 hx.2, h.fits_intersect hx.1 hx.2⟩

namespace Scene

variable {scene : Scene U D}

theorem apply_operation_agrees {x : Drawn U D} (hx : x.operation.Within Fits)
    (hscene : scene.Within Fits) : Agrees (Scene.Within Fits)
      (@apply U D add sub zero _ scene x.operation) (scene.apply x.operation) := by
  obtain ⟨hclipped, hfits⟩ := x.clippedBounds_eq h hx
  rw [@apply_operation U D add, apply_operation, hclipped, h.isEmpty]
  split_ifs
  · exact .ok hscene
  · refine Agrees.bind (P := fun next => NodesFit Fits next.1.nodes) ?_ fun next hnext => .ok ?_
    · unfold nextOrder
      split
      · exact .ok hscene.tree
      · exact BoundsTree.insert_agrees h hscene.tree hfits
    · refine ⟨by rwa [record_primitiveBounds], fun op hop => ?_⟩
      rw [record_paintOperations] at hop
      rcases List.mem_append.mp hop with hop | hop
      · exact hscene.operations op hop
      · rw [List.mem_singleton.mp hop]
        cases x <;> exact hx

theorem apply_agrees {op : PaintOperation U D} (hop : op.Within Fits) (hscene : scene.Within Fits) :
    Agrees (Scene.Within Fits) (@apply U D add sub zero _ scene op) (scene.apply op) := by
  have hconcat : ∀ other ∈ scene.paintOperations ++ [op], other.Within Fits := by
    intro other hother
    rcases List.mem_append.mp hother with hother | hother
    · exact hscene.operations other hother
    · rwa [List.mem_singleton.mp hother]
  cases op with
  | primitive p => exact apply_operation_agrees (x := .primitive p) h hop hscene
  | backdropBlur b => exact apply_operation_agrees (x := .backdropBlur b) h hop hscene
  | startLayer bounds =>
    exact (BoundsTree.insert_agrees h hscene.tree hop).bind fun next hnext => .ok ⟨hnext, hconcat⟩
  | endLayer => exact .ok ⟨hscene.tree, hconcat⟩

/-- Operations whose bounds fit build the same scene. -/
theorem applyAll_agrees {operations : List (PaintOperation U D)}
    (hoperations : ∀ op ∈ operations, op.Within Fits) (hscene : scene.Within Fits) :
    Agrees (Scene.Within Fits) (@applyAll U D add sub zero _ scene operations)
      (scene.applyAll operations) :=
  Agrees.foldlM hscene fun _ hnext op hop => apply_agrees h (hoperations op hop) hnext

end Scene

end Agreement

/-! ### Single precision -/

/-- `ScaledPixels`. -/
def ScaledPixels : Type := ℚ

namespace ScaledPixels

/-- The number. -/
def toRat (self : ScaledPixels) : ℚ := self

instance : LinearOrder ScaledPixels := inferInstanceAs (LinearOrder ℚ)

instance : Add ScaledPixels := ⟨fun a b => binary32 (a.toRat + b.toRat)⟩

instance : Sub ScaledPixels := ⟨fun a b => binary32 (a.toRat - b.toRat)⟩

instance : Zero ScaledPixels := inferInstanceAs (Zero ℚ)

/-- The arithmetic of the rationals. -/
abbrev exact : AddCommGroup ScaledPixels := inferInstanceAs (AddCommGroup ℚ)

end ScaledPixels

/-- A multiple of `2 ^ (-k)` with fewer than 22 bits. -/
structure Corner (k : ℕ) (x : ScaledPixels) : Prop where
  multiple : Multiple k x.toRat
  small : |x.toRat| * 2 ^ k < 2 ^ 22

/-- Both coordinates of a point. -/
structure Snapped (k : ℕ) (point : Point ScaledPixels) : Prop where
  x : Corner k point.x
  y : Corner k point.y

/-- The corners of bounds, of which the second one is taken without rounding. -/
structure SnappedBounds (k : ℕ) (bounds : Bounds ScaledPixels) : Prop where
  origin : Snapped k bounds.origin
  corner : Snapped k (@Bounds.bottomRight ScaledPixels ScaledPixels.exact.toAdd bounds)

namespace Corner

variable {k : ℕ} {x y : ScaledPixels}

theorem round (hk : k ≤ 149) (hx : Corner k x) : binary32 x.toRat = x.toRat :=
  binary32_eq_self hk hx.multiple (hx.small.trans (by norm_num))

theorem round_sub (hk : k ≤ 149) (hx : Corner k x) (hy : Corner k y) :
    binary32 (x.toRat - y.toRat) = x.toRat - y.toRat := by
  refine binary32_eq_self hk (hx.multiple.sub hy.multiple) ?_
  have hle := mul_le_mul_of_nonneg_right (abs_sub x.toRat y.toRat)
    (by positivity : (0 : ℚ) ≤ 2 ^ k)
  rw [add_mul] at hle
  linarith [hx.small, hy.small]

theorem round_add_sub {x' y' : ScaledPixels} (hk : k ≤ 149) (hx : Corner k x) (hy : Corner k y)
    (hx' : Corner k x') (hy' : Corner k y') :
    binary32 (x.toRat - y.toRat + (x'.toRat - y'.toRat)) =
      x.toRat - y.toRat + (x'.toRat - y'.toRat) := by
  refine binary32_eq_self hk ((hx.multiple.sub hy.multiple).add (hx'.multiple.sub hy'.multiple)) ?_
  have hle := mul_le_mul_of_nonneg_right ((abs_add_le _ _).trans
    (add_le_add (abs_sub x.toRat y.toRat) (abs_sub x'.toRat y'.toRat)))
      (by positivity : (0 : ℚ) ≤ 2 ^ k)
  rw [add_mul, add_mul, add_mul] at hle
  linarith [hx.small, hy.small, hx'.small, hy'.small]

end Corner

namespace Snapped

variable {k : ℕ} {p q : Point ScaledPixels}

theorem min (hp : Snapped k p) (hq : Snapped k q) : Snapped k (p.min q) := by
  constructor
  · show Corner k (if _ then _ else _)
    split_ifs
    · exact hp.x
    · exact hq.x
  · show Corner k (if _ then _ else _)
    split_ifs
    · exact hp.y
    · exact hq.y

theorem max (hp : Snapped k p) (hq : Snapped k q) : Snapped k (p.max q) := by
  constructor
  · show Corner k (if _ then _ else _)
    split_ifs
    · exact hp.x
    · exact hq.x
  · show Corner k (if _ then _ else _)
    split_ifs
    · exact hp.y
    · exact hq.y

theorem fromCorners (hk : k ≤ 149) (hp : Snapped k p) (hq : Snapped k q) :
    @Bounds.fromCorners ScaledPixels ScaledPixels.exact.toSub p q = Bounds.fromCorners p q ∧
      SnappedBounds k (Bounds.fromCorners p q) := by
  have heq : @Bounds.fromCorners ScaledPixels ScaledPixels.exact.toSub p q =
      Bounds.fromCorners p q :=
    congrArg (Bounds.mk p) (congrArg₂ Gpui.Size.mk (hq.x.round_sub hk hp.x).symm
      (hq.y.round_sub hk hp.y).symm)
  refine ⟨heq, hp, ?_⟩
  rw [← heq, @Bounds.bottomRight_fromCorners ScaledPixels ScaledPixels.exact]
  exact hq

end Snapped

/-- The operations of bounds whose corners have few bits are exact. -/
theorem sameArithmetic {k : ℕ} (hk : k ≤ 149) :
    SameArithmetic ScaledPixels.exact.toAdd ScaledPixels.exact.toSub ScaledPixels.exact.toZero
      (SnappedBounds k) := by
  have hcorner : ∀ {b : Bounds ScaledPixels}, SnappedBounds k b →
      @Bounds.bottomRight ScaledPixels ScaledPixels.exact.toAdd b = b.bottomRight := fun hb =>
    congrArg₂ Point.mk (hb.corner.x.round hk).symm (hb.corner.y.round hk).symm
  have hunion : ∀ {a b : Bounds ScaledPixels}, SnappedBounds k a → SnappedBounds k b →
      @Bounds.union ScaledPixels ScaledPixels.exact.toAdd ScaledPixels.exact.toSub _ a b =
        a.union b ∧ SnappedBounds k (a.union b) := by
    intro a b ha hb
    have hmax := ha.corner.max hb.corner
    obtain ⟨heq, hfits⟩ := (ha.origin.min hb.origin).fromCorners hk hmax
    unfold Bounds.union
    rw [← hcorner ha, ← hcorner hb]
    exact ⟨heq, hfits⟩
  have hintersect : ∀ {a b : Bounds ScaledPixels}, SnappedBounds k a → SnappedBounds k b →
      @Bounds.intersect ScaledPixels ScaledPixels.exact.toAdd ScaledPixels.exact.toSub _ a b =
        a.intersect b ∧ SnappedBounds k (a.intersect b) := by
    intro a b ha hb
    have horigin := ha.origin.max hb.origin
    obtain ⟨heq, hfits⟩ := horigin.fromCorners hk ((ha.corner.min hb.corner).max horigin)
    unfold Bounds.intersect
    rw [← hcorner ha, ← hcorner hb]
    exact ⟨heq, hfits⟩
  refine ⟨hcorner, ?_, fun b => rfl, fun ha hb => (hunion ha hb).1,
    fun ha hb => (hintersect ha hb).1, fun ha hb => (hunion ha hb).2,
    fun ha hb => (hintersect ha hb).2⟩
  -- the sizes are the differences of the corners
  intro b hb
  have hsize : ∀ origin size : ScaledPixels,
      (ScaledPixels.toRat (@HAdd.hAdd ℚ ℚ ℚ _ origin size)) - origin.toRat = size.toRat :=
    fun origin size => add_sub_cancel_left (G := ℚ) origin size
  have hsum := hb.corner.x.round_add_sub hk hb.origin.x hb.corner.y hb.origin.y
  show b.size.width.toRat + b.size.height.toRat =
    binary32 (b.size.width.toRat + b.size.height.toRat)
  rw [← hsize b.origin.x b.size.width, ← hsize b.origin.y b.size.height]
  exact hsum.symm

/-- A whole number of pixels. -/
def px (n : ℕ) : ScaledPixels := (n : ℚ)

theorem corner_px {n : ℕ} (hn : n < 2 ^ 22) : Corner 0 (px n) := by
  refine ⟨⟨n, by simp [px, ScaledPixels.toRat]⟩, ?_⟩
  show |(n : ℚ)| * 2 ^ 0 < 2 ^ 22
  rw [abs_of_nonneg n.cast_nonneg, pow_zero, mul_one]
  exact_mod_cast hn

theorem snapped_square {corner side : ℕ} (h : corner + side < 2 ^ 22) :
    SnappedBounds 0 ⟨⟨px corner, px corner⟩, ⟨px side, px side⟩⟩ := by
  have hcorner : Corner 0 (px corner) := corner_px (by omega)
  have hsum : px (corner + side) = ScaledPixels.exact.toAdd.add (px corner) (px side) :=
    Nat.cast_add (R := ℚ) corner side
  have hfar : Corner 0 (ScaledPixels.exact.toAdd.add (px corner) (px side)) := hsum ▸ corner_px h
  exact ⟨⟨hcorner, hcorner⟩, ⟨hfar, hfar⟩⟩

end DrawOrder

end Zui
