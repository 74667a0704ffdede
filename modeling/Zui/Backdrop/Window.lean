/-
The scissor rectangles of a backdrop blur along an axis.

* `verticalRegion_spec`, `horizontalRegion_spec` — the output of a pass is inside its texture, and
  has the texels that the next one reads. -/
import Mathlib
import Zui.Backdrop.Basic

namespace Zui

open Gpui

namespace Backdrop

/-! ### Extents -/

theorem le_divCeil_mul (a : ℕ) {b : ℕ} (hb : 0 < b) : a ≤ divCeil a b * b := by
  have h := le_smul_ceilDiv (b := a) hb
  rwa [smul_eq_mul, Nat.ceilDiv_eq_add_pred_div, mul_comm] at h

/-! ### Scissor rectangles -/

theorem sub_ok {a b : ℕ} (h : b ≤ a) : sub a b = .ok (a - b) := if_pos h

theorem clamp_ok {x low high : ℤ} (h : low ≤ high) :
    clamp x low high = .ok (max low (min x high)) := if_pos h

section Regions

variable {K : Type} [Field K] [LinearOrder K] [FloorRing K]

/-- The output of the vertical pass is inside its texture, and has the texels of the visible bounds
with one more on each side. -/
theorem verticalRegion_spec (visible size : K) (source extent output : ℕ) :
    ∃ start length, verticalRegion visible size source extent output = .ok (start, length) ∧
      start + length ≤ output ∧
      ∀ i : ℤ, 0 ≤ i → i < output → ⌊(visible - source) * (output / extent : K)⌋ - 1 ≤ i →
        i < ⌈(visible + size - source) * (output / extent : K)⌉ + 1 →
          start ≤ i ∧ i < start + length := by
  set first : ℤ := ⌊(visible - source) * (output / extent : K)⌋ - 1 with hfirst
  set last : ℤ := ⌈(visible + size - source) * (output / extent : K)⌉ + 1 with hlast
  have hstart : (0 : ℤ) ≤ output := by positivity
  set start : ℤ := max 0 (min first output) with hstartdef
  have hle : start ≤ output := by omega
  set stop : ℤ := max start (min last output) with hstopdef
  have hsub : start.toNat ≤ stop.toNat := by omega
  refine ⟨start.toNat, stop.toNat - start.toNat, ?_, by omega, fun i hi hi' hfi hli => by omega⟩
  rw [verticalRegion, ← hfirst, ← hlast, clamp_ok hstart, ok_bind, ← hstartdef, clamp_ok hle,
    ok_bind, ← hstopdef,
    sub_ok hsub, ok_bind]

/-- The output of the horizontal pass is inside its texture, and has the texels that a pass over
the vertical output reads. -/
theorem horizontalRegion_spec (halo : ℕ) {start length output : ℕ}
    (hfits : start + length ≤ output) :
    ∃ start' length', horizontalRegion halo (start, length) output = .ok (start', length') ∧
      start' + length' ≤ output ∧
      ∀ i k : ℤ, start ≤ i → i < start + length → |k| ≤ halo →
        start' ≤ clampToEdge (i + k) output ∧ clampToEdge (i + k) output < start' + length' := by
  have hsub : start - halo ≤ min (start + length + halo) output := by omega
  refine ⟨start - halo, min (start + length + halo) output - (start - halo), ?_, by omega, ?_⟩
  · rw [horizontalRegion]
    dsimp only
    rw [sub_ok hsub, ok_bind]
  · intro i k hi hi' hk
    rw [abs_le] at hk
    rw [clampToEdge]
    omega

end Regions

end Backdrop

end Zui
