/-
Rounding to single precision.

A finite number of single precision is an integer of at most 24 bits times a power of two that is
not below `2 ^ (-149)`.  The result of an operation is the exact one, rounded to the nearest of
these numbers, with ties to the even integer.

Design notes:

* numbers are rationals, and there is one zero;
* overflow to infinity is left out: a number that is too large is rounded as if the exponent went
  on.

* `binary32_eq_self` — a multiple of `2 ^ (-k)` with fewer than 24 bits is not rounded;
* `binary32_le` — what is not above such a number is not rounded above it;
* `Multiple.add`, `Multiple.sub` — multiples of a power of two add up to multiples of it.
-/
import Mathlib

namespace Zui

/-- The nearest integer, with ties to the even one. -/
def halfEven (x : ℚ) : ℤ :=
  if x - ⌊x⌋ < 1 / 2 then ⌊x⌋
  else if 1 / 2 < x - ⌊x⌋ then ⌊x⌋ + 1
  else if ⌊x⌋ % 2 = 0 then ⌊x⌋ else ⌊x⌋ + 1

theorem halfEven_intCast (n : ℤ) : halfEven n = n := by
  rw [halfEven, Int.floor_intCast, sub_self, if_pos (by norm_num)]

/-- The exponent of the last bit of a number. -/
def lastBit (x : ℚ) : ℤ := max (Int.log 2 |x| - 23) (-149)

/-- The nearest number of single precision. -/
def binary32 (x : ℚ) : ℚ := halfEven (x / 2 ^ lastBit x) * 2 ^ lastBit x

/-- A multiple of `2 ^ (-k)`. -/
def Multiple (k : ℕ) (x : ℚ) : Prop := ∃ n : ℤ, x * 2 ^ k = n

namespace Multiple

variable {k : ℕ} {x y : ℚ}

theorem zero : Multiple k 0 := ⟨0, by simp⟩

theorem add (hx : Multiple k x) (hy : Multiple k y) : Multiple k (x + y) := by
  obtain ⟨m, hm⟩ := hx
  obtain ⟨n, hn⟩ := hy
  exact ⟨m + n, by rw [add_mul, hm, hn, Int.cast_add]⟩

theorem sub (hx : Multiple k x) (hy : Multiple k y) : Multiple k (x - y) := by
  obtain ⟨m, hm⟩ := hx
  obtain ⟨n, hn⟩ := hy
  exact ⟨m - n, by rw [sub_mul, hm, hn, Int.cast_sub]⟩

theorem neg (hx : Multiple k x) : Multiple k (-x) := zero_sub x ▸ zero.sub hx

theorem max (hx : Multiple k x) (hy : Multiple k y) : Multiple k (max x y) := by
  rcases max_choice x y with h | h <;> rw [h] <;> assumption

theorem min (hx : Multiple k x) (hy : Multiple k y) : Multiple k (min x y) := by
  rcases min_choice x y with h | h <;> rw [h] <;> assumption

end Multiple

theorem Multiple.exists_mul {k : ℕ} {x : ℚ} (hx : Multiple k x) {e : ℤ} (he : e ≤ -k) :
    ∃ m : ℤ, x = m * 2 ^ e := by
  obtain ⟨n, hn⟩ := hx
  obtain ⟨j, hj⟩ : ∃ j : ℕ, -(k : ℤ) = e + j := ⟨(-(k : ℤ) - e).toNat, by omega⟩
  have hx' : x = n * 2 ^ (e + j) := by
    rw [← hj, ← hn, zpow_neg, zpow_natCast, mul_assoc, mul_inv_cancel₀ (by positivity), mul_one]
  refine ⟨n * 2 ^ j, ?_⟩
  rw [hx', Int.cast_mul, Int.cast_pow, Int.cast_ofNat, mul_assoc, ← zpow_natCast,
    ← zpow_add₀ (by norm_num), add_comm (j : ℤ)]

theorem lastBit_le {k : ℕ} (hk : k ≤ 149) {x : ℚ} (hne : x ≠ 0) (hsmall : |x| * 2 ^ k < 2 ^ 24) :
    lastBit x ≤ -k := by
  have hpos : 0 < |x| := abs_pos.mpr hne
  have hlog : Int.log 2 |x| < 24 - k := by
    refine (Int.lt_zpow_iff_log_lt (b := 2) (by norm_num) hpos).mp ?_
    rw [zpow_sub₀ (by norm_num), zpow_natCast, lt_div_iff₀ (by positivity)]
    exact_mod_cast hsmall
  exact max_le (by omega) (by omega)

/-- A multiple of `2 ^ (-k)` with fewer than 24 bits is a number of single precision. -/
theorem binary32_eq_self {k : ℕ} (hk : k ≤ 149) {x : ℚ} (hx : Multiple k x)
    (hsmall : |x| * 2 ^ k < 2 ^ 24) : binary32 x = x := by
  rcases eq_or_ne x 0 with rfl | hne
  · simp [binary32, halfEven]
  obtain ⟨m, hm⟩ := hx.exists_mul (lastBit_le hk hne hsmall)
  have hquotient : x / 2 ^ lastBit x = m := by rw [div_eq_iff (by positivity), ← hm]
  rw [binary32, hquotient, halfEven_intCast, ← hm]

theorem halfEven_le_ceil (x : ℚ) : halfEven x ≤ ⌈x⌉ := by
  rcases (Int.floor_le x).eq_or_lt with hint | hbelow
  · rw [← hint, halfEven_intCast, Int.ceil_intCast]
  · have hnext : ⌊x⌋ + 1 ≤ ⌈x⌉ := Int.lt_ceil.mpr hbelow
    rw [halfEven]
    split_ifs <;> omega

/-- Rounding does not pass a number of single precision. -/
theorem binary32_le {k : ℕ} (hk : k ≤ 149) {x y : ℚ} (hy : Multiple k y) (hnonneg : 0 ≤ y)
    (hsmall : y * 2 ^ k < 2 ^ 24) (hle : x ≤ y) : binary32 x ≤ y := by
  have hround : ∀ m : ℤ, x ≤ m * 2 ^ lastBit x → binary32 x ≤ m * 2 ^ lastBit x := by
    intro m hm
    have hceil : ⌈x / 2 ^ lastBit x⌉ ≤ m := Int.ceil_le.mpr ((div_le_iff₀ (by positivity)).mpr hm)
    exact mul_le_mul_of_nonneg_right (Int.cast_le.mpr ((halfEven_le_ceil _).trans hceil))
      (by positivity)
  rcases le_or_gt x 0 with hx | hx
  · have hzero := hround 0 (by rwa [Int.cast_zero, zero_mul])
    rw [Int.cast_zero, zero_mul] at hzero
    exact hzero.trans hnonneg
  · -- the larger number has no bits below the last one of the smaller
    have hbit : lastBit x ≤ lastBit y := by
      rw [lastBit, lastBit, abs_of_pos hx, abs_of_nonneg hnonneg]
      exact max_le_max_right _ (sub_le_sub_right (Int.log_mono_right hx hle) _)
    have hlast := lastBit_le hk (hx.trans_le hle).ne' (by rwa [abs_of_nonneg hnonneg])
    obtain ⟨m, hm⟩ := hy.exists_mul (hbit.trans hlast)
    rw [hm] at hle ⊢
    exact hround m hle

end Zui
