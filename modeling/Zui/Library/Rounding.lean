/-
Rounding to a nearest multiple, with ties toward zero.

The absolute value is rounded up from half below it, and gets the sign back: a number half way
between two integers goes to the one nearer to zero.

* `NearestMultiple` — what it is to round to a multiple of a step;
* `NearestMultiple.unique` — there is one result only;
* `halfTowardZero_eq_iff_of_nonneg`, `halfTowardZero_eq_iff_of_neg` — the numbers that an integer
  is the result of;
* `nearestMultiple_halfTowardZero` — rounding the quotient rounds to a multiple;
* `saturatingCast` — a cast that rounds down.
-/
import Mathlib

namespace Zui

variable {K : Type*} [Field K] [LinearOrder K] [IsStrictOrderedRing K]

/-- The multiple of `d` that is nearest to `x`, and of two that are the one nearer to zero. -/
structure NearestMultiple (d x y : K) : Prop where
  multiple : ∃ k : ℤ, y = k * d
  nearest : ∀ k : ℤ, |x - y| ≤ |x - k * d|
  towardZero : ∀ k : ℤ, |x - k * d| = |x - y| → |y| ≤ |k * d|

theorem NearestMultiple.unique {d x y z : K} (hy : NearestMultiple d x y)
    (hz : NearestMultiple d x z) : y = z := by
  obtain ⟨j, hj⟩ := hy.multiple
  obtain ⟨k, hk⟩ := hz.multiple
  have hyz : |x - y| ≤ |x - z| := hk ▸ hy.nearest k
  have hzy : |x - z| ≤ |x - y| := hj ▸ hz.nearest j
  have hdist : |x - y| = |x - z| := le_antisymm hyz hzy
  have habs : |y| = |z| := by
    refine le_antisymm ?_ ?_
    · rw [hk]
      exact hy.towardZero k (by rw [← hk, hdist])
    · rw [hj]
      exact hz.towardZero j (by rw [← hj, hdist])
  rcases abs_eq_abs.mp habs with heq | heq
  · exact heq
  -- The two are on both sides of zero: `x` is as far from both, so it is zero itself.
  rw [heq, sub_neg_eq_add] at hdist
  have hzero : |y| ≤ |(0 : ℤ) * d| ∨ z = 0 := by
    rcases abs_eq_abs.mp hdist with h | h
    · exact .inr (by linarith)
    · refine .inl (hy.towardZero 0 ?_)
      have hx : x = 0 := by linarith
      have hnear := hy.nearest 0
      rw [hx] at hnear ⊢
      simp only [Int.cast_zero, zero_mul, sub_zero, abs_zero, zero_sub, abs_neg] at hnear ⊢
      exact (abs_nonneg y).antisymm hnear
  rcases hzero with h | h
  · simp only [Int.cast_zero, zero_mul, abs_zero, abs_nonpos_iff] at h
    rw [h] at heq ⊢
    linarith
  · rw [heq, h, neg_zero]

variable (K) in
theorem le_of_cast_lt_add_one {j k : ℤ} (h : (j : K) < k + 1) : j ≤ k :=
  Int.lt_add_one_iff.mp (by exact_mod_cast h)

variable [FloorRing K]

/-- The literal of the halves, as an instance that is a constant. -/
local instance atLeastTwo : Nat.AtLeastTwo 2 := ⟨le_rfl⟩

/-- The nearest integer, with ties toward zero. -/
def halfTowardZero (x : K) : ℤ := if x < 0 then -⌈|x| - 1 / 2⌉ else ⌈|x| - 1 / 2⌉

theorem halfTowardZero_eq_iff_of_nonneg {x : K} (hx : 0 ≤ x) {k : ℤ} :
    halfTowardZero x = k ↔ k - 1 / 2 < x ∧ x ≤ k + 1 / 2 := by
  rw [halfTowardZero, if_neg (not_lt.mpr hx), abs_of_nonneg hx, Int.ceil_eq_iff]
  constructor
  · rintro ⟨h, h'⟩
    constructor <;> linarith
  · rintro ⟨h, h'⟩
    constructor <;> linarith

theorem halfTowardZero_eq_iff_of_neg {x : K} (hx : x < 0) {k : ℤ} :
    halfTowardZero x = k ↔ k - 1 / 2 ≤ x ∧ x < k + 1 / 2 := by
  rw [halfTowardZero, if_pos hx, abs_of_neg hx, neg_eq_iff_eq_neg, Int.ceil_eq_iff, Int.cast_neg]
  constructor
  · rintro ⟨h, h'⟩
    constructor <;> linarith
  · rintro ⟨h, h'⟩
    constructor <;> linarith

theorem halfTowardZero_spec (x : K) :
    (0 ≤ x ∧ (halfTowardZero x : K) - 1 / 2 < x ∧ x ≤ halfTowardZero x + 1 / 2) ∨
      (x < 0 ∧ (halfTowardZero x : K) - 1 / 2 ≤ x ∧ x < halfTowardZero x + 1 / 2) := by
  rcases le_or_gt 0 x with hx | hx
  · exact .inl ⟨hx, (halfTowardZero_eq_iff_of_nonneg hx).mp rfl⟩
  · exact .inr ⟨hx, (halfTowardZero_eq_iff_of_neg hx).mp rfl⟩

theorem abs_sub_halfTowardZero_le (x : K) : |x - halfTowardZero x| ≤ 1 / 2 := by
  rw [abs_le]
  rcases halfTowardZero_spec x with ⟨-, h, h'⟩ | ⟨-, h, h'⟩
  · constructor <;> linarith
  · constructor <;> linarith

/-- An integer that is as near as the result lies on the far side of the number. -/
theorem abs_halfTowardZero_le {x : K} {k : ℤ} (h : |x - k| = |x - halfTowardZero x|) :
    |halfTowardZero x| ≤ |k| := by
  set n := halfTowardZero x with hn
  have hbound := abs_sub_halfTowardZero_le x
  rw [← hn, ← h, abs_le] at hbound
  obtain ⟨hlow, hhigh⟩ := hbound
  have hspec := halfTowardZero_spec x
  rw [← hn] at hspec
  rcases abs_eq_abs.mp h with heq | heq
  · have hkn : (k : K) = n := by linarith
    rw [Int.cast_injective hkn]
  rcases hspec with ⟨hx, h₁, h₂⟩ | ⟨hx, h₁, h₂⟩
  · -- The integers are half a step off the number, and the result is the lower one.
    have hnk : n ≤ k := le_of_cast_lt_add_one K (by linarith)
    have h0 : 0 ≤ n := le_of_cast_lt_add_one K (by push_cast; linarith)
    rw [abs_of_nonneg h0, abs_of_nonneg (h0.trans hnk)]
    exact hnk
  · have hkn : k ≤ n := le_of_cast_lt_add_one K (by linarith)
    have h0 : n ≤ 0 := le_of_cast_lt_add_one K (by push_cast; linarith)
    rw [abs_of_nonpos h0, abs_of_nonpos (hkn.trans h0)]
    omega

theorem abs_sub_halfTowardZero_le_abs_sub (x : K) (k : ℤ) :
    |x - halfTowardZero x| ≤ |x - k| := by
  have hbound := abs_sub_halfTowardZero_le x
  by_cases heq : halfTowardZero x = k
  · rw [heq]
  -- Another integer is one or more away, so one half at least from the number.
  have hone : (1 : K) ≤ |(halfTowardZero x : K) - k| := by
    have : (1 : ℤ) ≤ |halfTowardZero x - k| := Int.one_le_abs (sub_ne_zero.mpr heq)
    calc (1 : K) = ((1 : ℤ) : K) := Int.cast_one.symm
      _ ≤ ((|halfTowardZero x - k| : ℤ) : K) := Int.cast_le.mpr this
      _ = |(halfTowardZero x : K) - k| := by push_cast; rfl
  have htriangle := abs_sub_le (halfTowardZero x : K) x k
  rw [abs_sub_comm (halfTowardZero x : K) x] at htriangle
  linarith

/-- Rounding the quotient by the step rounds to a multiple of the step. -/
theorem nearestMultiple_halfTowardZero {d : K} (hd : 0 < d) (x : K) :
    NearestMultiple d x (halfTowardZero (x / d) * d) := by
  have hscale (k : ℤ) : |x - k * d| = |x / d - k| * d := by
    rw [← abs_of_pos hd, ← abs_mul, abs_of_pos hd, sub_mul, div_mul_cancel₀ x hd.ne']
  refine ⟨⟨_, rfl⟩, fun k => ?_, fun k hk => ?_⟩
  · rw [hscale, hscale]
    exact mul_le_mul_of_nonneg_right (abs_sub_halfTowardZero_le_abs_sub _ k) hd.le
  · rw [hscale, hscale] at hk
    have hle := abs_halfTowardZero_le (mul_right_cancel₀ hd.ne' hk)
    rw [abs_mul, abs_mul]
    refine mul_le_mul_of_nonneg_right ?_ (abs_nonneg d)
    exact_mod_cast hle

theorem halfTowardZero_nonneg_iff {x : K} : 0 ≤ halfTowardZero x ↔ -(1 / 2) ≤ x := by
  rcases halfTowardZero_spec x with ⟨hx, h, h'⟩ | ⟨hx, h, h'⟩
  · exact iff_of_true (le_of_cast_lt_add_one K (by push_cast; linarith)) (by linarith)
  · refine ⟨fun hn => ?_, fun hx' => le_of_cast_lt_add_one K (by push_cast; linarith)⟩
    have hcast : (0 : K) ≤ halfTowardZero x := by exact_mod_cast hn
    linarith

/-! ### Casts -/

/-- A cast to the whole numbers up to `high`, which saturates at both ends. -/
def saturatingCast (high : ℕ) (x : K) : ℕ := min ⌊x⌋.toNat high

omit [IsStrictOrderedRing K] in
theorem saturatingCast_of_lt {high : ℕ} {x : K} (h : x < high + 1) :
    saturatingCast high x = ⌊x⌋.toNat := by
  have hfloor : ⌊x⌋ < high + 1 := Int.floor_lt.mpr (by exact_mod_cast h)
  rw [saturatingCast]
  omega

end Zui
