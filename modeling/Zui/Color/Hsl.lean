/-
Colors by red, green and blue, and by hue, saturation and lightness.

The conversions divide by the difference of the greatest and the least channel, and by what the
lightness leaves room for: a division by zero is `none` here.  Back again the hue, times six, is a
place on a closed path of six sides; on each side one channel is the greatest, one the least and one
moves between the two.

* `channels_side` — the channels on a side of the path, both of its ends included;
* `chroma_eq` — the difference of the channels is what lightness and saturation encode;
* `hue_spec` — the hue is on the side where the channels are the ones of the color;
* `fromHsla_fromRgba` — the two conversions, one after the other, change nothing.
-/
import Zui.Paint.Calls

namespace Zui.Color

open Gpui (Hsla truncate)
open Gpui.Ambient (clampUnit)

/-- `Rgba`. -/
structure Rgba where
  r : ℚ
  g : ℚ
  b : ℚ
  a : ℚ
  deriving DecidableEq

/-! ### Numbers -/

/-- The operator `%`. -/
def rem (x y : ℚ) : ℚ := x - y * truncate (x / y)

/-- `rem_euclid`. -/
def remEuclid (x y : ℚ) : ℚ := if rem x y < 0 then rem x y + |y| else rem x y

/-- `as i32` of a whole number. -/
def asI32 (n : ℤ) : ℤ := max (-2 ^ 31) (min n (2 ^ 31 - 1))

/-- A quotient, if the divisor is not zero. -/
def divide (x y : ℚ) : Option ℚ := if y = 0 then none else some (x / y)

/-! ### The conversions -/

/-- The channels of a color, in front of the clamps. -/
def channels (color : Hsla) : ℚ × ℚ × ℚ :=
  let c := (1 - |2 * color.l - 1|) * color.s
  let x := c * (1 - |rem (color.h * 6) 2 - 1|)
  let m := color.l - c / 2
  let cm := c + m
  let xm := x + m
  match asI32 ⌊color.h * 6⌋ with
  | 0 | 6 => (cm, xm, m)
  | 1 => (xm, cm, m)
  | 2 => (m, cm, xm)
  | 3 => (m, xm, cm)
  | 4 => (xm, m, cm)
  | _ => (cm, m, xm)

/-- `From<Hsla> for Rgba`. -/
def fromHsla (color : Hsla) : Rgba :=
  let (r, g, b) := channels color
  { r := clampUnit r
    g := clampUnit g
    b := clampUnit b
    a := color.a }

/-- `s` of a color. -/
def saturation (l delta : ℚ) : Option ℚ :=
  if l = 0 ∨ l = 1 then some 0
  else if l < 1 / 2 then divide delta (2 * l)
  else divide delta (2 - 2 * l)

/-- `h` of a color. -/
def hue (color : Rgba) (max delta : ℚ) : Option ℚ :=
  if delta = 0 then some 0
  else if max = color.r then do
    let side ← divide (color.g - color.b) delta
    return remEuclid side 6 / 6
  else if max = color.g then do
    let side ← divide (color.b - color.r) delta
    return (side + 2) / 6
  else do
    let side ← divide (color.r - color.g) delta
    return (side + 4) / 6

/-- `From<Rgba> for Hsla`; a division by zero is `none`. -/
def fromRgba (color : Rgba) : Option Hsla := do
  let max := max color.r (max color.g color.b)
  let min := min color.r (min color.g color.b)
  let delta := max - min
  let l := (max + min) / 2
  let s ← saturation l delta
  let h ← hue color max delta
  return { h, s, l, a := color.a }

/-! ### The path of the hues -/

theorem divide_of_ne {x y : ℚ} (h : y ≠ 0) : divide x y = some (x / y) := if_neg h

theorem rem_two {x : ℚ} {k : ℕ} (hlow : 2 * k ≤ x) (hhigh : x < 2 * k + 2) :
    rem x 2 = x - 2 * k := by
  have hnonneg : 0 ≤ x / 2 := by
    have : (0 : ℚ) ≤ k := k.cast_nonneg
    linarith
  have hfloor : ⌊x / 2⌋ = (k : ℤ) := by
    rw [Int.floor_eq_iff]
    push_cast
    constructor <;> linarith
  rw [rem, truncate, if_neg (not_lt.mpr hnonneg), hfloor]
  push_cast
  ring

/-- The channels on a side of the path, with the difference `c` of the greatest and the least
channel, and the least channel `m`. -/
def sideChannels (side : Fin 6) (c m x : ℚ) : ℚ × ℚ × ℚ :=
  match side with
  | 0 => (c + m, c * x + m, m)
  | 1 => (c * (2 - x) + m, c + m, m)
  | 2 => (m, c + m, c * (x - 2) + m)
  | 3 => (m, c * (4 - x) + m, c + m)
  | 4 => (c * (x - 4) + m, m, c + m)
  | 5 => (c + m, m, c * (6 - x) + m)

/-- The channels inside a side, with its first end. -/
theorem channels_of_lt (color : Hsla) {c m x : ℚ} (hc : (1 - |2 * color.l - 1|) * color.s = c)
    (hm : color.l - c / 2 = m) (hx : color.h * 6 = x) (side : Fin 6) (hlow : (side : ℕ) ≤ x)
    (hhigh : x < (side : ℕ) + 1) : channels color = sideChannels side c m x := by
  have hfloor : ⌊x⌋ = ((side : ℕ) : ℤ) := by
    rw [Int.floor_eq_iff]
    push_cast
    exact ⟨hlow, hhigh⟩
  have hasI32 : asI32 ((side : ℕ) : ℤ) = ((side : ℕ) : ℤ) := by
    have := side.isLt
    rw [asI32]
    omega
  simp only [channels, hc, hm, hx, hfloor, hasI32]
  -- The middle channel rises on the even sides and falls on the odd ones.
  have hrise (k : ℕ) (hk : 2 * k ≤ x) (hk' : x < 2 * k + 1) : 1 - |rem x 2 - 1| = x - 2 * k := by
    rw [rem_two hk (by linarith), abs_of_nonpos (by linarith)]
    ring
  have hfall (k : ℕ) (hk : 2 * k + 1 ≤ x) (hk' : x < 2 * k + 2) :
      1 - |rem x 2 - 1| = 2 * k + 2 - x := by
    rw [rem_two (by linarith) hk', abs_of_nonneg (by linarith)]
    ring
  fin_cases side <;> simp only [sideChannels] at hlow hhigh ⊢ <;> push_cast at hlow hhigh ⊢
  · rw [hrise 0 (by push_cast; linarith) (by push_cast; linarith)]
    push_cast
    simp
  · rw [hfall 0 (by push_cast; linarith) (by push_cast; linarith)]
    push_cast
    simp
  · rw [hrise 1 (by push_cast; linarith) (by push_cast; linarith)]
    push_cast
    simp
  · rw [hfall 1 (by push_cast; linarith) (by push_cast; linarith)]
    push_cast
    norm_num
  · rw [hrise 2 (by push_cast; linarith) (by push_cast; linarith)]
    push_cast
    norm_num
  · rw [hfall 2 (by push_cast; linarith) (by push_cast; linarith)]
    push_cast
    norm_num

/-- The channels on a side, with both of its ends: two sides that meet agree where they do. -/
theorem channels_side (color : Hsla) {c m x : ℚ} (hc : (1 - |2 * color.l - 1|) * color.s = c)
    (hm : color.l - c / 2 = m) (hx : color.h * 6 = x) (side : Fin 6) (hlow : (side : ℕ) ≤ x)
    (hhigh : x ≤ (side : ℕ) + 1) (hend : x < 6) : channels color = sideChannels side c m x := by
  rcases hhigh.lt_or_eq with hlt | heq
  · exact channels_of_lt color hc hm hx side hlow hlt
  have hnext (next : Fin 6) (hnext : (next : ℕ) = (side : ℕ) + 1) :
      channels color = sideChannels next c m x := by
    have hcast : ((next : ℕ) : ℚ) = x := by
      rw [hnext, heq]
      push_cast
      rfl
    exact channels_of_lt color hc hm hx next hcast.le (by linarith)
  fin_cases side <;> simp only [sideChannels] at heq hnext ⊢ <;> push_cast at heq hnext
  · rw [hnext 1 rfl, heq]
    norm_num [sideChannels]
  · rw [hnext 2 rfl, heq]
    norm_num [sideChannels]
  · rw [hnext 3 rfl, heq]
    norm_num [sideChannels]
  · rw [hnext 4 rfl, heq]
    norm_num [sideChannels]
  · rw [hnext 5 rfl, heq]
    norm_num [sideChannels]
  · linarith

/-! ### The color of some channels -/

/-- The greatest and the least channel of a color. -/
structure Extremes (color : Rgba) (high low : ℚ) : Prop where
  high_eq : max color.r (max color.g color.b) = high
  low_eq : min color.r (min color.g color.b) = low

namespace Extremes

variable {color : Rgba} {high low : ℚ}

theorem le_high (h : Extremes color high low) :
    color.r ≤ high ∧ color.g ≤ high ∧ color.b ≤ high := by
  rw [← h.high_eq]
  exact ⟨le_max_left _ _, (le_max_left _ _).trans (le_max_right _ _),
    (le_max_right _ _).trans (le_max_right _ _)⟩

theorem low_le (h : Extremes color high low) : low ≤ color.r ∧ low ≤ color.g ∧ low ≤ color.b := by
  rw [← h.low_eq]
  exact ⟨min_le_left _ _, (min_le_right _ _).trans (min_le_left _ _),
    (min_le_right _ _).trans (min_le_right _ _)⟩

theorem high_mem (h : Extremes color high low) :
    high = color.r ∨ high = color.g ∨ high = color.b := by
  rw [← h.high_eq]
  rcases max_choice color.r (max color.g color.b) with heq | heq
  · exact .inl heq
  · rw [heq]
    exact .inr (max_choice color.g color.b)

theorem low_mem (h : Extremes color high low) : low = color.r ∨ low = color.g ∨ low = color.b := by
  rw [← h.low_eq]
  rcases min_choice color.r (min color.g color.b) with heq | heq
  · exact .inl heq
  · rw [heq]
    exact .inr (min_choice color.g color.b)

end Extremes

theorem remEuclid_of_nonneg {x : ℚ} (h : 0 ≤ x) (h' : x < 6) : remEuclid x 6 = x := by
  have hnonneg : 0 ≤ x / 6 := by linarith
  have hfloor : ⌊x / 6⌋ = 0 := by
    rw [Int.floor_eq_iff]
    constructor <;> push_cast <;> linarith
  have hrem : rem x 6 = x := by
    rw [rem, truncate, if_neg (not_lt.mpr hnonneg), hfloor]
    norm_num
  rw [remEuclid, hrem, if_neg (not_lt.mpr h)]

theorem remEuclid_of_neg {x : ℚ} (h : x < 0) (h' : -6 < x) : remEuclid x 6 = x + 6 := by
  have hneg : x / 6 < 0 := by linarith
  have hceil : ⌈x / 6⌉ = 0 := by
    rw [Int.ceil_eq_iff]
    constructor <;> push_cast <;> linarith
  have hrem : rem x 6 = x := by
    rw [rem, truncate, if_pos hneg, hceil]
    norm_num
  rw [remEuclid, hrem, if_pos h, abs_of_nonneg (by norm_num)]

theorem between_spec {high low x : ℚ} (hlt : low < high) (hlow : low ≤ x) (hhigh : x ≤ high) :
    0 ≤ (x - low) / (high - low) ∧ (x - low) / (high - low) ≤ 1 ∧
      (high - low) * ((x - low) / (high - low)) = x - low := by
  have hpos : 0 < high - low := sub_pos.mpr hlt
  exact ⟨div_nonneg (by linarith) hpos.le, (div_le_one hpos).mpr (by linarith),
    mul_div_cancel₀ _ hpos.ne'⟩

/-- A place of the path that has the channels of the color. -/
def OnPath (color : Rgba) (high low x : ℚ) : Prop :=
  0 ≤ x ∧ x < 6 ∧ ∃ side : Fin 6, (side : ℕ) ≤ x ∧ x ≤ (side : ℕ) + 1 ∧
    sideChannels side (high - low) low x = (color.r, color.g, color.b)

variable {color : Rgba} {high low : ℚ}

theorem onPath_of {x : ℚ} (side : Fin 6) (n : ℚ) (hn : ((side : ℕ) : ℚ) = n)
    (h0 : 0 ≤ x) (h6 : x < 6)
    (hlow : n ≤ x) (hhigh : x ≤ n + 1)
    (h : sideChannels side (high - low) low x = (color.r, color.g, color.b)) :
    OnPath color high low x :=
  ⟨h0, h6, side, hn ▸ hlow, hn ▸ hhigh, h⟩

theorem neg_between (x : ℚ) : (low - x) / (high - low) = -((x - low) / (high - low)) := by
  rw [← neg_div, neg_sub]

theorem onPath_red (h : Extremes color high low) (hlt : low < high) (hred : high = color.r) :
    OnPath color high low (remEuclid ((color.g - color.b) / (high - low)) 6) := by
  obtain ⟨-, hg, hb⟩ := h.le_high
  obtain ⟨-, hg', hb'⟩ := h.low_le
  rcases le_or_gt color.b color.g with hgb | hgb
  · have hlow : low = color.b := by rcases h.low_mem with h | h | h <;> linarith
    subst hlow
    obtain ⟨h0, h1, hmul⟩ := between_spec hlt hg' hg
    rw [remEuclid_of_nonneg h0 (by linarith)]
    refine onPath_of 0 0 rfl h0 (by linarith) h0 (by linarith) ?_
    rw [sideChannels, hmul, sub_add_cancel, sub_add_cancel, ← hred]
  · have hlow : low = color.g := by rcases h.low_mem with h | h | h <;> linarith
    subst hlow
    obtain ⟨-, h1, hmul⟩ := between_spec hlt hb' hb
    have h0 : 0 < (color.b - color.g) / (high - color.g) :=
      div_pos (sub_pos.mpr hgb) (sub_pos.mpr hlt)
    rw [neg_between, remEuclid_of_neg (by linarith) (by linarith)]
    refine onPath_of 5 5 rfl (by linarith) (by linarith) (by linarith) (by linarith) ?_
    rw [sideChannels, sub_add_cancel_right, neg_neg, hmul, sub_add_cancel, sub_add_cancel, ← hred]

theorem onPath_green (h : Extremes color high low) (hlt : low < high) (hred : color.r < high)
    (hgreen : high = color.g) :
    OnPath color high low ((color.b - color.r) / (high - low) + 2) := by
  obtain ⟨hr, -, hb⟩ := h.le_high
  obtain ⟨hr', -, hb'⟩ := h.low_le
  rcases le_or_gt color.r color.b with hrb | hrb
  · have hlow : low = color.r := by rcases h.low_mem with h | h | h <;> linarith
    subst hlow
    obtain ⟨h0, h1, hmul⟩ := between_spec hlt hb' hb
    refine onPath_of 2 2 rfl (by linarith) (by linarith) (by linarith) (by linarith) ?_
    rw [sideChannels, add_sub_cancel_right, hmul, sub_add_cancel, sub_add_cancel, ← hgreen]
  · have hlow : low = color.b := by rcases h.low_mem with h | h | h <;> linarith
    subst hlow
    obtain ⟨h0, h1, hmul⟩ := between_spec hlt hr' hr
    rw [neg_between]
    refine onPath_of 1 1 rfl (by linarith) (by linarith) (by linarith) (by linarith) ?_
    rw [sideChannels, sub_add_cancel_right, neg_neg, hmul, sub_add_cancel, sub_add_cancel, ← hgreen]

theorem onPath_blue (h : Extremes color high low) (hlt : low < high) (hgreen : color.g < high)
    (hblue : high = color.b) :
    OnPath color high low ((color.r - color.g) / (high - low) + 4) := by
  obtain ⟨hr, hg, -⟩ := h.le_high
  obtain ⟨hr', hg', -⟩ := h.low_le
  rcases le_or_gt color.g color.r with hgr | hgr
  · have hlow : low = color.g := by rcases h.low_mem with h | h | h <;> linarith
    subst hlow
    obtain ⟨h0, h1, hmul⟩ := between_spec hlt hr' hr
    refine onPath_of 4 4 rfl (by linarith) (by linarith) (by linarith) (by linarith) ?_
    rw [sideChannels, add_sub_cancel_right, hmul, sub_add_cancel, sub_add_cancel, ← hblue]
  · have hlow : low = color.r := by rcases h.low_mem with h | h | h <;> linarith
    subst hlow
    obtain ⟨h0, h1, hmul⟩ := between_spec hlt hg' hg
    rw [neg_between]
    refine onPath_of 3 3 rfl (by linarith) (by linarith) (by linarith) (by linarith) ?_
    rw [sideChannels, sub_add_cancel_right, neg_neg, hmul, sub_add_cancel, sub_add_cancel, ← hblue]

/-- The hue of a color that is not gray is a place with its channels. -/
theorem hue_spec (h : Extremes color high low) (hlt : low < high) :
    ∃ x, hue color high (high - low) = some (x / 6) ∧ OnPath color high low x := by
  have hpos : 0 < high - low := sub_pos.mpr hlt
  have hdivide (x : ℚ) : divide x (high - low) = some (x / (high - low)) := divide_of_ne hpos.ne'
  obtain ⟨hr, hg, -⟩ := h.le_high
  rw [hue, if_neg hpos.ne', hdivide, hdivide, hdivide]
  by_cases hred : high = color.r
  · rw [if_pos hred]
    exact ⟨_, rfl, onPath_red h hlt hred⟩
  have hred' : color.r < high := lt_of_le_of_ne hr (Ne.symm hred)
  rw [if_neg hred]
  by_cases hgreen : high = color.g
  · rw [if_pos hgreen]
    exact ⟨_, rfl, onPath_green h hlt hred' hgreen⟩
  have hblue : high = color.b := (h.high_mem.resolve_left hred).resolve_left hgreen
  rw [if_neg hgreen]
  exact ⟨_, rfl, onPath_blue h hlt (lt_of_le_of_ne hg (Ne.symm hgreen)) hblue⟩

/-- The difference of the channels is what saturation and lightness encode. -/
theorem chroma_eq (hlow : 0 ≤ low) (hle : low ≤ high) (hhigh : high ≤ 1) :
    ∃ s, saturation ((high + low) / 2) (high - low) = some s ∧ 0 ≤ s ∧ s ≤ 1 ∧
      (1 - |2 * ((high + low) / 2) - 1|) * s = high - low := by
  rw [mul_div_cancel₀ (high + low) two_ne_zero, saturation]
  have hnonneg : 0 ≤ high - low := sub_nonneg.mpr hle
  by_cases hgray : (high + low) / 2 = 0 ∨ (high + low) / 2 = 1
  · -- Black and white: the channels are all zero, or all one.
    refine ⟨0, if_pos hgray, le_rfl, zero_le_one, ?_⟩
    rcases hgray with h | h <;> linarith
  obtain ⟨hblack, hwhite⟩ := not_or.mp hgray
  rw [if_neg hgray]
  by_cases hdark : (high + low) / 2 < 1 / 2
  · have hpos : 0 < high + low :=
      lt_of_le_of_ne (by linarith) fun h => hblack (by rw [← h, zero_div])
    rw [if_pos hdark, mul_div_cancel₀ (high + low) two_ne_zero, divide_of_ne hpos.ne']
    refine ⟨_, rfl, div_nonneg hnonneg hpos.le, (div_le_one hpos).mpr (by linarith), ?_⟩
    rw [abs_of_neg (by linarith), sub_neg_eq_add, add_sub_cancel, mul_div_cancel₀ _ hpos.ne']
  · have hpos : 0 < 2 - (high + low) :=
      lt_of_le_of_ne (by linarith) fun h => hwhite (by linarith)
    rw [if_neg hdark, mul_div_cancel₀ (high + low) two_ne_zero, divide_of_ne hpos.ne']
    refine ⟨_, rfl, div_nonneg hnonneg hpos.le, (div_le_one hpos).mpr (by linarith), ?_⟩
    have hroom : 1 - (high + low - 1) = 2 - (high + low) := by ring
    rw [abs_of_nonneg (by linarith), hroom, mul_div_cancel₀ _ hpos.ne']

/-! ### There and back -/

theorem channels_gray {h l a : ℚ} (hh : h = 0) (s : ℚ) (hs : (1 - |2 * l - 1|) * s = 0) :
    channels ⟨h, s, l, a⟩ = (l, l, l) := by
  have hm : l - 0 / 2 = l := by rw [zero_div, sub_zero]
  have hx : h * 6 = 0 := by rw [hh, zero_mul]
  have hside := channels_of_lt ⟨h, s, l, a⟩ hs hm hx 0 (by simp) (by simp)
  rw [hside, sideChannels]
  simp

/-- What `From<Rgba> for Hsla` makes of a color has the channels of the color. -/
theorem fromRgba_spec (hr : color.r ∈ Set.Icc 0 1) (hg : color.g ∈ Set.Icc 0 1)
    (hb : color.b ∈ Set.Icc 0 1) :
    ∃ hsla : Hsla, fromRgba color = some hsla ∧ (0 ≤ hsla.h ∧ hsla.h < 1) ∧
      hsla.s ∈ Set.Icc 0 1 ∧ hsla.l ∈ Set.Icc 0 1 ∧ hsla.a = color.a ∧
      channels hsla = (color.r, color.g, color.b) := by
  obtain ⟨high, hhigh⟩ : ∃ high, max color.r (max color.g color.b) = high := ⟨_, rfl⟩
  obtain ⟨low, hlow⟩ : ∃ low, min color.r (min color.g color.b) = low := ⟨_, rfl⟩
  have h : Extremes color high low := ⟨hhigh, hlow⟩
  have hle : low ≤ high := h.low_le.1.trans h.le_high.1
  have hhigh' : high ≤ 1 := by
    rw [← hhigh]
    exact max_le hr.2 (max_le hg.2 hb.2)
  have hlow' : 0 ≤ low := by
    rw [← hlow]
    exact le_min hr.1 (le_min hg.1 hb.1)
  have hl : (high + low) / 2 ∈ Set.Icc (0 : ℚ) 1 := ⟨by linarith, by linarith⟩
  obtain ⟨s, hs, hs0, hs1, hchroma⟩ := chroma_eq hlow' hle hhigh'
  have hrun : fromRgba color = (hue color high (high - low)).bind fun h =>
      some ⟨h, s, (high + low) / 2, color.a⟩ := by
    simp only [fromRgba, hhigh, hlow, hs]
    rfl
  rcases hle.eq_or_lt with heq | hlt
  · -- All channels are the same.
    subst heq
    obtain ⟨hr, hg, hb⟩ := h.le_high
    obtain ⟨hr', hg', hb'⟩ := h.low_le
    have hhue : hue color low (low - low) = some 0 := if_pos (sub_self low)
    refine ⟨⟨0, s, (low + low) / 2, color.a⟩, by rw [hrun, hhue]; rfl, ⟨le_rfl, one_pos⟩,
      ⟨hs0, hs1⟩, hl, rfl, ?_⟩
    rw [channels_gray rfl s (by rw [hchroma, sub_self])]
    simp only [Prod.mk.injEq]
    refine ⟨?_, ?_, ?_⟩ <;> linarith
  · obtain ⟨x, hhue, hx0, hx6, side, hside, hside', hchannels⟩ := hue_spec h hlt
    refine ⟨⟨x / 6, s, (high + low) / 2, color.a⟩, by rw [hrun, hhue]; rfl,
      ⟨by linarith, by linarith⟩, ⟨hs0, hs1⟩, hl, rfl, ?_⟩
    have hlow : (high + low) / 2 - (high - low) / 2 = low := by ring
    have hx : x / 6 * 6 = x := by ring
    have hat := channels_side ⟨x / 6, s, (high + low) / 2, color.a⟩ hchroma hlow hx side hside
      hside' hx6
    rw [hat, hchannels]

theorem clampUnit_of_mem {x : ℚ} (h : x ∈ Set.Icc 0 1) : clampUnit x = x := by
  rw [clampUnit, min_eq_left h.2, max_eq_right h.1]

/-- To hue, saturation and lightness and back is the identity, and the clamps change nothing. -/
theorem fromHsla_fromRgba (color : Rgba) (hr : color.r ∈ Set.Icc 0 1)
    (hg : color.g ∈ Set.Icc 0 1) (hb : color.b ∈ Set.Icc 0 1) :
    ∃ hsla : Hsla, fromRgba color = some hsla ∧ fromHsla hsla = color ∧
      (0 ≤ hsla.h ∧ hsla.h < 1) ∧ hsla.s ∈ Set.Icc 0 1 ∧ hsla.l ∈ Set.Icc 0 1 ∧
      channels hsla = ((fromHsla hsla).r, (fromHsla hsla).g, (fromHsla hsla).b) := by
  obtain ⟨hsla, hrun, hh, hs, hl, ha, hchannels⟩ := fromRgba_spec hr hg hb
  have hback : fromHsla hsla = color := by
    rw [fromHsla, hchannels]
    simp only [clampUnit_of_mem hr, clampUnit_of_mem hg, clampUnit_of_mem hb, ha]
  refine ⟨hsla, hrun, hback, hh, hs, hl, ?_⟩
  rw [hchannels, hback]

theorem fromHsla_fromRgba_orange :
    ∃ hsla : Hsla, fromRgba ⟨1, 1 / 2, 0, 1⟩ = some hsla ∧ fromHsla hsla = ⟨1, 1 / 2, 0, 1⟩ ∧
      (0 ≤ hsla.h ∧ hsla.h < 1) ∧ hsla.s ∈ Set.Icc 0 1 ∧ hsla.l ∈ Set.Icc 0 1 ∧
      channels hsla = ((fromHsla hsla).r, (fromHsla hsla).g, (fromHsla hsla).b) :=
  fromHsla_fromRgba ⟨1, 1 / 2, 0, 1⟩ (by norm_num) (by norm_num) (by norm_num)

end Zui.Color
