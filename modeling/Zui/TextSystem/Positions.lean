/-
Indices and positions on a line of text.

A cursor may stand in front of a glyph and at the end of the line.  `x_for_index` says where, and
`closest_index_for_x` goes back.  It looks for the glyph behind the position and compares it with
the one in front.  Behind the last glyph there is none, and it gives the length of the text, however
close the last glyph is, unless that length is one.

* `xForIndex_stop` — where a cursor stands;
* `closestIndexForX_isClosest_iff` — when `closest_index_for_x` gives a closest index.
-/
import Zui.TextSystem.Basic

namespace Zui

open Gpui

namespace TextSystem

namespace LineLayout

/-- The glyphs of all runs. -/
def glyphs (self : LineLayout) : List ShapedGlyph := self.runs.flatMap (·.glyphs)

/-- The loop of `closest_index_for_x`: what it returns, if it does. -/
def closestFrom (x : Pixels) : ℕ → Pixels → List ShapedGlyph → Option ℕ
  | _, _, [] => none
  | prevIndex, prevX, glyph :: glyphs =>
    if glyph.position.x ≥ x then
      if glyph.position.x - x < x - prevX then some glyph.index else some prevIndex
    else closestFrom x glyph.index glyph.position.x glyphs

/-- `closest_index_for_x`. -/
def closestIndexForX (x : Pixels) (self : LineLayout) : ℕ :=
  match closestFrom x 0 0 self.glyphs with
  | some index => index
  | none =>
    if self.len = 1 then if x > self.width / 2 then 1 else 0
    else self.len

/-- `x_for_index`. -/
def xForIndex (index : ℕ) (self : LineLayout) : Pixels :=
  ((self.glyphs.find? (index ≤ ·.index)).map (·.position.x)).getD self.width

end LineLayout

/-! ### Where a cursor may stand -/

/-- An index with its position. -/
structure Stop where
  index : ℕ
  x : Pixels
  deriving DecidableEq

/-- In front of a glyph. -/
def ShapedGlyph.stop (self : ShapedGlyph) : Stop := ⟨self.index, self.position.x⟩

namespace LineLayout

/-- At the end of the line. -/
def lastStop (self : LineLayout) : Stop := ⟨self.len, self.width⟩

/-- All places where a cursor may stand. -/
def stops (self : LineLayout) : List Stop := self.glyphs.map (·.stop) ++ [self.lastStop]

/-- Indices and positions increase from 0 to the end of the line. -/
structure Regular (layout : LineLayout) : Prop where
  increasing : layout.stops.Pairwise fun stop other => stop.index < other.index ∧ stop.x < other.x
  first : layout.stops.head? = some ⟨0, 0⟩

/-- An index is one of a stop that is nearest to a position. -/
def IsClosest (layout : LineLayout) (x : Pixels) (index : ℕ) : Prop :=
  (∃ stop ∈ layout.stops, stop.index = index) ∧
    ∀ stop ∈ layout.stops, |layout.xForIndex index - x| ≤ |stop.x - x|

/-- The position of the last glyph. -/
def lastX (layout : LineLayout) : Pixels := (layout.glyphs.getLast?.map (·.position.x)).getD 0

variable {layout : LineLayout} {x : Pixels}

namespace Regular

theorem glyphs_increasing (h : layout.Regular) : layout.glyphs.Pairwise fun glyph other =>
    glyph.index < other.index ∧ glyph.position.x < other.position.x :=
  List.pairwise_map.mp (List.pairwise_append.mp h.increasing).1

theorem glyph_lt_last (h : layout.Regular) {glyph : ShapedGlyph} (hglyph : glyph ∈ layout.glyphs) :
    glyph.index < layout.len ∧ glyph.position.x < layout.width :=
  (List.pairwise_append.mp h.increasing).2.2 glyph.stop (List.mem_map_of_mem hglyph)
    layout.lastStop (by simp)

/-- An empty line is at its end, and any other one begins with a glyph at its start. -/
theorem first_glyph (h : layout.Regular) :
    (layout.glyphs = [] ∧ layout.len = 0 ∧ layout.width = 0) ∨
      ∃ glyph glyphs, layout.glyphs = glyph :: glyphs ∧ glyph.index = 0 ∧ glyph.position.x = 0 := by
  have hfirst := h.first
  rw [stops] at hfirst
  cases hglyphs : layout.glyphs with
  | nil =>
    rw [hglyphs] at hfirst
    obtain ⟨hindex, hx⟩ := Stop.mk.inj (Option.some.inj hfirst)
    exact .inl ⟨rfl, hindex, hx⟩
  | cons glyph glyphs =>
    rw [hglyphs] at hfirst
    obtain ⟨hindex, hx⟩ := Stop.mk.inj (Option.some.inj hfirst)
    exact .inr ⟨glyph, glyphs, rfl, hindex, hx⟩

theorem stop_nonneg (h : layout.Regular) {stop : Stop} (hstop : stop ∈ layout.stops) :
    0 ≤ stop.x := by
  have hincreasing := h.increasing
  have hfirst := h.first
  cases hstops : layout.stops with
  | nil => simp [hstops] at hfirst
  | cons head stops =>
    rw [hstops] at hstop hincreasing hfirst
    obtain rfl := Option.some.inj hfirst
    rcases List.mem_cons.mp hstop with rfl | hmem
    · exact le_refl _
    · exact ((List.pairwise_cons.mp hincreasing).1 stop hmem).2.le

end Regular

theorem mem_stops {stop : Stop} : stop ∈ layout.stops ↔
    (∃ glyph ∈ layout.glyphs, glyph.stop = stop) ∨ stop = layout.lastStop := by
  simp [stops]

/-- **Where a cursor stands.** -/
theorem xForIndex_stop (h : layout.Regular) {stop : Stop} (hstop : stop ∈ layout.stops) :
    layout.xForIndex stop.index = stop.x := by
  rw [xForIndex]
  rcases mem_stops.mp hstop with ⟨glyph, hglyph, rfl⟩ | rfl
  · obtain ⟨before, after, hsplit⟩ := List.append_of_mem hglyph
    have hincreasing := h.glyphs_increasing
    rw [hsplit] at hincreasing ⊢
    -- the glyphs in front have smaller indices
    have hbefore : before.find? (glyph.stop.index ≤ ·.index) = none := by
      rw [List.find?_eq_none]
      intro other hother
      have hlt := ((List.pairwise_append.mp hincreasing).2.2 other hother glyph (by simp)).1
      rw [decide_eq_true_eq]
      exact Nat.not_le.mpr hlt
    rw [List.find?_append, hbefore, List.find?_cons_of_pos (by simp [ShapedGlyph.stop])]
    rfl
  · have hnone : layout.glyphs.find? (layout.lastStop.index ≤ ·.index) = none := by
      rw [List.find?_eq_none]
      intro glyph hglyph
      rw [decide_eq_true_eq]
      exact Nat.not_le.mpr (h.glyph_lt_last hglyph).1
    rw [hnone]
    rfl

/-! ### The closest stop -/

/-- The nearer of two stops on both sides of a position is nearer than all that are not between
them. -/
theorem nearer_of_outside {p q t : Pixels} (hp : p < x) (hq : x ≤ q) (ht : t ≤ p ∨ q ≤ t) :
    |(if q - x < x - p then q else p) - x| ≤ |t - x| := by
  have hnear : |(if q - x < x - p then q else p) - x| ≤ x - p ∧
      |(if q - x < x - p then q else p) - x| ≤ q - x := by
    split_ifs with hlt
    · rw [abs_of_nonneg (by linarith)]
      exact ⟨hlt.le, le_refl _⟩
    · rw [abs_of_neg (by linarith)]
      exact ⟨by linarith, by linarith⟩
  rcases ht with ht | ht
  · have hleft : x - p ≤ |t - x| := by
      rw [abs_of_neg (by linarith)]
      linarith
    exact hnear.1.trans hleft
  · have hright : q - x ≤ |t - x| := by
      rw [abs_of_nonneg (by linarith)]
      linarith
    exact hnear.2.trans hright

/-- What the loop of `closest_index_for_x` does behind a glyph in front of the position. -/
theorem closestFrom_spec {glyph : ShapedGlyph} {glyphs : List ShapedGlyph}
    (hglyph : glyph.position.x < x) :
    (closestFrom x glyph.index glyph.position.x glyphs = none ∧
        ∀ other ∈ glyphs, other.position.x < x) ∨
      ∃ before front behind after, glyph :: glyphs = before ++ front :: behind :: after ∧
        front.position.x < x ∧ x ≤ behind.position.x ∧
        closestFrom x glyph.index glyph.position.x glyphs
          = some
            (if behind.position.x - x < x - front.position.x then behind else front).index := by
  induction glyphs generalizing glyph with
  | nil => exact .inl ⟨rfl, by simp⟩
  | cons other glyphs ih =>
    rw [closestFrom]
    by_cases hx : other.position.x ≥ x
    · refine .inr ⟨[], glyph, other, glyphs, rfl, hglyph, hx, ?_⟩
      rw [if_pos hx]
      split_ifs <;> rfl
    · rw [if_neg hx]
      rw [ge_iff_le, not_le] at hx
      rcases ih hx with ⟨hnone, hall⟩ |
        ⟨before, front, behind, after, hsplit, hfront, hbehind, hsome⟩
      · refine .inl ⟨hnone, ?_⟩
        intro next hnext
        rcases List.mem_cons.mp hnext with rfl | hnext
        · exact hx
        · exact hall next hnext
      · exact .inr ⟨glyph :: before, front, behind, after, by rw [hsplit]; rfl, hfront, hbehind,
          hsome⟩

theorem glyph_stop_mem {glyph : ShapedGlyph} (hglyph : glyph ∈ layout.glyphs) :
    glyph.stop ∈ layout.stops :=
  mem_stops.mpr (.inl ⟨glyph, hglyph, rfl⟩)

theorem Regular.outside (h : layout.Regular) {before after : List ShapedGlyph}
    {front behind : ShapedGlyph} (hsplit : layout.glyphs = before ++ front :: behind :: after)
    {stop : Stop} (hstop : stop ∈ layout.stops) :
    stop.x ≤ front.position.x ∨ behind.position.x ≤ stop.x := by
  have hincreasing := h.glyphs_increasing
  rcases mem_stops.mp hstop with ⟨glyph, hglyph, rfl⟩ | rfl
  · rw [hsplit] at hincreasing hglyph
    obtain ⟨-, hrest, hfront⟩ := List.pairwise_append.mp hincreasing
    obtain ⟨-, hrest⟩ := List.pairwise_cons.mp hrest
    rcases List.mem_append.mp hglyph with hmem | hmem
    · exact .inl (hfront glyph hmem front (by simp)).2.le
    rcases List.mem_cons.mp hmem with rfl | hmem
    · exact .inl (le_refl _)
    rcases List.mem_cons.mp hmem with rfl | hmem
    · exact .inr (le_refl _)
    · exact .inr ((List.pairwise_cons.mp hrest).1 glyph hmem).2.le
  · exact .inr (h.glyph_lt_last (by simp [hsplit])).2.le

/-- The nearer of two glyphs on both sides of a position is closest. -/
theorem isClosest_between (h : layout.Regular) {before after : List ShapedGlyph}
    {front behind : ShapedGlyph} (hsplit : layout.glyphs = before ++ front :: behind :: after)
    (hfront : front.position.x < x) (hbehind : x ≤ behind.position.x) :
    layout.IsClosest x
      (if behind.position.x - x < x - front.position.x then behind else front).index := by
  obtain ⟨chosen, hchosen⟩ : ∃ chosen,
      (if behind.position.x - x < x - front.position.x then behind else front) = chosen := ⟨_, rfl⟩
  have hmem : chosen ∈ layout.glyphs := by
    rw [hsplit, ← hchosen]
    split_ifs <;> simp
  rw [hchosen]
  refine ⟨⟨chosen.stop, glyph_stop_mem hmem, rfl⟩, ?_⟩
  intro stop hstop
  have hx : layout.xForIndex chosen.index = chosen.position.x :=
    xForIndex_stop h (glyph_stop_mem hmem)
  have hnearer := nearer_of_outside hfront hbehind (h.outside hsplit hstop)
  rw [hx, ← hchosen, apply_ite (fun glyph : ShapedGlyph => glyph.position.x)]
  exact hnearer

theorem isClosest_start (h : layout.Regular) (hx : x ≤ 0) : layout.IsClosest x 0 := by
  have hstart : (⟨0, 0⟩ : Stop) ∈ layout.stops := List.mem_of_head? h.first
  refine ⟨⟨_, hstart, rfl⟩, ?_⟩
  intro stop hstop
  have hzero : layout.xForIndex 0 = 0 := xForIndex_stop h hstart
  have hstop := h.stop_nonneg hstop
  rw [hzero, abs_of_nonneg (by linarith), abs_of_nonneg (by linarith)]
  linarith

theorem Regular.le_last_glyph (h : layout.Regular) {before : List ShapedGlyph}
    {glyph other : ShapedGlyph} (hsplit : layout.glyphs = before ++ [glyph])
    (hother : other ∈ layout.glyphs) : other.position.x ≤ glyph.position.x := by
  have hincreasing := h.glyphs_increasing
  rw [hsplit] at hincreasing hother
  rcases List.mem_append.mp hother with hother | hother
  · exact ((List.pairwise_append.mp hincreasing).2.2 other hother glyph (by simp)).2.le
  · rw [List.mem_singleton.mp hother]

section Behind

/-! Behind all glyphs, the end of the line and the last glyph are the nearest stops. -/

variable {before : List ShapedGlyph} {glyph : ShapedGlyph}

theorem isClosest_end_iff (h : layout.Regular) (hsplit : layout.glyphs = before ++ [glyph])
    (hx : glyph.position.x < x) :
    layout.IsClosest x layout.len ↔ glyph.position.x + layout.width ≤ 2 * x := by
  have hglyph : glyph ∈ layout.glyphs := by simp [hsplit]
  have hlast : layout.xForIndex layout.len = layout.width :=
    xForIndex_stop h (mem_stops.mpr (.inr rfl))
  constructor
  · rintro ⟨-, hclosest⟩
    have hle := hclosest glyph.stop (glyph_stop_mem hglyph)
    rw [hlast, ShapedGlyph.stop, abs_of_neg (a := glyph.position.x - x) (by linarith)] at hle
    have := le_abs_self (layout.width - x)
    linarith
  · intro hle
    refine ⟨⟨layout.lastStop, mem_stops.mpr (.inr rfl), rfl⟩, ?_⟩
    intro stop hstop
    rw [hlast]
    rcases mem_stops.mp hstop with ⟨other, hother, rfl⟩ | rfl
    · have hother := h.le_last_glyph hsplit hother
      have := (h.glyph_lt_last hglyph).2
      rw [ShapedGlyph.stop, abs_of_neg (a := other.position.x - x) (by linarith), abs_le]
      exact ⟨by linarith, by linarith⟩
    · exact le_refl _

theorem isClosest_last (h : layout.Regular) (hsplit : layout.glyphs = before ++ [glyph])
    (hx : glyph.position.x < x) (hle : 2 * x ≤ glyph.position.x + layout.width) :
    layout.IsClosest x glyph.index := by
  have hglyph : glyph ∈ layout.glyphs := by simp [hsplit]
  have hindex : layout.xForIndex glyph.index = glyph.position.x :=
    xForIndex_stop h (glyph_stop_mem hglyph)
  refine ⟨⟨glyph.stop, glyph_stop_mem hglyph, rfl⟩, ?_⟩
  intro stop hstop
  rw [hindex, abs_of_neg (by linarith)]
  rcases mem_stops.mp hstop with ⟨other, hother, rfl⟩ | rfl
  · have hother := h.le_last_glyph hsplit hother
    rw [ShapedGlyph.stop, abs_of_neg (by linarith)]
    linarith
  · have := le_abs_self (layout.width - x)
    rw [lastStop]
    linarith

end Behind

theorem Regular.eq_singleton (h : layout.Regular) {glyph : ShapedGlyph}
    {glyphs : List ShapedGlyph} (hsplit : layout.glyphs = glyph :: glyphs) (hlen : layout.len = 1) :
    glyphs = [] := by
  rw [List.eq_nil_iff_forall_not_mem]
  intro other hother
  have hincreasing := h.glyphs_increasing
  have hlast := (h.glyph_lt_last (by rw [hsplit]; exact List.mem_cons_of_mem glyph hother)).1
  rw [hsplit] at hincreasing
  have hlt := ((List.pairwise_cons.mp hincreasing).1 other hother).1
  omega

theorem closestIndexForX_empty (h : layout.Regular) (hglyphs : layout.glyphs = [])
    (hlen : layout.len = 0) : layout.IsClosest x (layout.closestIndexForX x) := by
  have hstops : layout.stops = [layout.lastStop] := by
    rw [stops, hglyphs]
    rfl
  have hlast : layout.xForIndex layout.len = layout.width :=
    xForIndex_stop h (mem_stops.mpr (.inr rfl))
  have hclosest : layout.closestIndexForX x = layout.len := by
    rw [closestIndexForX, hglyphs, hlen]
    rfl
  rw [hclosest, IsClosest, hstops]
  refine ⟨⟨_, List.mem_singleton_self _, rfl⟩, ?_⟩
  intro stop hstop
  rw [List.mem_singleton.mp hstop, hlast, lastStop]

theorem closestIndexForX_behind (h : layout.Regular) {first last : ShapedGlyph}
    {glyphs before : List ShapedGlyph} (hglyphs : layout.glyphs = first :: glyphs)
    (hindex : first.index = 0) (hsplit : layout.glyphs = before ++ [last])
    (hlast : last.position.x < x) (hloop : closestFrom x 0 0 layout.glyphs = none) :
    layout.IsClosest x (layout.closestIndexForX x) ↔
      layout.len = 1 ∨ last.position.x + layout.width ≤ 2 * x := by
  rw [closestIndexForX, hloop]
  dsimp only
  by_cases hlen : layout.len = 1
  · -- the first glyph is also the last one
    obtain rfl := h.eq_singleton hglyphs hlen
    have hfirst : before ++ [last] = [] ++ [first] := hsplit.symm.trans hglyphs
    obtain ⟨rfl, hsame⟩ := List.append_inj' hfirst rfl
    obtain rfl := List.singleton_inj.mp hsame
    rw [if_pos hlen]
    refine iff_of_true ?_ (.inl hlen)
    have hzero : last.position.x = 0 := by
      have hstart := h.first
      rw [stops, hglyphs] at hstart
      exact (Stop.mk.inj (Option.some.inj hstart)).2
    split_ifs with hmiddle
    · rw [← hlen]
      exact (isClosest_end_iff h hsplit hlast).mpr (by linarith)
    · rw [← hindex]
      exact isClosest_last h hsplit hlast (by linarith)
  · rw [if_neg hlen, isClosest_end_iff h hsplit hlast]
    exact ⟨.inr, fun hle => hle.resolve_left hlen⟩

/-- **When `closest_index_for_x` gives a closest index**: the text has one byte, or the position is
not behind the last glyph or nearer to the end of the line. -/
theorem closestIndexForX_isClosest_iff (h : layout.Regular) (x : Pixels) :
    layout.IsClosest x (layout.closestIndexForX x) ↔
      layout.len = 1 ∨ x ≤ layout.lastX ∨ layout.lastX + layout.width ≤ 2 * x := by
  rcases h.first_glyph with ⟨hglyphs, hlen, hwidth⟩ | ⟨first, glyphs, hglyphs, hindex, hfirst⟩
  · have hlastX : layout.lastX = 0 := by
      rw [lastX, hglyphs]
      rfl
    refine iff_of_true (closestIndexForX_empty h hglyphs hlen) (.inr ?_)
    rcases le_total x 0 with hx | hx
    · exact .inl (by linarith)
    · exact .inr (by linarith)
  obtain ⟨before, last, hsplit⟩ : ∃ before last, layout.glyphs = before ++ [last] :=
    ⟨_, _, (List.dropLast_append_getLast (by simp [hglyphs])).symm⟩
  have hlastX : layout.lastX = last.position.x := by
    rw [lastX, hsplit, List.getLast?_concat]
    rfl
  have hnonneg : first.position.x ≤ last.position.x := h.le_last_glyph hsplit (by simp [hglyphs])
  rw [hlastX]
  by_cases hx : first.position.x ≥ x
  · -- the loop returns at the first glyph
    have hclosest : layout.closestIndexForX x = 0 := by
      rw [closestIndexForX, hglyphs, closestFrom, if_pos hx, hindex, ite_self]
    rw [hclosest]
    exact iff_of_true (isClosest_start h (by linarith)) (.inr (.inl (by linarith)))
  have hloop : closestFrom x 0 0 layout.glyphs
      = closestFrom x first.index first.position.x glyphs := by
    rw [hglyphs, closestFrom, if_neg hx]
  rw [ge_iff_le, not_le] at hx
  rcases closestFrom_spec hx with ⟨hnone, hall⟩ |
    ⟨before', front, behind, after, hfound, hfront, hbehind, hsome⟩
  · have hlast : last.position.x < x := by
      have hmem : last ∈ first :: glyphs := by simp [← hglyphs, hsplit]
      rcases List.mem_cons.mp hmem with rfl | hmem
      · exact hx
      · exact hall last hmem
    rw [closestIndexForX_behind h hglyphs hindex hsplit hlast (hloop.trans hnone)]
    have hnot : ¬ x ≤ last.position.x := not_le.mpr hlast
    simp [hnot]
  · rw [closestIndexForX, hloop, hsome]
    rw [← hglyphs] at hfound
    refine iff_of_true (isClosest_between h hfound hfront hbehind) (.inr (.inl ?_))
    exact hbehind.trans (h.le_last_glyph hsplit (by simp [hfound]))

/-- Two glyphs of one byte and width. -/
def pair : LineLayout where
  fontSize := 1
  width := 2
  ascent := 1
  descent := 0
  runs := [⟨0, [⟨0, ⟨0, 0⟩, 0, false⟩, ⟨1, ⟨1, 0⟩, 1, false⟩]⟩]
  len := 2

theorem pair_regular : pair.Regular := ⟨by decide +kernel, by decide +kernel⟩

/-- The end of the second glyph is closest to its last quarter. -/
theorem closestIndexForX_isClosest_end : pair.IsClosest (7 / 4) (pair.closestIndexForX (7 / 4)) :=
  (closestIndexForX_isClosest_iff pair_regular _).mpr (.inr (.inr (by decide +kernel)))

/-- But it is not closest to its first quarter. -/
theorem closestIndexForX_not_isClosest :
    pair.Regular ∧ ¬ pair.IsClosest (5 / 4) (pair.closestIndexForX (5 / 4)) := by
  refine ⟨pair_regular, ?_⟩
  rintro ⟨-, hclosest⟩
  have hle := hclosest ⟨1, 1⟩ (by decide +kernel)
  exact absurd hle (by decide +kernel)

end LineLayout

end TextSystem

end Zui
