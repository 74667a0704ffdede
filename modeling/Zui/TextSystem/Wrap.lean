/-
The limit of the lines of a wrapped text.

`compute_wrap_boundaries` stops at the first break that the limit does not allow.  So a limit
either does nothing to a text that needs no more lines, or it cuts the breaks off.

* `wrapFrom_of_unlimited` — a limit that allows all breaks changes none of them;
* `unlimited_of_wrapFrom` — breaks that do not use up the limit are all there are;
* `computeWrapBoundaries_eq_iff` — when two limits make the same breaks.
-/
import Zui.TextSystem.Basic

namespace Zui

open Gpui

namespace TextSystem

/-- A limit allows a number of breaks. -/
def Allows (maxLines : Option ℕ) (n : ℕ) : Prop := ∀ m ∈ maxLines, n ≤ m - 1

/-- The number of breaks that a limit allows. -/
def allowed (maxLines : Option ℕ) : Option ℕ := maxLines.map fun m => m - 1

namespace Wrapping

variable {wrapWidth x nextX : Pixels} {maxLines : Option ℕ} {boundary : WrapBoundary} {ch : Char}
  {self : Wrapping}

theorem limitReached_iff {n : ℕ} : limitReached maxLines n = true ↔ ∃ m ∈ maxLines, m - 1 ≤ n := by
  cases maxLines <;> simp [limitReached]

@[simp] theorem visit_boundaries : (self.visit boundary ch x).boundaries = self.boundaries := by
  rw [visit]
  split_ifs <;> rfl

theorem fit_stop (h : self.fit wrapWidth maxLines boundary ch x nextX = none) :
    self.overflows boundary nextX wrapWidth = true ∧
      limitReached maxLines self.boundaries.length = true := by
  unfold fit at h
  cases hoverflows : self.overflows boundary nextX wrapWidth with
  | false => simp [hoverflows] at h
  | true =>
    cases hreached : limitReached maxLines self.boundaries.length with
    | false => simp [hoverflows, hreached] at h
    | true => exact ⟨rfl, rfl⟩

theorem fit_unlimited {next : Wrapping}
    (h : self.fit wrapWidth maxLines boundary ch x nextX = some next) :
    self.fit wrapWidth none boundary ch x nextX = some next := by
  have hnone : limitReached none self.boundaries.length = false := rfl
  unfold fit at h ⊢
  rw [hnone]
  cases hoverflows : self.overflows boundary nextX wrapWidth with
  | false => rwa [hoverflows] at h
  | true =>
    rw [hoverflows, if_pos rfl] at h
    cases hreached : limitReached maxLines self.boundaries.length with
    | true => simp [hreached] at h
    | false => rwa [hreached] at h

theorem fit_allowed {next : Wrapping}
    (h : self.fit wrapWidth maxLines boundary ch x nextX = some next)
    (hoverflows : self.overflows boundary nextX wrapWidth = true) :
    limitReached maxLines self.boundaries.length = false := by
  unfold fit at h
  rw [if_pos hoverflows] at h
  cases hreached : limitReached maxLines self.boundaries.length with
  | true => simp [hreached] at h
  | false => rfl

/-- Where the loop goes on there is one more break if the line was too wide. -/
theorem fit_length {next : Wrapping}
    (h : self.fit wrapWidth maxLines boundary ch x nextX = some next) :
    next.boundaries.length =
      self.boundaries.length + if self.overflows boundary nextX wrapWidth then 1 else 0 := by
  unfold fit at h
  cases hoverflows : self.overflows boundary nextX wrapWidth with
  | false =>
    rw [hoverflows] at h
    obtain rfl := Option.some.inj h
    rfl
  | true =>
    rw [hoverflows, if_pos rfl] at h
    cases hreached : limitReached maxLines self.boundaries.length with
    | true => exact absurd h (by simp [hreached])
    | false =>
      rw [hreached] at h
      obtain rfl := Option.some.inj h
      unfold wrapAt
      cases self.lastCandidateIx <;> simp

end Wrapping

open Wrapping

section Limit

variable {text : String} {width wrapWidth : Pixels} {maxLines : Option ℕ}
  {glyphs : List (WrapBoundary × ShapedGlyph)} {self : Wrapping} {l : List WrapBoundary}

/-- A pass of the loop: it skips a newline, or stops, or goes on. -/
theorem wrapFrom_cons {boundary : WrapBoundary} {glyph : ShapedGlyph}
    (h : wrapFrom text width wrapWidth maxLines ((boundary, glyph) :: glyphs) self = .ok l) :
    ∃ ch, charAt text glyph.index = .ok ch ∧
      (ch = '\n' ∧ wrapFrom text width wrapWidth maxLines glyphs self = .ok l ∨
        ch ≠ '\n' ∧ ∃ nextX, peekX text width glyphs = .ok nextX ∧
          (((self.visit boundary ch glyph.position.x).fit wrapWidth maxLines boundary ch
              glyph.position.x nextX = none ∧ l = self.boundaries) ∨
            ∃ next, (self.visit boundary ch glyph.position.x).fit wrapWidth maxLines boundary ch
                glyph.position.x nextX = some next ∧
              wrapFrom text width wrapWidth maxLines glyphs next = .ok l)) := by
  rw [wrapFrom] at h
  obtain ⟨ch, hch, h⟩ := bind_eq_ok.mp h
  refine ⟨ch, hch, ?_⟩
  by_cases hnewline : ch = '\n'
  · rw [if_pos hnewline] at h
    exact Or.inl ⟨hnewline, h⟩
  · rw [if_neg hnewline] at h
    obtain ⟨nextX, hpeek, h⟩ := bind_eq_ok.mp h
    refine Or.inr ⟨hnewline, nextX, hpeek, ?_⟩
    cases hfit : (self.visit boundary ch glyph.position.x).fit wrapWidth maxLines boundary ch
        glyph.position.x nextX with
    | none =>
      rw [hfit] at h
      exact Or.inl ⟨rfl, by simpa using (Except.ok.inj h).symm⟩
    | some next =>
      rw [hfit] at h
      exact Or.inr ⟨next, rfl, h⟩

/-- A pass that goes on. -/
theorem wrapFrom_fit {boundary : WrapBoundary} {glyph : ShapedGlyph} {ch : Char} {nextX : Pixels}
    {next : Wrapping} (hch : charAt text glyph.index = .ok ch) (hnewline : ch ≠ '\n')
    (hpeek : peekX text width glyphs = .ok nextX)
    (hfit : (self.visit boundary ch glyph.position.x).fit wrapWidth maxLines boundary ch
      glyph.position.x nextX = some next) :
    wrapFrom text width wrapWidth maxLines ((boundary, glyph) :: glyphs) self
      = wrapFrom text width wrapWidth maxLines glyphs next := by
  rw [wrapFrom, hch, ok_bind, if_neg hnewline, hpeek, ok_bind, hfit]

theorem wrapFrom_newline {boundary : WrapBoundary} {glyph : ShapedGlyph}
    (hch : charAt text glyph.index = .ok '\n') :
    wrapFrom text width wrapWidth maxLines ((boundary, glyph) :: glyphs) self
      = wrapFrom text width wrapWidth maxLines glyphs self := by
  rw [wrapFrom, hch, ok_bind, if_pos rfl]

theorem length_le_of_wrapFrom (h : wrapFrom text width wrapWidth maxLines glyphs self = .ok l) :
    self.boundaries.length ≤ l.length := by
  induction glyphs generalizing self with
  | nil =>
    obtain rfl := Except.ok.inj h
    exact Nat.le_refl _
  | cons placed glyphs ih =>
    obtain ⟨ch, -, ⟨-, hrest⟩ | ⟨-, nextX, -, ⟨-, rfl⟩ | ⟨next, hfit, hrest⟩⟩⟩ := wrapFrom_cons h
    · exact ih hrest
    · exact Nat.le_refl _
    · have hlength := fit_length hfit
      rw [visit_boundaries] at hlength
      exact Nat.le_trans (by omega) (ih hrest)

/-- A limit that allows all breaks changes none of them. -/
theorem wrapFrom_of_unlimited (hall : Allows maxLines l.length)
    (h : wrapFrom text width wrapWidth none glyphs self = .ok l) :
    wrapFrom text width wrapWidth maxLines glyphs self = .ok l := by
  induction glyphs generalizing self with
  | nil => exact h
  | cons placed glyphs ih =>
    obtain ⟨ch, hch, ⟨rfl, hrest⟩ | ⟨hnewline, nextX, hpeek, ⟨hfit, -⟩ | ⟨next, hfit, hrest⟩⟩⟩ :=
      wrapFrom_cons h
    · rw [wrapFrom_newline hch]
      exact ih hrest
    · -- Without a limit the loop does not stop.
      exact absurd (fit_stop hfit).2 (by simp [limitReached])
    · cases hlimited : (self.visit placed.1 ch placed.2.position.x).fit wrapWidth maxLines placed.1
          ch placed.2.position.x nextX with
      | some next' =>
        obtain rfl := Option.some.inj ((fit_unlimited hlimited).symm.trans hfit)
        rw [wrapFrom_fit hch hnewline hpeek hlimited]
        exact ih hrest
      | none =>
        -- The break at which the limit stops the loop is one of those that it allows.
        obtain ⟨hoverflows, hreached⟩ := fit_stop hlimited
        obtain ⟨m, hm, hle⟩ := limitReached_iff.mp hreached
        have hlength := fit_length hfit
        rw [hoverflows, if_pos rfl] at hlength
        have hmore := length_le_of_wrapFrom hrest
        have := hall m hm
        omega

/-- Breaks that do not use up the limit are all there are. -/
theorem unlimited_of_wrapFrom (hless : ∀ m ∈ maxLines, l.length < m - 1)
    (h : wrapFrom text width wrapWidth maxLines glyphs self = .ok l) :
    wrapFrom text width wrapWidth none glyphs self = .ok l := by
  induction glyphs generalizing self with
  | nil => exact h
  | cons placed glyphs ih =>
    obtain ⟨ch, hch, ⟨rfl, hrest⟩ | ⟨hnewline, nextX, hpeek, ⟨hfit, rfl⟩ | ⟨next, hfit, hrest⟩⟩⟩ :=
      wrapFrom_cons h
    · rw [wrapFrom_newline hch]
      exact ih hrest
    · obtain ⟨m, hm, hle⟩ := limitReached_iff.mp (fit_stop hfit).2
      have := hless m hm
      rw [visit_boundaries] at hle
      omega
    · rw [wrapFrom_fit hch hnewline hpeek (fit_unlimited hfit)]
      exact ih hrest

theorem allows_of_wrapFrom (hself : Allows maxLines self.boundaries.length)
    (h : wrapFrom text width wrapWidth maxLines glyphs self = .ok l) :
    Allows maxLines l.length := by
  induction glyphs generalizing self with
  | nil =>
    obtain rfl := Except.ok.inj h
    exact hself
  | cons placed glyphs ih =>
    obtain ⟨ch, hch, ⟨rfl, hrest⟩ | ⟨hnewline, nextX, hpeek, ⟨hfit, rfl⟩ | ⟨next, hfit, hrest⟩⟩⟩ :=
      wrapFrom_cons h
    · exact ih hself hrest
    · exact hself
    · refine ih (fun m hm => ?_) hrest
      have hlength := fit_length hfit
      have hself := hself m hm
      rw [visit_boundaries] at hlength
      cases hoverflows : (self.visit placed.1 ch placed.2.position.x).overflows placed.1 nextX
          wrapWidth with
      | false =>
        rw [hoverflows] at hlength
        exact hlength ▸ hself
      | true =>
        have hallowed := fit_allowed hfit hoverflows
        rw [← Bool.not_eq_true, limitReached_iff, visit_boundaries] at hallowed
        rw [hoverflows, if_pos rfl] at hlength
        have : ¬ m - 1 ≤ self.boundaries.length := fun hle => hallowed ⟨m, hm, hle⟩
        omega

theorem wrapFrom_congr {maxLines' : Option ℕ} (h : allowed maxLines = allowed maxLines') :
    wrapFrom text width wrapWidth maxLines glyphs self
      = wrapFrom text width wrapWidth maxLines' glyphs self := by
  have hreached : ∀ n, limitReached maxLines n = limitReached maxLines' n := by
    intro n
    have hany : ∀ limit : Option ℕ, limitReached limit n = (allowed limit).any (· ≤ n) := by
      rintro (_ | limit) <;> rfl
    rw [hany, hany, h]
  have hfit : ∀ (self : Wrapping) boundary ch x nextX,
      self.fit wrapWidth maxLines boundary ch x nextX
        = self.fit wrapWidth maxLines' boundary ch x nextX := by
    intro self boundary ch x nextX
    unfold fit
    rw [hreached]
  induction glyphs generalizing self with
  | nil => rfl
  | cons placed glyphs ih => simp only [wrapFrom, hfit, ih]

end Limit

/-- Two limits make the same breaks. -/
def SameBreaks (layout : LineLayout) (text : String) (wrapWidth : Pixels) (m m' : Option ℕ) :
    Prop :=
  allowed m = allowed m' ∨ ∃ l, layout.computeWrapBoundaries text wrapWidth none = .ok l ∧
    Allows m l.length ∧ Allows m' l.length

instance (maxLines : Option ℕ) (n : ℕ) : Decidable (Allows maxLines n) :=
  inferInstanceAs (Decidable (∀ m ∈ maxLines, n ≤ m - 1))

instance (layout : LineLayout) (text : String) (wrapWidth : Pixels) (m m' : Option ℕ) :
    Decidable (SameBreaks layout text wrapWidth m m') :=
  match h : layout.computeWrapBoundaries text wrapWidth none with
  | .ok l => decidable_of_iff (allowed m = allowed m' ∨ Allows m l.length ∧ Allows m' l.length) <|
    or_congr Iff.rfl ⟨fun hall => ⟨l, h, hall⟩, fun ⟨_, hl, hall⟩ =>
      Except.ok.inj (h.symm.trans hl) ▸ hall⟩
  | .error _ => decidable_of_iff (allowed m = allowed m') <|
    ⟨Or.inl, fun hsame => hsame.resolve_right fun ⟨_, hl, _⟩ => by simp [h] at hl⟩

variable {layout : LineLayout} {text : String} {wrapWidth : Pixels} {m m' : Option ℕ}
  {l : List WrapBoundary}

theorem computeWrapBoundaries_congr (h : allowed m = allowed m') :
    layout.computeWrapBoundaries text wrapWidth m
      = layout.computeWrapBoundaries text wrapWidth m' :=
  wrapFrom_congr h

/-- When another limit makes the same breaks. -/
theorem computeWrapBoundaries_eq_iff
    (h : layout.computeWrapBoundaries text wrapWidth m = .ok l) :
    layout.computeWrapBoundaries text wrapWidth m' = .ok l ↔
      SameBreaks layout text wrapWidth m m' := by
  have hm : Allows m l.length := allows_of_wrapFrom (fun _ _ => Nat.zero_le _) h
  constructor
  · intro h'
    have hm' : Allows m' l.length := allows_of_wrapFrom (fun _ _ => Nat.zero_le _) h'
    by_cases hsame : allowed m = allowed m'
    · exact Or.inl hsame
    · -- The greater limit is not used up.
      refine Or.inr ⟨l, ?_, hm, hm'⟩
      rcases m with _ | m
      · exact h
      rcases m' with _ | m'
      · exact h'
      have hne : m - 1 ≠ m' - 1 := fun heq => hsame (congrArg some heq)
      have hle := hm m rfl
      have hle' := hm' m' rfl
      rcases Nat.lt_or_ge (m - 1) (m' - 1) with hlt | hge
      · refine unlimited_of_wrapFrom (fun k hk => ?_) h'
        obtain rfl := Option.some.inj hk
        omega
      · refine unlimited_of_wrapFrom (fun k hk => ?_) h
        obtain rfl := Option.some.inj hk
        omega
  · rintro (hsame | ⟨l', hl', hall, hall'⟩)
    · rw [← computeWrapBoundaries_congr hsame]
      exact h
    · obtain rfl := Except.ok.inj ((wrapFrom_of_unlimited hall hl').symm.trans h)
      exact wrapFrom_of_unlimited hall' hl'

end TextSystem

end Zui
