/-
Breaking items into lines of a width.

Items are put on a line until one does not fit.  The line is then broken at its last opportunity, or
in front of that item if there is none, and what is behind the break begins the next line.  Where
there are opportunities is told from a memory of the items in front, which may be kept differently
at a break.

* `fits_breakLines_iff` — every line fits exactly if what begins one behind an opportunity does;
* `breaksWell_iff` — opportunities are preferred exactly if no line that has one is broken where
  none is, because it was missed or another place was taken for one. -/
import Mathlib

namespace Zui

/-- How lines are broken: the widths of the items, whether a line may be broken in front of one,
what is remembered behind one that fits and behind one at which a line was broken, and the width
that a line begins with. -/
structure Breaker (α σ : Type) where
  width : α → ℚ
  opens : σ → α → Bool
  pass : σ → α → σ
  wrap : σ → List α → α → σ
  extra : σ → ℚ

/-- A line that is filled: its items up to the last opportunity, or none, and the rest of them. -/
structure Breaking (α σ : Type) where
  memory : σ
  front : List α
  back : List α

variable {α σ τ : Type}

namespace Breaker

/-- The width of some items. -/
def widthOf (B : Breaker α σ) (items : List α) : ℚ := (items.map B.width).sum

end Breaker

namespace Breaking

/-- The items of the line. -/
def line (self : Breaking α σ) : List α := self.front ++ self.back

/-- An item is put on the line. -/
def visit (B : Breaker α σ) (item : α) (self : Breaking α σ) : Breaking α σ :=
  if B.opens self.memory item then ⟨self.memory, self.line, [item]⟩
  else ⟨self.memory, self.front, self.back ++ [item]⟩

/-- An item does not fit on the line, which is not empty. -/
def Overflows (B : Breaker α σ) (limit : ℚ) (item : α) (self : Breaking α σ) : Prop :=
  self.line ≠ [] ∧ limit < B.extra self.memory + B.widthOf self.line + B.width item

instance (B : Breaker α σ) (limit : ℚ) (item : α) (self : Breaking α σ) :
    Decidable (self.Overflows B limit item) := inferInstanceAs (Decidable (_ ∧ _))

/-- The line that is broken at an item, and what begins the next one. -/
def cut (B : Breaker α σ) (item : α) (self : Breaking α σ) : List α × List α :=
  if (self.visit B item).front = [] then (self.line, [item])
  else ((self.visit B item).front, (self.visit B item).back)

/-- The line behind an item that fits. -/
def passed (B : Breaker α σ) (item : α) (self : Breaking α σ) : Breaking α σ :=
  { self.visit B item with memory := B.pass self.memory item }

/-- The line behind a break at an item. -/
def broken (B : Breaker α σ) (item : α) (self : Breaking α σ) : Breaking α σ :=
  ⟨B.wrap self.memory (self.cut B item).1 item, [], (self.cut B item).2⟩

/-- The lines, each with the memory behind it. -/
def breakLines (B : Breaker α σ) (limit : ℚ) :
    Breaking α σ → List α → List (σ × List α)
  | self, [] => [(self.memory, self.line)]
  | self, item :: items =>
    if self.Overflows B limit item then
      (self.memory, (self.cut B item).1) :: breakLines B limit (self.broken B item) items
    else breakLines B limit (self.passed B item) items

variable {B : Breaker α σ} {limit : ℚ} {self : Breaking α σ} {item : α}

/-! ### One item -/

theorem visit_opens (h : B.opens self.memory item) :
    self.visit B item = ⟨self.memory, self.line, [item]⟩ := if_pos h

theorem visit_not_opens (h : ¬B.opens self.memory item) :
    self.visit B item = ⟨self.memory, self.front, self.back ++ [item]⟩ := if_neg h

@[simp] theorem line_visit : (self.visit B item).line = self.line ++ [item] := by
  rw [visit]
  split
  · rfl
  · exact (List.append_assoc _ _ _).symm

@[simp] theorem line_passed : (self.passed B item).line = self.line ++ [item] := line_visit

theorem cut_opens (h : B.opens self.memory item) : self.cut B item = (self.line, [item]) := by
  rw [cut, visit_opens h]
  split <;> rfl

theorem cut_front (h : ¬B.opens self.memory item) (hfront : self.front ≠ []) :
    self.cut B item = (self.front, self.back ++ [item]) := by
  rw [cut, visit_not_opens h]
  exact if_neg hfront

theorem cut_bare (hfront : self.front = []) : self.cut B item = (self.line, [item]) := by
  by_cases h : B.opens self.memory item
  · exact cut_opens h
  · rw [cut, visit_not_opens h]
    exact if_pos hfront

theorem cut_append : (self.cut B item).1 ++ (self.cut B item).2 = self.line ++ [item] := by
  rw [cut]
  split
  · rfl
  · exact line_visit

theorem line_broken : (self.broken B item).line = (self.cut B item).2 := rfl

theorem cut_ne_nil (h : self.line ≠ []) : (self.cut B item).1 ≠ [] ∧ (self.cut B item).2 ≠ [] := by
  by_cases hopens : B.opens self.memory item
  · rw [cut_opens hopens]
    exact ⟨h, by simp⟩
  · by_cases hfront : self.front = []
    · rw [cut_bare hfront]
      exact ⟨h, by simp⟩
    · rw [cut_front hopens hfront]
      exact ⟨hfront, by simp⟩

theorem cut_prefix : (self.cut B item).1 <+: self.line := by
  by_cases hopens : B.opens self.memory item
  · rw [cut_opens hopens]
  · by_cases hfront : self.front = []
    · rw [cut_bare hfront]
    · rw [cut_front hopens hfront]
      exact List.prefix_append _ _

/-! ### The lines -/

theorem breakLines_overflows (items : List α) (h : self.Overflows B limit item) :
    self.breakLines B limit (item :: items) =
      (self.memory, (self.cut B item).1) :: (self.broken B item).breakLines B limit items :=
  if_pos h

theorem breakLines_fits (items : List α) (h : ¬self.Overflows B limit item) :
    self.breakLines B limit (item :: items) = (self.passed B item).breakLines B limit items :=
  if_neg h

theorem flatten_breakLines (items : List α) {self : Breaking α σ} :
    ((self.breakLines B limit items).map Prod.snd).flatten = self.line ++ items := by
  induction items generalizing self with
  | nil => simp [breakLines]
  | cons item items ih =>
    by_cases h : self.Overflows B limit item
    · rw [breakLines_overflows items h, List.map_cons, List.flatten_cons, ih, line_broken,
        ← List.append_assoc, cut_append, List.append_assoc]
      rfl
    · rw [breakLines_fits items h, ih, line_passed, List.append_assoc]
      rfl

theorem ne_nil_of_mem_breakLines (items : List α) {self : Breaking α σ}
    (hne : self.line ++ items ≠ []) : ∀ line ∈ self.breakLines B limit items, line.2 ≠ [] := by
  induction items generalizing self with
  | nil =>
    intro line hline
    rw [breakLines, List.mem_singleton] at hline
    rw [hline]
    rwa [List.append_nil] at hne
  | cons item items ih =>
    by_cases h : self.Overflows B limit item
    · rw [breakLines_overflows items h]
      obtain ⟨hline, hrest⟩ : (self.cut B item).1 ≠ [] ∧ (self.cut B item).2 ≠ [] :=
        cut_ne_nil h.1
      intro line hmem
      rcases List.mem_cons.mp hmem with rfl | hmem
      · exact hline
      · refine ih ?_ line hmem
        rw [line_broken]
        exact List.append_ne_nil_of_left_ne_nil hrest _
    · rw [breakLines_fits items h]
      refine ih ?_
      rw [line_passed]
      simp

/-- What is kept behind every item that fits holds of the memory behind the first line. -/
theorem memory_head_breakLines {P : σ → Prop}
    (hpass : ∀ memory item, P memory → P (B.pass memory item))
    (items : List α) {self : Breaking α σ} (h : P self.memory) :
    ∃ line lines, self.breakLines B limit items = line :: lines ∧ P line.1 := by
  induction items generalizing self with
  | nil => exact ⟨_, [], rfl, h⟩
  | cons item items ih =>
    by_cases hover : self.Overflows B limit item
    · exact ⟨_, _, breakLines_overflows items hover, h⟩
    · rw [breakLines_fits items hover]
      exact ih (hpass _ item h)

/-! ### Fitting -/

/-- A line is one item, or fits. -/
def Fits (B : Breaker α σ) (limit : ℚ) (line : σ × List α) : Prop :=
  line.2.length ≤ 1 ∨ B.extra line.1 + B.widthOf line.2 ≤ limit

/-- What begins the next line is more than an item, and does not fit. -/
def Wide (B : Breaker α σ) (limit : ℚ) (item : α) (self : Breaking α σ) : Prop :=
  2 ≤ (self.cut B item).2.length ∧
    limit < B.extra (self.broken B item).memory + B.widthOf (self.cut B item).2

/-- At no break, what begins the next line is too wide. -/
def NeverWide (B : Breaker α σ) (limit : ℚ) : Breaking α σ → List α → Prop
  | _, [] => True
  | self, item :: items =>
    if self.Overflows B limit item then
      ¬self.Wide B limit item ∧ NeverWide B limit (self.broken B item) items
    else NeverWide B limit (self.passed B item) items

instance (B : Breaker α σ) (limit : ℚ) (item : α) (self : Breaking α σ) :
    Decidable (self.Wide B limit item) := inferInstanceAs (Decidable (_ ∧ _))

instance NeverWide.decidable (B : Breaker α σ) (limit : ℚ) :
    ∀ (self : Breaking α σ) (items : List α), Decidable (self.NeverWide B limit items)
  | _, [] => isTrue trivial
  | self, item :: items =>
    have := NeverWide.decidable B limit (self.broken B item) items
    have := NeverWide.decidable B limit (self.passed B item) items
    inferInstanceAs (Decidable (if self.Overflows B limit item then
      ¬self.Wide B limit item ∧ NeverWide B limit (self.broken B item) items
      else NeverWide B limit (self.passed B item) items))

theorem widthOf_nonneg {items : List α} (h : ∀ item ∈ items, 0 ≤ B.width item) :
    0 ≤ B.widthOf items := by
  refine List.sum_nonneg ?_
  intro x hx
  obtain ⟨item, hitem, rfl⟩ := List.mem_map.mp hx
  exact h item hitem

@[simp] theorem widthOf_append (items items' : List α) :
    B.widthOf (items ++ items') = B.widthOf items + B.widthOf items' := by
  rw [Breaker.widthOf, List.map_append, List.sum_append]
  rfl

@[simp] theorem widthOf_singleton : B.widthOf [item] = B.width item := by
  rw [Breaker.widthOf, List.map_singleton, List.sum_singleton]

theorem Fits.prefix {memory : σ} {line start : List α} (h : Fits B limit (memory, line))
    (hwidth : ∀ item ∈ line, 0 ≤ B.width item) (hstart : start <+: line) :
    Fits B limit (memory, start) := by
  obtain ⟨rest, rfl⟩ := hstart
  rcases h with hone | hfits
  · refine .inl ?_
    dsimp only at hone ⊢
    rw [List.length_append] at hone
    omega
  · refine .inr ?_
    have hrest := widthOf_nonneg fun item hitem =>
      hwidth item (List.mem_append_right start hitem)
    dsimp only at hfits ⊢
    rw [widthOf_append] at hfits
    linarith

theorem not_fits_of_wide (items : List α) (self : Breaking α σ) (hfront : self.front = [])
    (hwidth : ∀ item ∈ items, 0 ≤ B.width item) (hwide : ¬Fits B limit (self.memory, self.line)) :
    ∃ line ∈ self.breakLines B limit items, ¬Fits B limit line := by
  cases items with
  | nil => exact ⟨_, List.mem_singleton_self _, hwide⟩
  | cons item items =>
    have hoverflows : self.Overflows B limit item := by
      rw [Fits, not_or, not_le, not_le] at hwide
      refine ⟨?_, ?_⟩
      · exact List.ne_nil_of_length_pos (lt_trans one_pos hwide.1)
      · have hitem := hwidth item List.mem_cons_self
        linarith [hwide.2]
    rw [breakLines_overflows items hoverflows, cut_bare hfront]
    exact ⟨_, List.mem_cons_self, hwide⟩

theorem fits_passed (hextra : ∀ memory item, B.extra (B.pass memory item) = B.extra memory)
    (h : ¬self.Overflows B limit item) :
    Fits B limit ((self.passed B item).memory, (self.passed B item).line) := by
  rw [Fits, line_passed]
  rcases eq_or_ne self.line [] with hnil | hne
  · rw [hnil]
    exact .inl le_rfl
  · have hle := not_lt.mp fun hlt => h ⟨hne, hlt⟩
    refine .inr ?_
    show B.extra (B.pass self.memory item) + _ ≤ limit
    rw [hextra, widthOf_append, widthOf_singleton, ← add_assoc]
    exact hle

/-- Every line fits exactly if what begins one does. -/
theorem fits_breakLines_iff (hextra : ∀ memory item, B.extra (B.pass memory item) = B.extra memory)
    (items : List α) {self : Breaking α σ}
    (hwidth : ∀ item ∈ self.line ++ items, 0 ≤ B.width item)
    (hfits : Fits B limit (self.memory, self.line)) :
    (∀ line ∈ self.breakLines B limit items, Fits B limit line) ↔ self.NeverWide B limit items := by
  induction items generalizing self with
  | nil =>
    refine iff_of_true ?_ trivial
    intro line hline
    rw [breakLines, List.mem_singleton] at hline
    rw [hline]
    exact hfits
  | cons item items ih =>
    have hline : ∀ other ∈ self.line ++ [item], 0 ≤ B.width other := by
      intro other hother
      refine hwidth other ?_
      rcases List.mem_append.mp hother with hother | hother
      · exact List.mem_append_left _ hother
      · exact List.mem_append_right _ (List.mem_cons.mpr (.inl (List.mem_singleton.mp hother)))
    by_cases h : self.Overflows B limit item
    · rw [breakLines_overflows items h, NeverWide, if_pos h, List.forall_mem_cons]
      have hfirst : Fits B limit (self.memory, (self.cut B item).1) :=
        hfits.prefix (fun other hother => hline other (List.mem_append_left _ hother)) cut_prefix
      have hbroken : ∀ other ∈ (self.broken B item).line ++ items, 0 ≤ B.width other := by
        intro other hother
        rcases List.mem_append.mp hother with hother | hother
        · refine hline other ?_
          rw [← cut_append]
          exact List.mem_append_right _ hother
        · exact hwidth other (List.mem_append_right _ (List.mem_cons_of_mem _ hother))
      by_cases hwide : self.Wide B limit item
      · -- the next line is not cut down, since there is no opportunity on it
        obtain ⟨line, hmem, hnot⟩ := not_fits_of_wide items (self.broken B item) rfl
          (fun other hother => hbroken other (List.mem_append_right _ hother))
          (by rw [Fits, not_or, not_le, not_le]; exact hwide)
        refine iff_of_false ?_ ?_
        · rintro ⟨-, hall⟩
          exact hnot (hall line hmem)
        · rintro ⟨hnever, -⟩
          exact hnever hwide
      · have hnext : Fits B limit ((self.broken B item).memory, (self.broken B item).line) := by
          rw [Wide, not_and_or, not_le, not_lt] at hwide
          rcases hwide with hone | hle
          · exact .inl (Nat.lt_succ_iff.mp hone)
          · exact .inr hle
        rw [ih hbroken hnext]
        constructor
        · rintro ⟨-, hnever⟩
          exact ⟨hwide, hnever⟩
        · rintro ⟨-, hnever⟩
          exact ⟨hfirst, hnever⟩
    · rw [breakLines_fits items h, NeverWide, if_neg h]
      refine ih ?_ (fits_passed hextra h)
      rw [line_passed, List.append_assoc]
      exact hwidth

/-! ### Opportunities -/

/-- There is no opportunity on a line, behind its first item and some items in front. -/
def NoneIn (May : List α → α → Prop) (before line : List α) : Prop :=
  ∀ front item back, line = front ++ item :: back → front ≠ [] → ¬May (before ++ front) item

/-- Behind some items, each line that is not broken at an opportunity has none. -/
def BreaksWell (May : List α → α → Prop) : List α → List (σ × List α) → Prop
  | before, line :: next :: lines =>
    (∀ item ∈ next.2.head?, ¬May (before ++ line.2) item → NoneIn May before line.2) ∧
      BreaksWell May (before ++ line.2) (next :: lines)
  | _, _ => True

/-- The line is broken before another place is taken for an opportunity. -/
def BreaksUntold (B : Breaker α σ) (limit : ℚ) : Breaking α σ → List α → Prop
  | _, [] => False
  | self, item :: items =>
    ¬B.opens self.memory item ∧
      (self.Overflows B limit item ∨ BreaksUntold B limit (self.passed B item) items)

/-- In front of an item there is an opportunity, which is missed. -/
def Missed (B : Breaker α σ) (May : List α → α → Prop) (before : List α) (item : α)
    (self : Breaking α σ) : Prop :=
  self.line ≠ [] ∧ May (before ++ self.line) item ∧ ¬B.opens self.memory item

/-- In front of an item there is no opportunity, though it is taken for one, and the line has
one. -/
def Misled (B : Breaker α σ) (May : List α → α → Prop) (before : List α) (item : α)
    (self : Breaking α σ) : Prop :=
  B.opens self.memory item ∧ ¬May (before ++ self.line) item ∧ ¬NoneIn May before self.line

/-- No line that has missed an opportunity is broken before another one is told, and none that has
an opportunity is broken where one is told that is none. -/
def NeverAstray (B : Breaker α σ) (May : List α → α → Prop) (limit : ℚ) :
    List α → Breaking α σ → List α → Prop
  | _, _, [] => True
  | before, self, item :: items =>
    if self.Overflows B limit item then
      ¬self.Misled B May before item ∧
        NeverAstray B May limit (before ++ (self.cut B item).1) (self.broken B item) items
    else
      (self.Missed B May before item ∨ self.Misled B May before item →
          ¬BreaksUntold B limit (self.passed B item) items) ∧
        NeverAstray B May limit before (self.passed B item) items

theorem noneIn_iff {May : List α → α → Prop} {before items : List α} :
    NoneIn May before items ↔ ∀ k < items.length, k ≠ 0 →
      ∀ item ∈ items[k]?, ¬May (before ++ items.take k) item := by
  constructor
  · intro h k hk hne item hitem
    refine h (items.take k) item (items.drop (k + 1)) ?_ ?_
    · rw [← (List.getElem?_eq_some_iff.mp hitem).2, List.cons_getElem_drop_succ,
        List.take_append_drop]
    · exact List.ne_nil_of_length_pos (by rw [List.length_take]; omega)
  · rintro h front item back rfl hne hmay
    refine h front.length ?_ ?_ item ?_ ?_
    · rw [List.length_append, List.length_cons]
      omega
    · rwa [Ne, List.length_eq_zero_iff]
    · exact Option.mem_def.mpr (by simp)
    · rwa [List.take_left]

section Decidable

variable (B : Breaker α σ) (May : List α → α → Prop) [∀ items item, Decidable (May items item)]
  (limit : ℚ)

instance (before line : List α) : Decidable (NoneIn May before line) :=
  decidable_of_iff _ noneIn_iff.symm

instance BreaksUntold.decidable :
    ∀ (self : Breaking α σ) (items : List α), Decidable (self.BreaksUntold B limit items)
  | _, [] => isFalse id
  | self, item :: items =>
    have := BreaksUntold.decidable (self.passed B item) items
    inferInstanceAs (Decidable (¬B.opens self.memory item ∧
      (self.Overflows B limit item ∨ BreaksUntold B limit (self.passed B item) items)))

instance (before : List α) (item : α) (self : Breaking α σ) :
    Decidable (self.Missed B May before item) := inferInstanceAs (Decidable (_ ∧ _ ∧ _))

instance (before : List α) (item : α) (self : Breaking α σ) :
    Decidable (self.Misled B May before item) := inferInstanceAs (Decidable (_ ∧ _ ∧ _))

instance NeverAstray.decidable :
    ∀ (before : List α) (self : Breaking α σ) (items : List α),
      Decidable (NeverAstray B May limit before self items)
  | _, _, [] => isTrue trivial
  | before, self, item :: items =>
    have := NeverAstray.decidable (before ++ (self.cut B item).1) (self.broken B item) items
    have := NeverAstray.decidable before (self.passed B item) items
    inferInstanceAs (Decidable (if self.Overflows B limit item then
      ¬self.Misled B May before item ∧
        NeverAstray B May limit (before ++ (self.cut B item).1) (self.broken B item) items
      else (self.Missed B May before item ∨ self.Misled B May before item →
        ¬BreaksUntold B limit (self.passed B item) items) ∧
          NeverAstray B May limit before (self.passed B item) items))

end Decidable

end Breaking

/-- A memory tells all opportunities behind some items. -/
def Breaker.TellsAll (B : Breaker α σ) (May : List α → α → Prop) (memory : σ) (items : List α) :
    Prop := ∀ item, May items item → B.opens memory item

/-- What is remembered agrees with the items, and behind one that fits it tells all
opportunities. -/
structure Breaker.Tells (B : Breaker α σ) (May : List α → α → Prop) (Agrees : σ → List α → Prop) :
    Prop where
  pass : ∀ {memory items} item, Agrees memory items → Agrees (B.pass memory item) (items ++ [item])
  wrap : ∀ {memory items} line item, Agrees memory items →
    Agrees (B.wrap memory line item) (items ++ [item])
  tellsAll : ∀ {memory items} item, Agrees memory items →
    B.TellsAll May (B.pass memory item) (items ++ [item])

namespace Breaking

variable {B : Breaker α σ} {limit : ℚ} {self : Breaking α σ} {item : α}
  {May : List α → α → Prop} {Agrees : σ → List α → Prop} {before : List α}

/-- What holds of a line that is filled: behind the last place that was told there is no
opportunity, and if there is such a place then all opportunities are told. -/
structure Filled (B : Breaker α σ) (May : List α → α → Prop) (Agrees : σ → List α → Prop)
    (before : List α) (state : Breaking α σ) : Prop where
  agrees : Agrees state.memory (before ++ state.line)
  told : state.front ≠ [] → B.TellsAll May state.memory (before ++ state.line) ∧
    NoneIn May (before ++ state.front) state.back

/-- The line has no opportunity, or it would be broken at one. -/
def Clean (May : List α → α → Prop) (before : List α) (state : Breaking α σ) : Prop :=
  if state.front = [] then NoneIn May before state.line
  else (∃ item items, state.back = item :: items ∧ May (before ++ state.front) item) ∨
    NoneIn May before state.front

theorem noneIn_singleton : NoneIn May before [item] := by
  intro front other back heq hne
  have hlength := congrArg List.length heq
  rw [List.length_singleton, List.length_append, List.length_cons] at hlength
  exact absurd (List.length_eq_zero_iff.mp (by omega)) hne

theorem NoneIn.concat {line : List α} (h : NoneIn May before line)
    (hitem : line ≠ [] → ¬May (before ++ line) item) : NoneIn May before (line ++ [item]) := by
  intro front other back heq hne
  rcases List.eq_nil_or_concat back with rfl | ⟨items, last, rfl⟩
  · obtain ⟨rfl, hlast⟩ := List.append_inj' heq rfl
    rw [← List.singleton_inj.mp hlast]
    exact hitem hne
  · rw [List.concat_eq_append, ← List.cons_append, ← List.append_assoc] at heq
    exact h front other items (List.append_inj' heq rfl).1 hne

theorem not_noneIn_of_may {line : List α} (hne : line ≠ []) (hmay : May (before ++ line) item)
    (rest : List α) : ¬NoneIn May before (line ++ item :: rest) :=
  fun h => h line item rest rfl hne hmay

theorem not_noneIn_concat {line : List α} (h : ¬NoneIn May before line) :
    ¬NoneIn May before (line ++ [item]) := by
  intro hnone
  refine h fun front other back heq hne => ?_
  refine hnone front other (back ++ [item]) ?_ hne
  rw [heq, List.append_assoc]
  rfl

theorem breaksWell_cons {line next : σ × List α} {lines : List (σ × List α)} :
    BreaksWell May before (line :: next :: lines) ↔
      (∀ item ∈ next.2.head?, ¬May (before ++ line.2) item → NoneIn May before line.2) ∧
        BreaksWell May (before ++ line.2) (next :: lines) := Iff.rfl

/-- Only the items of the lines matter. -/
theorem breaksWell_map (f : σ × List α → τ × List α) (hf : ∀ line, (f line).2 = line.2) :
    ∀ (lines : List (σ × List α)) {before : List α},
      BreaksWell May before (lines.map f) ↔ BreaksWell May before lines
  | [], _ => Iff.rfl
  | [_], _ => Iff.rfl
  | line :: next :: lines, before => by
    have ih := @breaksWell_map f hf (next :: lines) (before ++ line.2)
    rw [List.map_cons] at ih
    rw [List.map_cons, List.map_cons, breaksWell_cons, breaksWell_cons, hf, hf, ih]

theorem breakLines_head (items : List α) {self : Breaking α σ} (hne : self.line ≠ []) :
    ∃ line lines, self.breakLines B limit items = line :: lines ∧
      line.2.head? = self.line.head? := by
  induction items generalizing self with
  | nil => exact ⟨_, [], rfl, rfl⟩
  | cons item items ih =>
    by_cases h : self.Overflows B limit item
    · refine ⟨_, _, breakLines_overflows items h, ?_⟩
      have hcut : (self.cut B item).1 ≠ [] := (cut_ne_nil h.1).1
      obtain ⟨rest, hrest⟩ : (self.cut B item).1 <+: self.line := cut_prefix
      rw [← hrest, List.head?_append_of_ne_nil _ hcut]
    · rw [breakLines_fits items h]
      obtain ⟨line, lines, heq, hhead⟩ := @ih (self.passed B item) (by rw [line_passed]; simp)
      refine ⟨line, lines, heq, ?_⟩
      rw [hhead, line_passed, List.head?_append_of_ne_nil _ hne]

/-! ### Going astray -/

/-- Behind a break nothing was told yet, and what is on the line has no opportunity. -/
theorem Filled.noneIn_cut (h : self.Filled B May Agrees before) :
    NoneIn May (before ++ (self.cut B item).1) (self.cut B item).2 := by
  by_cases hopens : B.opens self.memory item
  · rw [cut_opens hopens]
    exact noneIn_singleton
  · by_cases hfront : self.front = []
    · rw [cut_bare hfront]
      exact noneIn_singleton
    · obtain ⟨htells, hback⟩ := h.told hfront
      rw [cut_front hopens hfront]
      refine hback.concat fun _ hmay => ?_
      rw [List.append_assoc] at hmay
      exact hopens (htells item hmay)

theorem Filled.broken (hB : B.Tells May Agrees) (h : self.Filled B May Agrees before) :
    (self.broken B item).Filled B May Agrees (before ++ (self.cut B item).1) ∧
      (self.broken B item).Clean May (before ++ (self.cut B item).1) := by
  refine ⟨⟨?_, fun hne => absurd rfl hne⟩, ?_⟩
  · rw [line_broken, List.append_assoc, cut_append, ← List.append_assoc]
    exact hB.wrap _ item h.agrees
  · rw [Clean, if_pos (show (self.broken B item).front = [] from rfl)]
    exact h.noneIn_cut

theorem Filled.tellsAll_passed (hB : B.Tells May Agrees) (h : self.Filled B May Agrees before) :
    B.TellsAll May (self.passed B item).memory (before ++ (self.passed B item).line) := by
  rw [line_passed, ← List.append_assoc]
  exact hB.tellsAll item h.agrees

theorem Filled.passed (hB : B.Tells May Agrees) (h : self.Filled B May Agrees before) :
    (self.passed B item).Filled B May Agrees before := by
  refine ⟨?_, fun hne => ⟨h.tellsAll_passed hB, ?_⟩⟩
  · rw [line_passed, ← List.append_assoc]
    exact hB.pass item h.agrees
  · by_cases hopens : B.opens self.memory item
    · rw [Breaking.passed, visit_opens hopens]
      exact noneIn_singleton
    · rw [Breaking.passed, visit_not_opens hopens] at hne ⊢
      obtain ⟨htells, hback⟩ := h.told hne
      refine hback.concat fun _ hmay => hopens (htells item ?_)
      rwa [List.append_assoc] at hmay

/-- At an item that is told the line is clean, unless the item misleads. -/
theorem clean_passed_opens (hopens : B.opens self.memory item) :
    (self.passed B item).Clean May before ↔ ¬self.Misled B May before item := by
  have hpassed : self.passed B item = ⟨B.pass self.memory item, self.line, [item]⟩ := by
    rw [passed, visit_opens hopens]
  rw [hpassed, Clean, Misled]
  by_cases hnil : self.line = []
  · -- nothing was on the line, so no place is told
    rw [if_pos hnil]
    refine iff_of_true ?_ fun hmisled => hmisled.2.2 ?_
    · show NoneIn May before (self.line ++ [item])
      rw [hnil]
      exact noneIn_singleton
    · rw [hnil]
      intro front other back heq
      exact absurd heq (by simp)
  · rw [if_neg hnil]
    constructor
    · rintro hclean ⟨-, hmay, hnone⟩
      rcases hclean with ⟨other, items, hback, hother⟩ | hclean
      · obtain rfl := (List.cons.inj hback).1
        exact hmay hother
      · exact hnone hclean
    · intro hnot
      by_cases hmay : May (before ++ self.line) item
      · exact .inl ⟨item, [], rfl, hmay⟩
      · refine .inr (by_contra fun hnone => hnot ⟨hopens, hmay, hnone⟩)

/-- At one that is not told it stays clean, unless an opportunity is missed. -/
theorem clean_passed_not_opens (h : self.Filled B May Agrees before)
    (hopens : ¬B.opens self.memory item) :
    (self.passed B item).Clean May before ↔
      self.Clean May before ∧ ¬self.Missed B May before item := by
  have hpassed : self.passed B item =
      ⟨B.pass self.memory item, self.front, self.back ++ [item]⟩ := by
    rw [passed, visit_not_opens hopens]
  have hline : (self.passed B item).line = self.line ++ [item] := line_passed
  rw [Clean, Clean, hline, hpassed]
  by_cases hfront : self.front = []
  · rw [if_pos hfront, if_pos hfront]
    constructor
    · intro hnone
      refine ⟨?_, fun hmissed => not_noneIn_of_may hmissed.1 hmissed.2.1 [] hnone⟩
      by_contra hnot
      exact not_noneIn_concat hnot hnone
    · rintro ⟨hnone, hmissed⟩
      exact hnone.concat fun hne hmay => hmissed ⟨hne, hmay, hopens⟩
  · rw [if_neg hfront, if_neg hfront]
    have hmissed : ¬self.Missed B May before item := fun hmissed =>
      hopens ((h.told hfront).1 item hmissed.2.1)
    rw [and_iff_left hmissed]
    refine or_congr ⟨?_, ?_⟩ Iff.rfl
    · rintro ⟨other, items, hback, hmay⟩
      cases hitems : self.back with
      | nil =>
        -- the place would be in front of the item itself, which was not told
        have hself : self.line = self.front := by rw [line, hitems, List.append_nil]
        rw [hitems] at hback
        obtain rfl := (List.cons.inj hback).1
        exact absurd ((h.told hfront).1 item (by rwa [hself])) hopens
      | cons first rest =>
        rw [hitems] at hback
        exact ⟨first, rest, rfl, (List.cons.inj hback).1 ▸ hmay⟩
    · rintro ⟨other, items, hback, hmay⟩
      exact ⟨other, items ++ [item], by rw [hback]; rfl, hmay⟩

/-- The first break is right exactly if the line is clean, or the item does not mislead. -/
theorem breaks_iff (h : self.Filled B May Agrees before)
    (htells : self.Clean May before ∨ B.TellsAll May self.memory (before ++ self.line)) :
    (∀ next ∈ (self.cut B item).2.head?, ¬May (before ++ (self.cut B item).1) next →
        NoneIn May before (self.cut B item).1) ↔
      if B.opens self.memory item then ¬self.Misled B May before item
      else self.Clean May before := by
  by_cases hopens : B.opens self.memory item
  · rw [if_pos hopens, cut_opens hopens, Misled]
    constructor
    · rintro hall ⟨-, hmay, hnone⟩
      exact hnone (hall item rfl hmay)
    · intro hnot next hnext hmay
      obtain rfl := Option.some.inj hnext
      by_contra hnone
      exact hnot ⟨hopens, hmay, hnone⟩
  · rw [if_neg hopens]
    by_cases hfront : self.front = []
    · rw [cut_bare hfront, Clean, if_pos hfront]
      constructor
      · intro hall
        rcases htells with hclean | htells
        · rwa [Clean, if_pos hfront] at hclean
        · exact hall item rfl fun hmay => hopens (htells item hmay)
      · exact fun hnone _ _ _ => hnone
    · rw [cut_front hopens hfront, Clean, if_neg hfront]
      obtain ⟨htold, -⟩ := h.told hfront
      constructor
      · intro hall
        cases hback : self.back with
        | nil =>
          have hself : self.line = self.front := by rw [line, hback, List.append_nil]
          rw [hback] at hall
          exact .inr (hall item rfl fun hmay => hopens (htold item (by rwa [hself])))
        | cons first rest =>
          by_cases hmay : May (before ++ self.front) first
          · exact .inl ⟨first, rest, rfl, hmay⟩
          · exact .inr (hall first (by rw [hback]; rfl) hmay)
      · rintro (⟨first, rest, hback, hmay⟩ | hnone) next hnext hnot
        · rw [hback] at hnext
          obtain rfl := Option.some.inj hnext
          exact absurd hmay hnot
        · exact hnone

/-- A line that went astray is broken well if another place is told in front of the break. -/
theorem breaksWell_iff_of_filled (hB : B.Tells May Agrees) (items : List α) :
    ∀ {self : Breaking α σ} {before : List α}, self.Filled B May Agrees before →
      (self.Clean May before → (BreaksWell May before (self.breakLines B limit items) ↔
        NeverAstray B May limit before self items)) ∧
      (¬self.Clean May before → B.TellsAll May self.memory (before ++ self.line) →
        (BreaksWell May before (self.breakLines B limit items) ↔
          ¬self.BreaksUntold B limit items ∧ NeverAstray B May limit before self items)) := by
  induction items with
  | nil =>
    intro self before _
    exact ⟨fun _ => iff_of_true trivial trivial, fun _ _ => iff_of_true trivial ⟨id, trivial⟩⟩
  | cons item items ih =>
    intro self before hself
    by_cases h : self.Overflows B limit item
    · -- the next line begins with what is behind the break, and it is clean
      have hne : (self.broken B item).line ≠ [] := (cut_ne_nil h.1).2
      obtain ⟨next, lines, heq, hhead⟩ := @breakLines_head _ _ B limit items _ hne
      obtain ⟨hfilled, hclean⟩ : _ ∧ (self.broken B item).Clean May _ := hself.broken hB
      have hrest := (ih hfilled).1 hclean
      rw [heq] at hrest
      rw [breakLines_overflows items h, heq, breaksWell_cons, hhead, line_broken, NeverAstray,
        if_pos h, hrest]
      have hmisled : ¬B.opens self.memory item → ¬self.Misled B May before item :=
        fun hopens hmisled => hopens hmisled.1
      refine ⟨fun hself' => ?_, fun hnot htells => ?_⟩
      · rw [breaks_iff hself (.inl hself')]
        refine and_congr_left' ?_
        split
        · exact Iff.rfl
        · exact iff_of_true hself' (hmisled ‹_›)
      · rw [breaks_iff hself (.inr htells), BreaksUntold, ← and_assoc]
        refine and_congr_left' ?_
        split
        · next hopens => exact (and_iff_right fun huntold => huntold.1 hopens).symm
        · next hopens => exact iff_of_false hnot fun hall => hall.1 ⟨hopens, .inl h⟩
    · rw [breakLines_fits items h, NeverAstray, if_neg h]
      have hfilled : (self.passed B item).Filled B May Agrees before := hself.passed hB
      have htells : B.TellsAll May (self.passed B item).memory
          (before ++ (self.passed B item).line) := hself.tellsAll_passed hB
      obtain ⟨hclean, hdirty⟩ := ih hfilled
      by_cases hopens : B.opens self.memory item
      · -- the place that is told takes the place of the last one
        have hmissed : ¬self.Missed B May before item := fun hmissed => hmissed.2.2 hopens
        have hlater : ¬self.BreaksUntold B limit (item :: items) := fun huntold =>
          huntold.1 hopens
        have hnext : BreaksWell May before ((self.passed B item).breakLines B limit items) ↔
            (self.Missed B May before item ∨ self.Misled B May before item →
              ¬BreaksUntold B limit (self.passed B item) items) ∧
              NeverAstray B May limit before (self.passed B item) items := by
          -- the last place may be no opportunity, and then the line is astray from here
          by_cases hmisled : self.Misled B May before item
          · rw [hdirty (mt (clean_passed_opens hopens).mp (not_not.mpr hmisled)) htells]
            exact and_congr_left' ⟨fun hrest _ => hrest, fun hrest => hrest (.inr hmisled)⟩
          · rw [hclean ((clean_passed_opens hopens).mpr hmisled)]
            exact (and_iff_right fun hor => absurd hor (not_or.mpr ⟨hmissed, hmisled⟩)).symm
        exact ⟨fun _ => hnext, fun _ _ => hnext.trans (and_iff_right hlater).symm⟩
      · have hmisled : ¬self.Misled B May before item := fun hmisled => hopens hmisled.1
        have hpassed := clean_passed_not_opens hself hopens
        refine ⟨fun hself' => ?_, fun hnot htells' => ?_⟩
        · -- an opportunity may be missed here, and then the line is astray from here
          by_cases hmissed : self.Missed B May before item
          · rw [hdirty (fun hclean' => (hpassed.mp hclean').2 hmissed) htells]
            exact and_congr_left' ⟨fun hrest _ => hrest, fun hrest => hrest (.inl hmissed)⟩
          · rw [hclean (hpassed.mpr ⟨hself', hmissed⟩)]
            exact (and_iff_right fun hor => absurd hor (not_or.mpr ⟨hmissed, hmisled⟩)).symm
        · -- the line stays astray, and nothing was missed at this item
          have hmissed : ¬self.Missed B May before item := fun hmissed =>
            hopens (htells' item hmissed.2.1)
          rw [hdirty (fun hclean' => hnot (hpassed.mp hclean').1) htells, BreaksUntold]
          refine ⟨fun hall => ⟨fun huntold => ?_, ?_, hall.2⟩, fun hall =>
            ⟨fun hlater => ?_, hall.2.2⟩⟩
          · exact hall.1 (huntold.2.resolve_left h)
          · exact fun hor => absurd hor (not_or.mpr ⟨hmissed, hmisled⟩)
          · exact hall.1 ⟨hopens, .inr hlater⟩

/-- Each line that is not broken at an opportunity has none, exactly if no line goes astray. -/
theorem breaksWell_iff (hB : B.Tells May Agrees) (items : List α)
    (hself : self.Filled B May Agrees before) (hclean : self.Clean May before) :
    BreaksWell May before (self.breakLines B limit items) ↔
      NeverAstray B May limit before self items :=
  (breaksWell_iff_of_filled hB items hself).1 hclean

end Breaking

end Zui
