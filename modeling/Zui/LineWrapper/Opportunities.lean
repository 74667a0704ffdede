/-
Where `wrap_line` breaks a line.

A line is to be broken in front of a word behind a space, of anything else that is no space and is
not behind a word, or of an element behind a space.  The loop goes by a character, which it neither
updates when it returns a boundary nor behind an element.  So it may miss an opportunity right
behind the item that did not fit, and it may take a place behind an element for one.  And what is
left behind a break is not measured again until the next item is on the line.

Main statements:

* `wrapLine_correct_iff` — when the lines are right;
* `wide_rest_overflows`, `opportunity_is_missed`, `element_misleads` — texts for which they are not.
-/
import Zui.LineWrapper.WrapLine

namespace Zui.LineWrapper

open TextSystem (Pixels isWordChar)

/-- Whether something in the items is no space. -/
def seenIn (items : List WrapBoundaryCandidate) : Bool := items.any fun item => !item.isBlank

/-- A line may be broken in front of an item behind another one: of a word behind a space, of what
is neither a word nor a space behind a space or something that is no word, or of an element behind a
space. -/
def MayFollow : Option WrapBoundaryCandidate → WrapBoundaryCandidate → Prop
  | some (.char prevC), .char c =>
    (isWordChar c ∧ prevC = ' ') ∨
      (¬isWordChar c ∧ c ≠ ' ' ∧ (prevC = ' ' ∨ ¬isWordChar prevC))
  | some (.char prevC), .element _ _ => prevC = ' '
  | _, _ => False

/-- There is an opportunity in front of an item, behind the first one that is no space. -/
def Opportunity (before : List WrapBoundaryCandidate) (item : WrapBoundaryCandidate) : Prop :=
  seenIn before ∧ MayFollow before.getLast? item

instance MayFollow.decidable :
    ∀ (prev : Option WrapBoundaryCandidate) (item : WrapBoundaryCandidate),
      Decidable (MayFollow prev item)
  | some (.char prevC), .char c =>
    inferInstanceAs (Decidable ((isWordChar c ∧ prevC = ' ') ∨
      (¬isWordChar c ∧ c ≠ ' ' ∧ (prevC = ' ' ∨ ¬isWordChar prevC))))
  | some (.char prevC), .element _ _ => inferInstanceAs (Decidable (prevC = ' '))
  | some (.element _ _), _ => isFalse id
  | none, _ => isFalse id

instance (before : List WrapBoundaryCandidate) (item : WrapBoundaryCandidate) :
    Decidable (Opportunity before item) :=
  inferInstanceAs (Decidable (seenIn before ∧ MayFollow before.getLast? item))

/-- Fragments without newlines, of which the elements stand for some text, and no width is
negative. -/
structure WellFormed (widthForChar : Char → Pixels) (fragments : List LineFragment) : Prop where
  width : ∀ c, 0 ≤ widthForChar c
  text : ∀ s, .text s ∈ fragments → '\n' ∉ s.toList
  element : ∀ width len, .element width len ∈ fragments → 0 ≤ width ∧ 0 < len

/-- The lines between some boundaries are right: the boundaries are increasing, and each is where an
item begins; each line with its indent is one item or not wider than the wrap width, and is broken
at an opportunity if there is one on it. -/
structure WrapsCorrectly (widthForChar : Char → Pixels) (wrapWidth : Pixels)
    (items : List WrapBoundaryCandidate) (boundaries : List Boundary) : Prop where
  increasing : (0 :: boundaries.map Boundary.ix).Pairwise (· < ·)
  starts : ∀ boundary ∈ boundaries, ∃ before item after, items = before ++ item :: after ∧
    boundary.ix = lenOf before
  lines : ∃ lines, Cuts items boundaries lines ∧
    (∀ line ∈ lines, line.2.length ≤ 1 ∨
      widthForChar ' ' * line.1 + (line.2.map fun item => item.itemWidth widthForChar).sum ≤
        wrapWidth) ∧
    Breaking.BreaksWell Opportunity [] lines

/-! ### The character in front -/

theorem seenIn_concat (items : List WrapBoundaryCandidate) (item : WrapBoundaryCandidate) :
    seenIn (items ++ [item]) = (seenIn items || !item.isBlank) := by
  rw [seenIn, List.any_append]
  simp [seenIn]

theorem isWordChar_space : isWordChar ' ' = false := by decide +kernel

/-- Behind a character an opportunity is what the loop takes for one. -/
theorem opens_of_opportunity {items : List WrapBoundaryCandidate} {prevC : Char}
    {item : WrapBoundaryCandidate} (h : Opportunity (items ++ [.char prevC]) item) :
    item.opens prevC (seenIn (items ++ [.char prevC])) := by
  obtain ⟨hseen, hmay⟩ := h
  rw [List.getLast?_concat] at hmay
  rw [hseen]
  cases item with
  | element width len =>
    rw [WrapBoundaryCandidate.opens, Bool.and_true, beq_iff_eq]
    exact hmay
  | char c =>
    rw [WrapBoundaryCandidate.opens]
    rcases hmay with ⟨hword, rfl⟩ | ⟨hword, hc, hprev⟩
    · have hspace : c ≠ ' ' := by
        rintro rfl
        rw [isWordChar_space] at hword
        exact absurd hword (by simp)
      simp [hword, hspace]
    · have hbehind : isWordChar prevC = false := by
        rcases hprev with rfl | hprev
        · exact isWordChar_space
        · exact Bool.not_eq_true _ ▸ hprev
      simp [hword, hc, hbehind]

theorem not_opportunity_element (items : List WrapBoundaryCandidate) (width : Pixels) (len : ℕ)
    (item : WrapBoundaryCandidate) : ¬Opportunity (items ++ [.element width len]) item := by
  rintro ⟨-, hmay⟩
  rw [List.getLast?_concat] at hmay
  exact hmay

/-- The loop knows whether something in front was no space. -/
def Sees (memory : Memory) (items : List WrapBoundaryCandidate) : Prop :=
  memory.firstNonWhitespaceIx.isSome = seenIn items

theorem Sees.visit {memory : Memory} {items : List WrapBoundaryCandidate} (h : Sees memory items)
    (item : WrapBoundaryCandidate) : Sees (memory.visit item) (items ++ [item]) := by
  rw [Sees] at h ⊢
  rw [seenIn_concat, ← h, Memory.visit]
  cases memory.firstNonWhitespaceIx <;> cases item.isBlank <;> rfl

/-- Behind an item that fits no opportunity is missed: the character is that in front of the next
item, or there is an element in front of it. -/
theorem breaker_tells (widthForChar : Char → Pixels) :
    (breaker widthForChar).Tells Opportunity Sees := by
  refine ⟨fun item h => h.visit item, fun line item h => h.visit item, ?_⟩
  intro memory items item h other hmay
  cases item with
  | element width len => exact absurd hmay (not_opportunity_element items width len other)
  | char c =>
    have hsees : (memory.visit (.char c)).firstNonWhitespaceIx.isSome =
        seenIn (items ++ [.char c]) := h.visit (.char c)
    show other.opens c (memory.visit (.char c)).firstNonWhitespaceIx.isSome
    rw [hsees]
    exact opens_of_opportunity hmay

/-! ### The lines -/

section Lines

variable {lines : List (ℕ × List WrapBoundaryCandidate)}

/-- Every boundary is behind the start, where a line that is not empty begins. -/
theorem lt_of_mem_boundariesFrom (start : ℕ) (hne : ∀ line ∈ lines, line.2 ≠ [])
    (hlen : ∀ line ∈ lines, ∀ item ∈ line.2, 0 < item.lenUtf8) :
    ∀ boundary ∈ boundariesFrom start lines, start < boundary.ix := by
  induction lines generalizing start with
  | nil =>
    intro boundary hboundary
    cases hboundary
  | cons line lines ih =>
    cases lines with
    | nil =>
      intro boundary hboundary
      cases hboundary
    | cons next lines =>
      have hpos := lenOf_pos (hlen line List.mem_cons_self) (hne line List.mem_cons_self)
      intro boundary hboundary
      rw [boundariesFrom] at hboundary
      rcases List.mem_cons.mp hboundary with rfl | hboundary
      · dsimp only
        omega
      · have hlt := ih (start + lenOf line.2)
          (fun other hother => hne other (List.mem_cons_of_mem _ hother))
          (fun other hother => hlen other (List.mem_cons_of_mem _ hother)) boundary hboundary
        omega

theorem increasing_boundariesFrom (start : ℕ) (hne : ∀ line ∈ lines, line.2 ≠ [])
    (hlen : ∀ line ∈ lines, ∀ item ∈ line.2, 0 < item.lenUtf8) :
    (start :: (boundariesFrom start lines).map Boundary.ix).Pairwise (· < ·) := by
  induction lines generalizing start with
  | nil => exact List.pairwise_singleton _ _
  | cons line lines ih =>
    refine List.Pairwise.cons ?_ ?_
    · intro ix hix
      obtain ⟨boundary, hboundary, rfl⟩ := List.mem_map.mp hix
      exact lt_of_mem_boundariesFrom start hne hlen boundary hboundary
    · cases lines with
      | nil => exact List.Pairwise.nil
      | cons next lines =>
        exact ih (start + lenOf line.2)
          (fun other hother => hne other (List.mem_cons_of_mem _ hother))
          fun other hother => hlen other (List.mem_cons_of_mem _ hother)

theorem starts_boundariesFrom (front : List WrapBoundaryCandidate)
    (hne : ∀ line ∈ lines, line.2 ≠ []) :
    ∀ boundary ∈ boundariesFrom (lenOf front) lines, ∃ before item after,
      front ++ (lines.map Prod.snd).flatten = before ++ item :: after ∧
        boundary.ix = lenOf before := by
  induction lines generalizing front with
  | nil =>
    intro boundary hboundary
    cases hboundary
  | cons line lines ih =>
    cases lines with
    | nil =>
      intro boundary hboundary
      cases hboundary
    | cons next lines =>
      intro boundary hboundary
      rw [boundariesFrom, ← lenOf_append] at hboundary
      rw [List.map_cons, List.flatten_cons, ← List.append_assoc]
      rcases List.mem_cons.mp hboundary with rfl | hboundary
      · obtain ⟨item, items, hitems⟩ := List.exists_cons_of_ne_nil
          (hne next (List.mem_cons_of_mem _ List.mem_cons_self))
        refine ⟨front ++ line.2, item, items ++ (lines.map Prod.snd).flatten, ?_, rfl⟩
        rw [List.map_cons, List.flatten_cons, hitems]
        rfl
      · exact ih (front ++ line.2) (fun other hother => hne other (List.mem_cons_of_mem _ hother))
          boundary hboundary

end Lines

section Items

variable {widthForChar : Char → Pixels} {wrapWidth : Pixels} {items : List WrapBoundaryCandidate}

theorem cuts_wrapItems (hnewline : ∀ item ∈ items, item ≠ .char '\n')
    (hlen : ∀ item ∈ items, 0 < item.lenUtf8) :
    Cuts items (Wrapping.new.wrapItems widthForChar wrapWidth items)
      (Wrapping.indented (Wrapping.start.breakLines (breaker widthForChar) wrapWidth items)) := by
  refine ⟨?_, ?_, ?_⟩
  · rw [Wrapping.indented, List.map_map]
    exact Breaking.flatten_breakLines items
  · exact (Wrapping.wrapItems_eq items Wrapping.follows_new hnewline hlen).symm
  · obtain ⟨first, lines, hlines, hindent⟩ := @Wrapping.indent_head widthForChar wrapWidth
      Wrapping.start items
    refine ⟨first.2, Wrapping.indented lines, ?_⟩
    rw [hlines, Wrapping.indented, List.map_cons, hindent]
    rfl

/-- The lines between the boundaries are right exactly if what is left behind a break is never too
wide, and no line goes astray. -/
theorem wrapItems_correct_iff (hnewline : ∀ item ∈ items, item ≠ .char '\n')
    (hlen : ∀ item ∈ items, 0 < item.lenUtf8)
    (hwidth : ∀ item ∈ items, 0 ≤ item.itemWidth widthForChar) :
    WrapsCorrectly widthForChar wrapWidth items
        (Wrapping.new.wrapItems widthForChar wrapWidth items) ↔
      Wrapping.start.NeverWide (breaker widthForChar) wrapWidth items ∧
        Breaking.NeverAstray (breaker widthForChar) Opportunity wrapWidth []
          Wrapping.start items := by
  have hcuts := @cuts_wrapItems widthForChar wrapWidth items hnewline hlen
  have hfits := @Breaking.fits_breakLines_iff _ _ (breaker widthForChar) wrapWidth (fun _ _ => rfl)
    items Wrapping.start hwidth (.inl (Nat.zero_le 1))
  have hfilled : Wrapping.start.Filled (breaker widthForChar) Opportunity Sees [] :=
    ⟨rfl, fun hne => absurd rfl hne⟩
  -- nothing is on the first line yet, so nothing was missed
  have hclean : Wrapping.start.Clean Opportunity [] := by
    rw [Breaking.Clean, if_pos (show Wrapping.start.front = [] from rfl)]
    intro front item back heq
    exact absurd heq (by simp [Wrapping.start, Breaking.line])
  have hbreaks : Breaking.BreaksWell Opportunity []
      (Wrapping.start.breakLines (breaker widthForChar) wrapWidth items) ↔ _ :=
    Breaking.breaksWell_iff (breaker_tells widthForChar) items hfilled hclean
  rw [← hfits, ← hbreaks]
  set lines := Wrapping.start.breakLines (breaker widthForChar) wrapWidth items with hlines
  -- the lines of the loop and the specification's have the same indents
  have hfits' : (∀ line ∈ Wrapping.indented lines, line.2.length ≤ 1 ∨
      widthForChar ' ' * line.1 + (line.2.map fun item => item.itemWidth widthForChar).sum ≤
        wrapWidth) ↔ ∀ line ∈ lines, Breaking.Fits (breaker widthForChar) wrapWidth line := by
    rw [Wrapping.indented, List.forall_mem_map]
    rfl
  have hbreaks' : Breaking.BreaksWell Opportunity [] (Wrapping.indented lines) ↔
      Breaking.BreaksWell Opportunity [] lines :=
    Breaking.breaksWell_map (fun line : Memory × List WrapBoundaryCandidate =>
      (line.1.indent.getD 0, line.2)) (fun _ => rfl) lines
  constructor
  · intro h
    obtain ⟨lines', hcuts', hfit, hbreak⟩ := h.lines
    -- the boundaries determine the lines
    rw [cuts_unique hlen hcuts' hcuts] at hfit hbreak
    exact ⟨hfits'.mp hfit, hbreaks'.mp hbreak⟩
  · rintro ⟨hfit, hbreak⟩
    have hall : ∀ line ∈ Wrapping.indented lines, ∀ item ∈ line.2, 0 < item.lenUtf8 := by
      intro line hline item hitem
      refine hlen item ?_
      rw [← hcuts.items]
      exact List.mem_flatten.mpr ⟨line.2, List.mem_map_of_mem hline, hitem⟩
    have hne : items ≠ [] → ∀ line ∈ Wrapping.indented lines, line.2 ≠ [] := by
      intro hitems line hline
      obtain ⟨other, hother, rfl⟩ := List.mem_map.mp hline
      have hstart : Wrapping.start.line ++ items ≠ [] := hitems
      exact Breaking.ne_nil_of_mem_breakLines items hstart other hother
    refine ⟨?_, ?_, _, hcuts, hfits'.mpr hfit, hbreaks'.mpr hbreak⟩
    · rcases eq_or_ne items [] with rfl | hitems
      · exact List.pairwise_singleton _ _
      · rw [← hcuts.boundaries]
        exact increasing_boundariesFrom 0 (hne hitems) hall
    · rcases eq_or_ne items [] with rfl | hitems
      · intro boundary hboundary
        cases hboundary
      · intro boundary hboundary
        rw [← hcuts.boundaries] at hboundary
        obtain ⟨before, item, after, heq, hix⟩ := starts_boundariesFrom [] (hne hitems) boundary
          hboundary
        refine ⟨before, item, after, ?_, hix⟩
        rw [← hcuts.items, ← heq]
        rfl

end Items

theorem WellFormed.items {widthForChar : Char → Pixels} {fragments : List LineFragment}
    (h : WellFormed widthForChar fragments) :
    ∀ item ∈ fragments.flatMap LineFragment.wrapBoundaryCandidates,
      item ≠ .char '\n' ∧ 0 < item.lenUtf8 ∧ 0 ≤ item.itemWidth widthForChar := by
  intro item hitem
  obtain ⟨fragment, hfragment, hitem⟩ := List.mem_flatMap.mp hitem
  cases fragment with
  | text s =>
    obtain ⟨c, hc, rfl⟩ := List.mem_map.mp hitem
    refine ⟨?_, Char.utf8Size_pos c, h.width c⟩
    rintro ⟨⟩
    exact h.text s hfragment hc
  | element width len =>
    rw [List.mem_singleton.mp hitem]
    obtain ⟨hwidth, hlen⟩ := h.element width len hfragment
    exact ⟨by simp, hlen, hwidth⟩

/-- The lines of `wrap_line` are right exactly if, at every break at a place that was taken for an
opportunity, what is left behind it with the item that did not fit is one item or fits on the next
line, and no line goes astray: none that has missed an opportunity, which is right behind an item
that did not fit, is broken before it has another one, and none that has an opportunity is broken
behind an element at a place that is none. -/
theorem wrapLine_correct_iff {widthForChar : Char → Pixels} {fragments : List LineFragment}
    (h : WellFormed widthForChar fragments) (wrapWidth : Pixels) :
    let items := fragments.flatMap LineFragment.wrapBoundaryCandidates
    WrapsCorrectly widthForChar wrapWidth items (wrapLine widthForChar fragments wrapWidth) ↔
      Wrapping.start.NeverWide (breaker widthForChar) wrapWidth items ∧
        Breaking.NeverAstray (breaker widthForChar) Opportunity wrapWidth [] Wrapping.start items :=
  wrapItems_correct_iff (fun item hitem => (h.items item hitem).1)
    (fun item hitem => (h.items item hitem).2.1) fun item hitem => (h.items item hitem).2.2

/-- Characters that are one pixel wide, but for one. -/
def oneWide (c : Char) : Pixels := if c = 'M' then 10 else 1

theorem wellFormed_oneWide (s : String) (h : '\n' ∉ s.toList) : WellFormed oneWide [.text s] := by
  refine ⟨?_, ?_, ?_⟩
  · intro c
    rw [oneWide]
    split <;> norm_num
  · rintro s' hs'
    rw [LineFragment.text.inj (List.mem_singleton.mp hs')]
    exact h
  · intro width len helement
    cases List.mem_singleton.mp helement

theorem wrapLine_correct_words :
    WrapsCorrectly oneWide 7 (LineFragment.text "  aaa bbb cc ddddd").wrapBoundaryCandidates
      (wrapLine oneWide [.text "  aaa bbb cc ddddd"] 7) := by
  have hcorrect := (wrapLine_correct_iff
    (wellFormed_oneWide "  aaa bbb cc ddddd" (by decide)) 7).mpr
    ⟨by decide +kernel, by decide +kernel⟩
  exact hcorrect

/-- A wide character and the one in front of it are put on one line, behind the word that they were
broken off from. -/
theorem wide_rest_overflows :
    WellFormed oneWide [.text "a bM c"] ∧
      ¬WrapsCorrectly oneWide 10 (LineFragment.text "a bM c").wrapBoundaryCandidates
        (wrapLine oneWide [.text "a bM c"] 10) := by
  refine ⟨wellFormed_oneWide _ (by decide), fun h => ?_⟩
  have hconditions := (wrapItems_correct_iff
    (by decide) (by decide +kernel) (by decide +kernel)).mp h
  exact absurd hconditions.1 (by decide +kernel)

/-- A word that a line begins with, behind the space that did not fit, is broken, though the line
may be broken in front of it. -/
theorem opportunity_is_missed :
    WellFormed oneWide [.text "aaaa bbbbbb"] ∧
      ¬WrapsCorrectly oneWide 4 (LineFragment.text "aaaa bbbbbb").wrapBoundaryCandidates
        (wrapLine oneWide [.text "aaaa bbbbbb"] 4) := by
  refine ⟨wellFormed_oneWide _ (by decide), fun h => ?_⟩
  have hconditions := (wrapItems_correct_iff
    (by decide) (by decide +kernel) (by decide +kernel)).mp h
  exact absurd hconditions.2 (by decide +kernel)

/-- A line is broken between an element and a word behind it, since the loop still goes by the space
in front of the element, though the line may be broken in front of the element. -/
theorem element_misleads :
    wrapLine oneWide [.text "x ", .element 1 1, .text "bcd"] 4 = [⟨3, 0⟩] ∧
      Opportunity [.char 'x', .char ' '] (.element 1 1) ∧
      ¬Opportunity [.char 'x', .char ' ', .element 1 1] (.char 'b') := by
  decide +kernel

end Zui.LineWrapper
