/-
Wrapping a line.

`wrap_line` breaks the items as a `Breaker` does, whose memory is that of its variables that tell
where a line may be broken and how far the next one is indented.

Main statements:

* `wrapItems_eq` — the boundaries are where the lines of the breaker begin;
* `cuts_unique` — boundaries cut the items into lines in one way.
-/
import Zui.LineWrapper.Basic
import Zui.Library.Breaking

namespace Zui.LineWrapper

open TextSystem (Pixels isWordChar)

/-- How many bytes some items are long. -/
def lenOf (items : List WrapBoundaryCandidate) : ℕ :=
  (items.map WrapBoundaryCandidate.lenUtf8).sum

/-- The boundaries of some lines, each with its indent, of which the first begins at an index. -/
def boundariesFrom (start : ℕ) : List (ℕ × List WrapBoundaryCandidate) → List Boundary
  | line :: next :: lines =>
    ⟨start + lenOf line.2, next.1⟩ :: boundariesFrom (start + lenOf line.2) (next :: lines)
  | _ => []

/-- Boundaries cut some items into lines, each with its indent. -/
structure Cuts (items : List WrapBoundaryCandidate) (boundaries : List Boundary)
    (lines : List (ℕ × List WrapBoundaryCandidate)) : Prop where
  items : (lines.map Prod.snd).flatten = items
  boundaries : boundariesFrom 0 lines = boundaries
  first : ∃ line rest, lines = (0, line) :: rest

/-! ### Lengths -/

theorem lenOf_nil : lenOf [] = 0 := rfl

@[simp] theorem lenOf_append (items items' : List WrapBoundaryCandidate) :
    lenOf (items ++ items') = lenOf items + lenOf items' := by
  rw [lenOf, List.map_append, List.sum_append]
  rfl

@[simp] theorem lenOf_singleton (item : WrapBoundaryCandidate) : lenOf [item] = item.lenUtf8 := by
  rw [lenOf, List.map_singleton, List.sum_singleton]

theorem lenOf_cons (item : WrapBoundaryCandidate) (items : List WrapBoundaryCandidate) :
    lenOf (item :: items) = item.lenUtf8 + lenOf items := by
  rw [lenOf, List.map_cons, List.sum_cons]
  rfl

theorem lenOf_pos {items : List WrapBoundaryCandidate} (hlen : ∀ item ∈ items, 0 < item.lenUtf8)
    (hne : items ≠ []) : 0 < lenOf items := by
  cases items with
  | nil => exact absurd rfl hne
  | cons item items =>
    have hitem := hlen item List.mem_cons_self
    rw [lenOf_cons]
    omega

/-- Two beginnings of the same items that are as long are the same. -/
theorem eq_of_lenOf_eq {items items' rest rest' : List WrapBoundaryCandidate}
    (hlen : ∀ item ∈ items ++ rest, 0 < item.lenUtf8) (heq : items ++ rest = items' ++ rest')
    (hsame : lenOf items = lenOf items') : items = items' ∧ rest = rest' := by
  have hnil : ∀ more : List WrapBoundaryCandidate, (∀ item ∈ more, 0 < item.lenUtf8) →
      lenOf more = 0 → more = [] := by
    intro more hmore hzero
    by_contra hne
    have hpos := lenOf_pos hmore hne
    omega
  rcases List.append_eq_append_iff.mp heq with ⟨more, rfl, rfl⟩ | ⟨more, rfl, rfl⟩
  · rw [lenOf_append] at hsame
    obtain rfl := hnil more (fun item hitem => hlen item (by simp [hitem])) (by omega)
    simp
  · rw [lenOf_append] at hsame
    obtain rfl := hnil more (fun item hitem => hlen item (by simp [hitem])) (by omega)
    simp

/-- Boundaries cut items that are not empty into lines in one way. -/
theorem cuts_unique_from {start : ℕ} {items : List WrapBoundaryCandidate}
    (hlen : ∀ item ∈ items, 0 < item.lenUtf8) :
    ∀ {lines lines' : List (ℕ × List WrapBoundaryCandidate)},
      (lines.map Prod.snd).flatten = items → (lines'.map Prod.snd).flatten = items →
      boundariesFrom start lines = boundariesFrom start lines' →
      lines.head?.map Prod.fst = lines'.head?.map Prod.fst → lines = lines' := by
  intro lines
  induction lines generalizing start items with
  | nil =>
    intro lines' _ _ _ hhead
    cases lines' with
    | nil => rfl
    | cons line' lines' => cases hhead
  | cons line lines ih =>
    intro lines' hitems hitems' hboundaries hhead
    cases lines' with
    | nil => cases hhead
    | cons line' lines' =>
      have hindent : line.1 = line'.1 := Option.some.inj hhead
      rw [List.map_cons, List.flatten_cons] at hitems hitems'
      cases lines with
      | nil =>
        cases lines' with
        | nil =>
          rw [List.map_nil, List.flatten_nil, List.append_nil] at hitems hitems'
          rw [Prod.ext hindent (hitems.trans hitems'.symm)]
        | cons next' lines' => cases hboundaries
      | cons next lines =>
        cases lines' with
        | nil => cases hboundaries
        | cons next' lines' =>
          rw [boundariesFrom, boundariesFrom] at hboundaries
          obtain ⟨hboundary, hrest⟩ := List.cons.inj hboundaries
          obtain ⟨hix, hnext⟩ := Boundary.mk.inj hboundary
          have hsame : lenOf line.2 = lenOf line'.2 := by omega
          obtain ⟨hline, hmore⟩ := eq_of_lenOf_eq (hitems ▸ hlen) (hitems.trans hitems'.symm) hsame
          rw [Prod.ext hindent hline]
          rw [← hsame] at hrest
          congr 1
          exact ih (fun item hitem => hlen item (hitems ▸ List.mem_append_right _ hitem)) rfl
            hmore.symm hrest (congrArg some hnext)

theorem cuts_unique {items : List WrapBoundaryCandidate} (hlen : ∀ item ∈ items, 0 < item.lenUtf8)
    {boundaries : List Boundary} {lines lines' : List (ℕ × List WrapBoundaryCandidate)}
    (h : Cuts items boundaries lines) (h' : Cuts items boundaries lines') : lines = lines' := by
  obtain ⟨line, rest, hfirst⟩ := h.first
  obtain ⟨line', rest', hfirst'⟩ := h'.first
  refine cuts_unique_from hlen h.items h'.items (h.boundaries.trans h'.boundaries.symm) ?_
  rw [hfirst, hfirst']
  rfl

/-! ### The breaker -/

/-- The variables of `wrap_line` that tell where the line may be broken, and the next indent. -/
structure Memory where
  prevC : Char
  firstNonWhitespaceIx : Option ℕ
  indent : Option ℕ
  index : ℕ
  lastWrapIx : ℕ

namespace Memory

/-- What is remembered behind an item, but for the character. -/
def visit (item : WrapBoundaryCandidate) (self : Memory) : Memory :=
  { self with
    index := self.index + item.lenUtf8
    firstNonWhitespaceIx :=
      if !item.isBlank && self.firstNonWhitespaceIx.isNone then some self.index
      else self.firstNonWhitespaceIx }

/-- The indent behind a break. -/
def nextIndent (self : Memory) : Option ℕ :=
  match self.indent, self.firstNonWhitespaceIx with
  | none, some firstNonWhitespaceIx =>
    some (min maxIndent ((firstNonWhitespaceIx - self.lastWrapIx) % 2 ^ 32))
  | indent, _ => indent

end Memory

/-- `wrap_line` breaks lines.  At a break it does not remember the character. -/
def breaker (widthForChar : Char → Pixels) : Breaker WrapBoundaryCandidate Memory where
  width := WrapBoundaryCandidate.itemWidth widthForChar
  opens memory item := item.opens memory.prevC memory.firstNonWhitespaceIx.isSome
  pass memory item := { memory.visit item with prevC := item.newPrevC memory.prevC }
  wrap memory line item :=
    { memory.visit item with
      indent := (memory.visit item).nextIndent
      lastWrapIx := memory.lastWrapIx + lenOf line }
  extra memory := Wrapping.indentWidth widthForChar memory.indent

namespace Wrapping

/-- What is remembered by the variables. -/
def memory (self : Wrapping) : Memory :=
  ⟨self.prevC, self.firstNonWhitespaceIx, self.indent, self.index, self.lastWrapIx⟩

/-- The breaker before its first item. -/
def start : Breaking WrapBoundaryCandidate Memory := ⟨new.memory, [], []⟩

/-- The variables are those of a line that is filled. -/
structure Follows (widthForChar : Char → Pixels) (line : Breaking WrapBoundaryCandidate Memory)
    (wrapping : Wrapping) : Prop where
  memory : line.memory = wrapping.memory
  index : wrapping.index = wrapping.lastWrapIx + lenOf line.line
  width : wrapping.width =
    indentWidth widthForChar wrapping.indent + (breaker widthForChar).widthOf line.line
  candidate : wrapping.lastCandidateIx =
    if line.front = [] then 0 else wrapping.lastWrapIx + lenOf line.front
  candidateWidth : line.front ≠ [] → wrapping.lastCandidateWidth =
    indentWidth widthForChar wrapping.indent + (breaker widthForChar).widthOf line.front
  seen : line.line = [] → wrapping.firstNonWhitespaceIx = none
  lens : ∀ item ∈ line.line, 0 < item.lenUtf8

variable {widthForChar : Char → Pixels} {wrapWidth : Pixels} {self : Wrapping}
  {line : Breaking WrapBoundaryCandidate Memory} {item : WrapBoundaryCandidate}

theorem follows_new : Follows widthForChar start new := by
  refine ⟨rfl, rfl, ?_, rfl, fun hne => absurd rfl hne, fun _ => rfl, fun item hitem => ?_⟩
  · show (0 : ℚ) = indentWidth widthForChar none + _
    rw [indentWidth, Option.getD_none, Nat.cast_zero, mul_zero, zero_add]
    rfl
  · exact absurd hitem List.not_mem_nil

theorem memory_visit (self : Wrapping) (item : WrapBoundaryCandidate) :
    ({ self with index := self.index + item.lenUtf8 }.visit self.index item).memory =
      self.memory.visit item := by
  rw [visit, Memory.visit]
  dsimp only
  split <;> split <;> simp_all [memory]

theorem visit_candidate (ix : ℕ) (self : Wrapping) (item : WrapBoundaryCandidate) :
    (self.visit ix item).lastCandidateIx =
        (if item.opens self.prevC self.firstNonWhitespaceIx.isSome then ix
          else self.lastCandidateIx) ∧
      (self.visit ix item).lastCandidateWidth =
        if item.opens self.prevC self.firstNonWhitespaceIx.isSome then self.width
        else self.lastCandidateWidth := by
  rw [visit]
  split <;> split <;> exact ⟨rfl, rfl⟩

/-- The variables behind the visit of an item. -/
def visited (item : WrapBoundaryCandidate) (self : Wrapping) : Wrapping :=
  { self with index := self.index + item.lenUtf8 }.visit self.index item

/-- The variables behind the width of an item. -/
def widened (widthForChar : Char → Pixels) (item : WrapBoundaryCandidate) (self : Wrapping) :
    Wrapping :=
  { self.visited item with width := (self.visited item).width + item.itemWidth widthForChar }

theorem widened_frame (self : Wrapping) (item : WrapBoundaryCandidate) :
    (self.widened widthForChar item).width = self.width + item.itemWidth widthForChar ∧
      (self.widened widthForChar item).indent = self.indent ∧
      (self.widened widthForChar item).lastWrapIx = self.lastWrapIx ∧
      (self.widened widthForChar item).index = self.index + item.lenUtf8 ∧
      (self.widened widthForChar item).memory = self.memory.visit item := by
  refine ⟨?_, ?_, ?_, ?_, memory_visit self item⟩ <;> rw [widened, visited, visit]
  · split <;> split <;> rfl
  · split <;> split <;> rfl
  · split <;> split <;> rfl
  · split <;> split <;> rfl

theorem wrapItem_wide (hnewline : item ≠ .char '\n')
    (h : (self.widened widthForChar item).width > wrapWidth ∧
      self.index > (self.widened widthForChar item).lastWrapIx) :
    self.wrapItem widthForChar wrapWidth item =
      let wrapped := (self.widened widthForChar item).wrapAt widthForChar self.index
        (item.itemWidth widthForChar)
      (wrapped, some ⟨wrapped.lastWrapIx, wrapped.indent.getD 0⟩) := by
  rw [wrapItem, if_neg hnewline]
  exact if_pos h

theorem wrapItem_fits (hnewline : item ≠ .char '\n')
    (h : ¬((self.widened widthForChar item).width > wrapWidth ∧
      self.index > (self.widened widthForChar item).lastWrapIx)) :
    self.wrapItem widthForChar wrapWidth item =
      ({ self.widened widthForChar item with prevC := item.newPrevC self.prevC }, none) := by
  rw [wrapItem, if_neg hnewline]
  exact if_neg h

/-- The last place at which the line may be broken is at the last opportunity. -/
theorem Follows.widened (h : Follows widthForChar line self) :
    (self.widened widthForChar item).lastCandidateIx =
        (if (line.visit (breaker widthForChar) item).front = [] then 0
          else self.lastWrapIx + lenOf (line.visit (breaker widthForChar) item).front) ∧
      ((line.visit (breaker widthForChar) item).front ≠ [] →
        (self.widened widthForChar item).lastCandidateWidth = indentWidth widthForChar self.indent +
          (breaker widthForChar).widthOf (line.visit (breaker widthForChar) item).front) := by
  obtain ⟨hcandidate, hwidth⟩ := visit_candidate self.index
    { self with index := self.index + item.lenUtf8 } item
  have hmemory : (breaker widthForChar).opens line.memory item =
      item.opens self.prevC self.firstNonWhitespaceIx.isSome := by
    rw [h.memory]
    rfl
  by_cases hopens : (breaker widthForChar).opens line.memory item
  · have hitem := hopens
    rw [hmemory] at hitem
    have hne : line.line ≠ [] := by
      intro hnil
      rw [h.seen hnil] at hitem
      cases item with
      | char c => simp [WrapBoundaryCandidate.opens] at hitem
      | element width len => simp [WrapBoundaryCandidate.opens] at hitem
    rw [Breaking.visit_opens hopens, if_neg hne]
    rw [if_pos hitem] at hcandidate hwidth
    refine ⟨?_, fun _ => ?_⟩
    · exact hcandidate.trans h.index
    · exact hwidth.trans h.width
  · have hitem := hopens
    rw [hmemory] at hitem
    rw [Breaking.visit_not_opens hopens]
    rw [if_neg hitem] at hcandidate hwidth
    refine ⟨?_, fun hfront => ?_⟩
    · exact hcandidate.trans h.candidate
    · exact hwidth.trans (h.candidateWidth hfront)

theorem Follows.overflows_iff (h : Follows widthForChar line self) :
    line.Overflows (breaker widthForChar) wrapWidth item ↔
      (self.widened widthForChar item).width > wrapWidth ∧
        self.index > (self.widened widthForChar item).lastWrapIx := by
  obtain ⟨hwidth, -, hwrap, -, -⟩ := @widened_frame widthForChar self item
  have hextra : (breaker widthForChar).extra line.memory =
    indentWidth widthForChar self.indent := by
    rw [h.memory]
    rfl
  have hindex := h.index
  rw [Breaking.Overflows, hextra, ← h.width, and_comm, hwidth, hwrap]
  refine and_congr Iff.rfl ⟨fun hne => ?_, fun hlt hnil => ?_⟩
  · have hpos := lenOf_pos h.lens hne
    omega
  · rw [hnil, lenOf_nil] at hindex
    omega

theorem Follows.lens_concat (h : Follows widthForChar line self) (hlen : 0 < item.lenUtf8) :
    ∀ other ∈ line.line ++ [item], 0 < other.lenUtf8 := by
  intro other hother
  rcases List.mem_append.mp hother with hother | hother
  · exact h.lens other hother
  · rw [List.mem_singleton.mp hother]
    exact hlen

theorem Follows.passed (h : Follows widthForChar line self) (hlen : 0 < item.lenUtf8) :
    Follows widthForChar (line.passed (breaker widthForChar) item)
      { self.widened widthForChar item with prevC := item.newPrevC self.prevC } := by
  obtain ⟨hwidth, hindent, hwrap, hindex, hmemory⟩ := @widened_frame widthForChar self item
  obtain ⟨hcandidate, hcandidateWidth⟩ := @Follows.widened _ _ _ item h
  have hline : (line.passed (breaker widthForChar) item).line = line.line ++ [item] :=
    Breaking.line_passed
  refine ⟨?_, ?_, ?_, ?_, ?_, ?_, ?_⟩
  · show (breaker widthForChar).pass line.memory item = _
    rw [h.memory]
    exact congrArg (fun memory : Memory => { memory with prevC := item.newPrevC self.prevC })
      hmemory.symm
  · show (self.widened widthForChar item).index = (self.widened widthForChar item).lastWrapIx + _
    rw [hline, lenOf_append, lenOf_singleton, hindex, hwrap, h.index, add_assoc]
  · show (self.widened widthForChar item).width =
      indentWidth widthForChar (self.widened widthForChar item).indent + _
    rw [hline, Breaking.widthOf_append, Breaking.widthOf_singleton, hwidth, hindent, h.width,
      add_assoc]
    rfl
  · show (self.widened widthForChar item).lastCandidateIx =
      if _ then 0 else (self.widened widthForChar item).lastWrapIx + _
    rw [hwrap]
    exact hcandidate
  · intro hfront
    show (self.widened widthForChar item).lastCandidateWidth =
      indentWidth widthForChar (self.widened widthForChar item).indent + _
    rw [hindent]
    exact hcandidateWidth hfront
  · rw [hline]
    intro hnil
    exact absurd hnil (by simp)
  · rw [hline]
    exact h.lens_concat hlen

/-- An item at which the line is broken. -/
theorem Follows.broken (h : Follows widthForChar line self) (hlen : 0 < item.lenUtf8)
    (hne : line.line ≠ []) :
    Follows widthForChar (line.broken (breaker widthForChar) item)
        ((self.widened widthForChar item).wrapAt widthForChar self.index
          (item.itemWidth widthForChar)) ∧
      ((self.widened widthForChar item).wrapAt widthForChar self.index
          (item.itemWidth widthForChar)).lastWrapIx =
        self.lastWrapIx + lenOf (line.cut (breaker widthForChar) item).1 := by
  obtain ⟨hwidth, hindent, hwrap, hindex, hmemory⟩ := @widened_frame widthForChar self item
  obtain ⟨hcandidate, hcandidateWidth⟩ := @Follows.widened _ _ _ item h
  have hlens := @Follows.lens_concat _ _ _ item h hlen
  set wrapped := (self.widened widthForChar item).wrapAt widthForChar self.index
    (item.itemWidth widthForChar) with hwrapped
  -- the parts of the line, as the variables have them
  have hcut : wrapped.lastWrapIx = self.lastWrapIx +
    lenOf (line.cut (breaker widthForChar) item).1 ∧
      wrapped.lastCandidateIx = 0 ∧
      wrapped.width = indentWidth widthForChar wrapped.indent +
        (breaker widthForChar).widthOf (line.cut (breaker widthForChar) item).2 := by
    by_cases hfront : (line.visit (breaker widthForChar) item).front = []
    · rw [if_pos hfront] at hcandidate
      have hbare : wrapped = _ := hwrapped.trans (if_neg (by omega))
      rw [hbare, Breaking.cut, if_pos hfront]
      refine ⟨h.index, hcandidate, ?_⟩
      rw [Breaking.widthOf_singleton, add_comm]
      rfl
    · rw [if_neg hfront] at hcandidate
      have hline : (line.visit (breaker widthForChar) item).line = line.line ++ [item] :=
        Breaking.line_visit
      have hpos : 0 < lenOf (line.visit (breaker widthForChar) item).front := by
        refine lenOf_pos (fun other hother => hlens other ?_) hfront
        rw [← hline]
        exact List.mem_append_left _ hother
      have hparts := congrArg (breaker widthForChar).widthOf hline
      rw [Breaking.line, Breaking.widthOf_append, Breaking.widthOf_append,
        Breaking.widthOf_singleton,
        show (breaker widthForChar).width item = item.itemWidth widthForChar from rfl] at hparts
      have hbroken : wrapped = _ := hwrapped.trans (if_pos (by omega))
      rw [hbroken, Breaking.cut, if_neg hfront]
      refine ⟨hcandidate, rfl, ?_⟩
      show (self.widened widthForChar item).width -
        (self.widened widthForChar item).lastCandidateWidth + _ = _ + _
      rw [hcandidateWidth hfront, hwidth, h.width]
      dsimp only
      linarith
  have hothers : wrapped.memory = { (self.memory.visit item) with
      indent := (self.memory.visit item).nextIndent, lastWrapIx := wrapped.lastWrapIx } := by
    rw [← hmemory, hwrapped, wrapAt]
    split <;> rfl
  have hindex' : wrapped.index = self.index + item.lenUtf8 := by
    rw [← hindex, hwrapped, wrapAt]
    split <;> rfl
  have hitems := congrArg lenOf (@Breaking.cut_append _ _ (breaker widthForChar) line item)
  rw [lenOf_append, lenOf_append, lenOf_singleton] at hitems
  refine ⟨⟨?_, ?_, hcut.2.2, hcut.2.1, fun hfront => absurd rfl hfront, ?_, ?_⟩, hcut.1⟩
  · rw [hothers, hcut.1]
    show (breaker widthForChar).wrap line.memory _ item = _
    rw [h.memory]
    rfl
  · rw [hindex', h.index, hcut.1, Breaking.line_broken]
    omega
  · intro hnil
    exact absurd hnil (Breaking.cut_ne_nil hne).2
  · intro other hother
    refine hlens other ?_
    rw [← @Breaking.cut_append _ _ (breaker widthForChar) line item]
    exact List.mem_append_right _ hother

/-- Lines, each with its indent. -/
def indented (lines : List (Memory × List WrapBoundaryCandidate)) :
    List (ℕ × List WrapBoundaryCandidate) :=
  lines.map fun line => (line.1.indent.getD 0, line.2)

theorem indent_head (items : List WrapBoundaryCandidate) :
    ∃ first lines, line.breakLines (breaker widthForChar) wrapWidth items = first :: lines ∧
      first.1.indent = line.memory.indent :=
  @Breaking.memory_head_breakLines _ _ _ _ (fun memory => memory.indent = line.memory.indent)
    (fun _ _ h => h) items line rfl

/-- A boundary is where a line begins. -/
theorem wrapItems_eq (items : List WrapBoundaryCandidate) (h : Follows widthForChar line self)
    (hnewline : ∀ item ∈ items, item ≠ .char '\n') (hlen : ∀ item ∈ items, 0 < item.lenUtf8) :
    self.wrapItems widthForChar wrapWidth items = boundariesFrom self.lastWrapIx
      (indented (line.breakLines (breaker widthForChar) wrapWidth items)) := by
  induction items generalizing self line with
  | nil => rfl
  | cons item items ih =>
    have hitem := hlen item List.mem_cons_self
    have hrest := fun other hother => hnewline other (List.mem_cons_of_mem item hother)
    have hlens := fun other hother => hlen other (List.mem_cons_of_mem item hother)
    have hchar := hnewline item List.mem_cons_self
    by_cases hover : line.Overflows (breaker widthForChar) wrapWidth item
    · obtain ⟨hbroken, hix⟩ := h.broken hitem hover.1
      obtain ⟨first, lines, hlines, hindent⟩ := @indent_head widthForChar wrapWidth
        (line.broken (breaker widthForChar) item) items
      rw [wrapItems, wrapItem_wide hchar (h.overflows_iff.mp hover),
        Breaking.breakLines_overflows items hover]
      dsimp only
      rw [ih hbroken hrest hlens, hlines, hix]
      rw [hbroken.memory] at hindent
      show [_] ++ _ = Boundary.mk _ (first.1.indent.getD 0) :: _
      rw [hindent]
      rfl
    · obtain ⟨-, -, hwrap, -, -⟩ := @widened_frame widthForChar self item
      rw [wrapItems, wrapItem_fits hchar (mt h.overflows_iff.mpr hover),
        Breaking.breakLines_fits items hover]
      dsimp only
      rw [ih (h.passed hitem) hrest hlens,
        show (Wrapping.lastWrapIx _) = self.lastWrapIx from hwrap]
      rfl

end Wrapping

end Zui.LineWrapper
