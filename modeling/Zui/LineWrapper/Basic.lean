/-
The line wrapper.

`wrap_line` puts the characters and elements of some fragments on lines of a width.  It keeps the
last place at which the line may be broken, and how wide the line is up to there, and it breaks the
line there, or in front of the item that does not fit if there is no such place.

Design notes:

* widths are exact, and `width_for_char` is a function, since it only caches what it returns;
* an index is one of bytes in the concatenated text;
* the iterator that `wrap_line` returns is the list of what it gives.
-/
import Zui.TextSystem.Basic

namespace Zui.LineWrapper

open TextSystem (Pixels isWordChar)

/-- `LineFragment`. -/
inductive LineFragment
  | text (text : String)
  | element (width : Pixels) (lenUtf8 : ℕ)
  deriving DecidableEq

/-- `WrapBoundaryCandidate`. -/
inductive WrapBoundaryCandidate
  | char (character : Char)
  | element (width : Pixels) (lenUtf8 : ℕ)
  deriving DecidableEq

/-- `Boundary`. -/
structure Boundary where
  ix : ℕ
  nextIndent : ℕ
  deriving DecidableEq

/-- `wrap_boundary_candidates`. -/
def LineFragment.wrapBoundaryCandidates : LineFragment → List WrapBoundaryCandidate
  | .text s => s.toList.map .char
  | .element width len => [.element width len]

namespace WrapBoundaryCandidate

/-- `len_utf8`. -/
def lenUtf8 : WrapBoundaryCandidate → ℕ
  | char c => c.utf8Size
  | element _ lenUtf8 => lenUtf8

/-- `item_width` of a candidate. -/
def itemWidth (widthForChar : Char → Pixels) : WrapBoundaryCandidate → Pixels
  | char c => widthForChar c
  | element width _ => width

/-- Whether a candidate is a space. -/
def isBlank (self : WrapBoundaryCandidate) : Bool := self = char ' '

/-- `new_prev_c` behind a candidate. -/
def newPrevC (prevC : Char) : WrapBoundaryCandidate → Char
  | char c => c
  | element _ _ => prevC

/-- Whether the line may be broken in front of a candidate, behind a character, and behind something
that is no space or not. -/
def opens (prevC : Char) (seen : Bool) : WrapBoundaryCandidate → Bool
  | char c =>
    if isWordChar c then prevC == ' ' && c != ' ' && seen
    else c != ' ' && !isWordChar prevC && seen
  | element _ _ => prevC == ' ' && seen

end WrapBoundaryCandidate

/-- `MAX_INDENT`. -/
def maxIndent : ℕ := 256

/-- The variables of `wrap_line`. -/
structure Wrapping where
  width : Pixels
  firstNonWhitespaceIx : Option ℕ
  indent : Option ℕ
  lastCandidateIx : ℕ
  lastCandidateWidth : Pixels
  lastWrapIx : ℕ
  prevC : Char
  index : ℕ

namespace Wrapping

/-- Before the loop. -/
def new : Wrapping where
  width := 0
  firstNonWhitespaceIx := none
  indent := none
  lastCandidateIx := 0
  lastCandidateWidth := 0
  lastWrapIx := 0
  prevC := Char.ofNat 0
  index := 0

/-- The loop up to the width of a candidate at an index. -/
def visit (ix : ℕ) (candidate : WrapBoundaryCandidate) (self : Wrapping) : Wrapping :=
  let self :=
    if candidate.opens self.prevC self.firstNonWhitespaceIx.isSome then
      { self with lastCandidateIx := ix, lastCandidateWidth := self.width }
    else self
  if !candidate.isBlank && self.firstNonWhitespaceIx.isNone then
    { self with firstNonWhitespaceIx := some ix }
  else self

/-- The indent behind a break. -/
def nextIndent (self : Wrapping) : Option ℕ :=
  match self.indent, self.firstNonWhitespaceIx with
  | none, some firstNonWhitespaceIx =>
    some (min maxIndent ((firstNonWhitespaceIx - self.lastWrapIx) % 2 ^ 32))
  | indent, _ => indent

variable (widthForChar : Char → Pixels)

/-- The width that an indent is. -/
def indentWidth (indent : Option ℕ) : Pixels := widthForChar ' ' * (indent.getD 0 : ℕ)

/-- The line is broken at a candidate of some width at an index. -/
def wrapAt (ix : ℕ) (itemWidth : Pixels) (self : Wrapping) : Wrapping :=
  let indent := self.nextIndent
  if self.lastCandidateIx > 0 then
    { self with
      indent := indent
      lastWrapIx := self.lastCandidateIx
      width := self.width - self.lastCandidateWidth + indentWidth widthForChar indent
      lastCandidateIx := 0 }
  else
    { self with
      indent := indent
      lastWrapIx := ix
      width := itemWidth + indentWidth widthForChar indent }

/-- One pass of the loop, which returns a boundary or goes on. -/
def wrapItem (wrapWidth : Pixels) (candidate : WrapBoundaryCandidate) (self : Wrapping) :
    Wrapping × Option Boundary :=
  let ix := self.index
  let self := { self with index := ix + candidate.lenUtf8 }
  if candidate = .char '\n' then (self, none)
  else
    let newPrevC := candidate.newPrevC self.prevC
    let itemWidth := candidate.itemWidth widthForChar
    let visited := self.visit ix candidate
    let self := { visited with width := visited.width + itemWidth }
    if self.width > wrapWidth ∧ ix > self.lastWrapIx then
      let wrapped := self.wrapAt widthForChar ix itemWidth
      (wrapped, some ⟨wrapped.lastWrapIx, wrapped.indent.getD 0⟩)
    else ({ self with prevC := newPrevC }, none)

/-- The boundaries of some candidates. -/
def wrapItems (wrapWidth : Pixels) : List WrapBoundaryCandidate → Wrapping → List Boundary
  | [], _ => []
  | candidate :: candidates, self =>
    let (next, boundary) := self.wrapItem widthForChar wrapWidth candidate
    boundary.toList ++ wrapItems wrapWidth candidates next

end Wrapping

/-- `wrap_line`. -/
def wrapLine (widthForChar : Char → Pixels) (fragments : List LineFragment) (wrapWidth : Pixels) :
    List Boundary :=
  Wrapping.wrapItems widthForChar wrapWidth
    (fragments.flatMap LineFragment.wrapBoundaryCandidates) .new

end Zui.LineWrapper
