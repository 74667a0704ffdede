/-
Layouts of lines of text.

A `LineLayout` is what the platform makes of a line: runs of glyphs at their positions.  A
`WrappedLineLayout` adds where the line is broken so that its parts are not wider than a wrap
width, and on no more than some number of lines.

Design notes:

* `Pixels` are rational numbers;
* a text is a `String`, which a glyph indexes by bytes: `charAt` is the character there;
* the glyphs of `compute_wrap_boundaries` are a lazy iterator that is peeked at once for each
  glyph, so that `wrapFrom` looks at the character of a glyph when the iterator gets there and
  at that of the next glyph when it peeks;
* `f32::NEG_INFINITY` of `apply_force_width_to_layout` is `none`.
-/
import Zui.Gpui.Basic
import Zui.Gpui.Geometry

namespace Zui

open Gpui

namespace TextSystem

/-- `Pixels`. -/
abbrev Pixels : Type := ℚ

/-- `ShapedGlyph`. -/
structure ShapedGlyph where
  id : ℕ
  position : Point Pixels
  index : ℕ
  isEmoji : Bool
  deriving DecidableEq

/-- `ShapedRun`. -/
structure ShapedRun where
  fontId : ℕ
  glyphs : List ShapedGlyph
  deriving DecidableEq

/-- `LineLayout`. -/
structure LineLayout where
  fontSize : Pixels
  width : Pixels
  ascent : Pixels
  descent : Pixels
  runs : List ShapedRun
  len : ℕ
  deriving DecidableEq

/-- `WrapBoundary`. -/
structure WrapBoundary where
  runIx : ℕ
  glyphIx : ℕ
  deriving DecidableEq, Repr

/-- `<` of two boundaries. -/
def WrapBoundary.before (self other : WrapBoundary) : Bool :=
  self.runIx < other.runIx || (self.runIx == other.runIx && self.glyphIx < other.glyphIx)

/-- `WrappedLineLayout`. -/
structure WrappedLineLayout where
  unwrappedLayout : LineLayout
  wrapBoundaries : List WrapBoundary
  wrapWidth : Option Pixels
  deriving DecidableEq

/-- `FontRun`. -/
structure FontRun where
  len : ℕ
  fontId : ℕ
  deriving DecidableEq

/-! ### Wrapping -/

/-- The character at a byte index of some characters. -/
def charFrom : List Char → ℕ → Gpui.Result Char
  | [], 0 => .error .unwrapNone
  | [], _ + 1 => .error .indexOutOfBounds
  | c :: _, 0 => .ok c
  | c :: cs, i + 1 =>
    if c.utf8Size ≤ i + 1 then charFrom cs (i + 1 - c.utf8Size) else .error .indexOutOfBounds

/-- `text[index..].chars().next().unwrap()`. -/
def charAt (text : String) (index : ℕ) : Gpui.Result Char := charFrom text.toList index

/-- Whether a character is in a range of code points. -/
def inRange (first last : ℕ) (c : Char) : Bool := first ≤ c.toNat && c.toNat ≤ last

/-- `LineWrapper::is_word_char`. -/
def isWordChar (c : Char) : Bool :=
  c.isAlphanum || inRange 0x00C0 0x00FF c || inRange 0x0100 0x017F c || inRange 0x0180 0x024F c ||
  inRange 0x0400 0x04FF c || inRange 0x1E00 0x1EFF c || inRange 0x0300 0x036F c ||
  inRange 0x0980 0x09FF c || "-_.'’‘$%@#^~,=:;⋯".toList.contains c ||
  [0x202F, 0x00A0, 0x2011].contains c.toNat

/-- The variables of the loop of `compute_wrap_boundaries`. -/
structure Wrapping where
  boundaries : List WrapBoundary
  firstNonWhitespaceIx : Option WrapBoundary
  lastCandidateIx : Option WrapBoundary
  lastCandidateX : Pixels
  lastBoundary : WrapBoundary
  lastBoundaryX : Pixels
  prevCh : Char

namespace Wrapping

/-- Before the loop. -/
def new : Wrapping where
  boundaries := []
  firstNonWhitespaceIx := none
  lastCandidateIx := none
  lastCandidateX := 0
  lastBoundary := ⟨0, 0⟩
  lastBoundaryX := 0
  prevCh := Char.ofNat 0

/-- Whether a line may be broken in front of a character. -/
def isCandidate (ch : Char) (self : Wrapping) : Bool :=
  if isWordChar ch then
    self.prevCh == ' ' && ch != ' ' && self.firstNonWhitespaceIx.isSome
  else ch != ' ' && !isWordChar self.prevCh && self.firstNonWhitespaceIx.isSome

/-- The loop up to the test of the width. -/
def visit (boundary : WrapBoundary) (ch : Char) (x : Pixels) (self : Wrapping) : Wrapping :=
  let self := if self.isCandidate ch then
    { self with lastCandidateIx := some boundary, lastCandidateX := x } else self
  if ch != ' ' && self.firstNonWhitespaceIx.isNone then
    { self with firstNonWhitespaceIx := some boundary } else self

/-- A break, at the last candidate if there is one. -/
def wrapAt (boundary : WrapBoundary) (x : Pixels) (self : Wrapping) : Wrapping :=
  match self.lastCandidateIx with
  | some candidate =>
    { self with
      lastCandidateIx := none, lastBoundary := candidate, lastBoundaryX := self.lastCandidateX,
      boundaries := self.boundaries ++ [candidate] }
  | none =>
    { self with
      lastBoundary := boundary, lastBoundaryX := x, boundaries := self.boundaries ++ [boundary] }

/-- Whether a line is too wide with a glyph that ends at `nextX`. -/
def overflows (boundary : WrapBoundary) (nextX wrapWidth : Pixels) (self : Wrapping) : Bool :=
  decide (nextX - self.lastBoundaryX > wrapWidth) && self.lastBoundary.before boundary

/-- Whether no further break is allowed behind `n` breaks. -/
def limitReached (maxLines : Option ℕ) (n : ℕ) : Bool :=
  maxLines.any fun maxLines => maxLines - 1 ≤ n

/-- The loop from the test of the width on; `none` where it is left. -/
def fit (wrapWidth : Pixels) (maxLines : Option ℕ) (boundary : WrapBoundary) (ch : Char)
    (x nextX : Pixels) (self : Wrapping) : Option Wrapping :=
  if self.overflows boundary nextX wrapWidth then
    if limitReached maxLines self.boundaries.length then none
    else some { self.wrapAt boundary x with prevCh := ch }
  else some { self with prevCh := ch }

end Wrapping

/-- `glyphs.peek().map_or(self.width, |(_, _, x)| *x)`. -/
def peekX (text : String) (width : Pixels) :
    List (WrapBoundary × ShapedGlyph) → Gpui.Result Pixels
  | [] => .ok width
  | (_, glyph) :: _ => do
    let _ ← charAt text glyph.index
    .ok glyph.position.x

/-- The loop of `compute_wrap_boundaries`. -/
def wrapFrom (text : String) (width wrapWidth : Pixels) (maxLines : Option ℕ) :
    List (WrapBoundary × ShapedGlyph) → Wrapping → Gpui.Result (List WrapBoundary)
  | [], self => .ok self.boundaries
  | (boundary, glyph) :: glyphs, self => do
    let ch ← charAt text glyph.index
    if ch = '\n' then wrapFrom text width wrapWidth maxLines glyphs self
    else do
      let x := glyph.position.x
      let self := self.visit boundary ch x
      let nextX ← peekX text width glyphs
      match self.fit wrapWidth maxLines boundary ch x nextX with
      | none => .ok self.boundaries
      | some self => wrapFrom text width wrapWidth maxLines glyphs self

namespace LineLayout

/-- The glyphs of all runs, with their places. -/
def placedGlyphs (self : LineLayout) : List (WrapBoundary × ShapedGlyph) :=
  self.runs.zipIdx.flatMap fun (run, runIx) =>
    run.glyphs.zipIdx.map fun (glyph, glyphIx) => (⟨runIx, glyphIx⟩, glyph)

/-- `compute_wrap_boundaries`. -/
def computeWrapBoundaries (text : String) (wrapWidth : Pixels) (maxLines : Option ℕ)
    (self : LineLayout) : Gpui.Result (List WrapBoundary) :=
  wrapFrom text self.width wrapWidth maxLines self.placedGlyphs .new

end LineLayout

/-! ### A forced width -/

/-- The variables of the loop of `apply_force_width_to_layout`. -/
structure Forcing where
  glyphPos : ℕ
  lastBaseShapedX : Option Pixels
  lastBaseActualX : Pixels

/-- The body of the loop. -/
def forceGlyph (forceWidth : Pixels) (self : Forcing) (glyph : ShapedGlyph) :
    Forcing × ShapedGlyph :=
  let shapedX := glyph.position.x
  if self.lastBaseShapedX.all fun last => shapedX > last + forceWidth * (1 / 2) then
    let forcedX := self.glyphPos * forceWidth
    let x := if |shapedX - forcedX| > 1 then forcedX else shapedX
    (⟨self.glyphPos + 1, some shapedX, x⟩, { glyph with position := { glyph.position with x } })
  else
    let x := self.lastBaseActualX + (shapedX - self.lastBaseShapedX.getD 0)
    (self, { glyph with position := { glyph.position with x } })

/-- The inner loop. -/
def forceGlyphs (forceWidth : Pixels) : Forcing → List ShapedGlyph → Forcing × List ShapedGlyph
  | self, [] => (self, [])
  | self, glyph :: glyphs =>
    let (self, glyph) := forceGlyph forceWidth self glyph
    let (self, glyphs) := forceGlyphs forceWidth self glyphs
    (self, glyph :: glyphs)

/-- The outer loop. -/
def forceRuns (forceWidth : Pixels) : Forcing → List ShapedRun → List ShapedRun
  | _, [] => []
  | self, run :: runs =>
    let (self, glyphs) := forceGlyphs forceWidth self run.glyphs
    { run with glyphs } :: forceRuns forceWidth self runs

/-- `apply_force_width_to_layout`. -/
def applyForceWidthToLayout (layout : LineLayout) (forceWidth : Pixels) : LineLayout :=
  { layout with runs := forceRuns forceWidth ⟨0, none, 0⟩ layout.runs }

end TextSystem

end Zui
