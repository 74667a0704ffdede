/-
The cache of line layouts.

A `LineLayoutCache` keeps the layouts that the current frame used and those of the previous
frame.  A layout is looked up in the current frame, then taken over from the previous one, then
computed.  `reuseLayouts` takes over what the previous frame used between two places, and
`finishFrame` makes the current frame the previous one.

Design notes:

* a map and the list of the keys that were used is a `CacheTable`, of which a frame has four;
* the platform's `layout_line` is a parameter, a function of its arguments;
* the calls run one after the other, so the locks are left out;
* a text hash is a number, and the text of a call by hash is what `materialize_text` returns.
-/
import Zui.TextSystem.Basic

namespace Zui

open Gpui

namespace TextSystem

/-- The key of `CacheKey`. -/
structure CacheKey where
  text : String
  fontSize : Pixels
  runs : List FontRun
  wrapWidth : Option Pixels
  forceWidth : Option Pixels
  deriving DecidableEq

/-- `HashedCacheKey`. -/
structure HashedCacheKey where
  textHash : ℕ
  textLen : ℕ
  fontSize : Pixels
  runs : List FontRun
  wrapWidth : Option Pixels
  forceWidth : Option Pixels
  deriving DecidableEq

/-- A map of a frame, and the keys that the frame used. -/
structure CacheTable (K L : Type) where
  entries : K → Option L
  used : List K

namespace CacheTable

variable {K L : Type} [DecidableEq K]

/-- `default`. -/
def empty : CacheTable K L where
  entries _ := none
  used := []

/-- `insert`. -/
def insert (key : K) (layout : L) (self : CacheTable K L) : CacheTable K L :=
  { self with entries := Function.update self.entries key (some layout) }

/-- `remove_entry`, of an entry that is there. -/
def remove (key : K) (self : CacheTable K L) : CacheTable K L :=
  { self with entries := Function.update self.entries key none }

/-- `push` to the used keys. -/
def push (key : K) (self : CacheTable K L) : CacheTable K L :=
  { self with used := self.used ++ [key] }

/-- `truncate` of the used keys. -/
def truncate (index : ℕ) (self : CacheTable K L) : CacheTable K L :=
  { self with used := self.used.take index }

/-- The body of a loop of `reuse_layouts`. -/
def reuseKey (tables : CacheTable K L × CacheTable K L) (key : K) :
    CacheTable K L × CacheTable K L :=
  let (previous, current) := tables
  match previous.entries key with
  | some layout => (previous.remove key, (current.insert key layout).push key)
  | none => (previous, current.push key)

/-- A loop of `reuse_layouts`. -/
def reuse (start stop : ℕ) (tables : CacheTable K L × CacheTable K L) :
    Gpui.Result (CacheTable K L × CacheTable K L) :=
  if start ≤ stop ∧ stop ≤ tables.1.used.length then
    .ok (((tables.1.used.take stop).drop start).foldl reuseKey tables)
  else .error .indexOutOfBounds

end CacheTable

/-- `FrameCache`. -/
structure FrameCache where
  lines : CacheTable CacheKey LineLayout
  wrappedLines : CacheTable CacheKey WrappedLineLayout
  linesByHash : CacheTable HashedCacheKey LineLayout
  wrappedLinesByHash : CacheTable HashedCacheKey WrappedLineLayout

/-- `FrameCache::default`. -/
def FrameCache.default : FrameCache := ⟨.empty, .empty, .empty, .empty⟩

/-- `LineLayoutIndex`. -/
structure LineLayoutIndex where
  linesIndex : ℕ
  wrappedLinesIndex : ℕ
  linesByHashIndex : ℕ
  wrappedLinesByHashIndex : ℕ
  deriving DecidableEq, Repr

/-- How many keys of each map a frame used. -/
def FrameCache.usedIndex (self : FrameCache) : LineLayoutIndex where
  linesIndex := self.lines.used.length
  wrappedLinesIndex := self.wrappedLines.used.length
  linesByHashIndex := self.linesByHash.used.length
  wrappedLinesByHashIndex := self.wrappedLinesByHash.used.length

/-- `LineLayoutCache`. -/
structure LineLayoutCache where
  previousFrame : FrameCache
  currentFrame : FrameCache

/-- The platform's `layout_line`. -/
abbrev PlatformTextSystem : Type := String → Pixels → List FontRun → LineLayout

namespace LineLayoutCache

/-- `new`. -/
def new : LineLayoutCache := ⟨.default, .default⟩

/-- `layout_index`. -/
def layoutIndex (self : LineLayoutCache) : LineLayoutIndex := self.currentFrame.usedIndex

/-- `reuse_layouts`. -/
def reuseLayouts (start stop : LineLayoutIndex) (self : LineLayoutCache) :
    Gpui.Result LineLayoutCache := do
  let previous := self.previousFrame
  let current := self.currentFrame
  let lines ← CacheTable.reuse start.linesIndex stop.linesIndex (previous.lines, current.lines)
  let wrappedLines ← CacheTable.reuse start.wrappedLinesIndex stop.wrappedLinesIndex
    (previous.wrappedLines, current.wrappedLines)
  let linesByHash ← CacheTable.reuse start.linesByHashIndex stop.linesByHashIndex
    (previous.linesByHash, current.linesByHash)
  let wrappedLinesByHash ← CacheTable.reuse start.wrappedLinesByHashIndex
    stop.wrappedLinesByHashIndex (previous.wrappedLinesByHash, current.wrappedLinesByHash)
  .ok ⟨⟨lines.1, wrappedLines.1, linesByHash.1, wrappedLinesByHash.1⟩,
    ⟨lines.2, wrappedLines.2, linesByHash.2, wrappedLinesByHash.2⟩⟩

/-- `truncate_layouts`. -/
def truncateLayouts (index : LineLayoutIndex) (self : LineLayoutCache) : LineLayoutCache :=
  { self with
    currentFrame :=
      ⟨self.currentFrame.lines.truncate index.linesIndex,
        self.currentFrame.wrappedLines.truncate index.wrappedLinesIndex,
        self.currentFrame.linesByHash.truncate index.linesByHashIndex,
        self.currentFrame.wrappedLinesByHash.truncate index.wrappedLinesByHashIndex⟩ }

/-- `finish_frame`. -/
def finishFrame (self : LineLayoutCache) : LineLayoutCache := ⟨self.currentFrame, .default⟩

end LineLayoutCache

section Layouts

variable (platform : PlatformTextSystem)

/-- A line as the platform lays it out, with a forced width if there is one. -/
def shape (text : String) (fontSize : Pixels) (runs : List FontRun) (forceWidth : Option Pixels) :
    LineLayout :=
  let layout := platform text fontSize runs
  match forceWidth with
  | some forceWidth => applyForceWidthToLayout layout forceWidth
  | none => layout

/-- The wrap boundaries of a line, if it is wrapped. -/
def wrapBoundaries (text : String) (wrapWidth : Option Pixels) (maxLines : Option ℕ)
    (unwrappedLayout : LineLayout) : Gpui.Result (List WrapBoundary) :=
  match wrapWidth with
  | some wrapWidth => unwrappedLayout.computeWrapBoundaries text wrapWidth maxLines
  | none => .ok []

namespace LineLayoutCache

/-- `layout_line`. -/
def layoutLine (text : String) (fontSize : Pixels) (runs : List FontRun)
    (forceWidth : Option Pixels) (self : LineLayoutCache) : LineLayoutCache × LineLayout :=
  let key : CacheKey := ⟨text, fontSize, runs, none, forceWidth⟩
  let previous := self.previousFrame.lines
  let current := self.currentFrame.lines
  match current.entries key with
  | some layout => (self, layout)
  | none =>
    match previous.entries key with
    | some layout =>
      ({ self with
        previousFrame := { self.previousFrame with lines := previous.remove key }
        currentFrame :=
          { self.currentFrame with lines := (current.insert key layout).push key } }, layout)
    | none =>
      let layout := shape platform text fontSize runs forceWidth
      ({ self with
        currentFrame :=
          { self.currentFrame with lines := (current.insert key layout).push key } }, layout)

/-- `layout_wrapped_line`. -/
def layoutWrappedLine (text : String) (fontSize : Pixels) (runs : List FontRun)
    (wrapWidth : Option Pixels) (maxLines : Option ℕ) (self : LineLayoutCache) :
    Gpui.Result (LineLayoutCache × WrappedLineLayout) :=
  let key : CacheKey := ⟨text, fontSize, runs, wrapWidth, none⟩
  let previous := self.previousFrame.wrappedLines
  let current := self.currentFrame.wrappedLines
  match current.entries key with
  | some layout => .ok (self, layout)
  | none =>
    match previous.entries key with
    | some layout =>
      .ok ({ self with
        previousFrame := { self.previousFrame with wrappedLines := previous.remove key }
        currentFrame :=
          { self.currentFrame with
            wrappedLines := (current.insert key layout).push key } }, layout)
    | none => do
      let (self, unwrappedLayout) := self.layoutLine platform text fontSize runs none
      let wrapBoundaries ← wrapBoundaries text wrapWidth maxLines unwrappedLayout
      let layout : WrappedLineLayout := ⟨unwrappedLayout, wrapBoundaries, wrapWidth⟩
      .ok ({ self with
        currentFrame :=
          { self.currentFrame with
            wrappedLines := (self.currentFrame.wrappedLines.insert key layout).push key } }, layout)

/-- `layout_line_by_hash`. -/
def layoutLineByHash (textHash textLen : ℕ) (fontSize : Pixels) (runs : List FontRun)
    (forceWidth : Option Pixels) (text : String) (self : LineLayoutCache) :
    LineLayoutCache × LineLayout :=
  let key : HashedCacheKey := ⟨textHash, textLen, fontSize, runs, none, forceWidth⟩
  let previous := self.previousFrame.linesByHash
  let current := self.currentFrame.linesByHash
  match current.entries key with
  | some layout => (self, layout)
  | none =>
    match if key ∈ previous.used then previous.entries key else none with
    | some layout =>
      ({ self with
        previousFrame := { self.previousFrame with linesByHash := previous.remove key }
        currentFrame :=
          { self.currentFrame with linesByHash := (current.insert key layout).push key } }, layout)
    | none =>
      let layout := shape platform text fontSize runs forceWidth
      ({ self with
        currentFrame :=
          { self.currentFrame with linesByHash := (current.insert key layout).push key } }, layout)

end LineLayoutCache

end Layouts

end TextSystem

end Zui
