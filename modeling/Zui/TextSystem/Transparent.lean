/-
The cache of line layouts is transparent.

A `Session` is a cache with what a run of calls did to it: for which number of lines the cached
layout of a wrapped line was made (`madeFor`), and which indices were taken in a frame and not
cut off since (`indices`).

* `Clean` — the calls that the cache can serve: a wrapped line that is cached was made for a
  limit of lines that makes the same breaks, and a range that is reused was not cut off;
* `Sound` — the invariant: a cached layout is the one its key stands for;
* `cache_transparent` — a run of clean calls returns what the calls compute afresh;
* `cache_not_transparent` — two runs of calls that are not clean.
-/
import Zui.TextSystem.Cache
import Zui.TextSystem.Wrap

namespace Zui

open Gpui

namespace TextSystem

/-! ### Indices -/

namespace LineLayoutIndex

instance : LE LineLayoutIndex where
  le a b := a.linesIndex ≤ b.linesIndex ∧ a.wrappedLinesIndex ≤ b.wrappedLinesIndex ∧
    a.linesByHashIndex ≤ b.linesByHashIndex ∧
    a.wrappedLinesByHashIndex ≤ b.wrappedLinesByHashIndex

theorem le_def {a b : LineLayoutIndex} : a ≤ b ↔
    a.linesIndex ≤ b.linesIndex ∧ a.wrappedLinesIndex ≤ b.wrappedLinesIndex ∧
      a.linesByHashIndex ≤ b.linesByHashIndex ∧
      a.wrappedLinesByHashIndex ≤ b.wrappedLinesByHashIndex :=
  Iff.rfl

instance : DecidableLE LineLayoutIndex :=
  fun a b => decidable_of_iff _ (le_def (a := a) (b := b)).symm

theorem le_refl (a : LineLayoutIndex) : a ≤ a :=
  ⟨Nat.le_refl _, Nat.le_refl _, Nat.le_refl _, Nat.le_refl _⟩

theorem le_trans {a b c : LineLayoutIndex} (hab : a ≤ b) (hbc : b ≤ c) : a ≤ c :=
  ⟨Nat.le_trans hab.1 hbc.1, Nat.le_trans hab.2.1 hbc.2.1, Nat.le_trans hab.2.2.1 hbc.2.2.1,
    Nat.le_trans hab.2.2.2 hbc.2.2.2⟩

end LineLayoutIndex

/-! ### Tables -/

namespace CacheTable

variable {K L : Type} [DecidableEq K] {P : K → L → Prop} {table previous current : CacheTable K L}
  {key : K} {layout : L}

omit [DecidableEq K] in
/-- All layouts of a table are as they should be. -/
def All (P : K → L → Prop) (table : CacheTable K L) : Prop :=
  ∀ key layout, table.entries key = some layout → P key layout

omit [DecidableEq K] in
theorem all_empty : (empty : CacheTable K L).All P := fun _ _ h => absurd h (by simp [empty])

theorem All.insert (h : table.All P) (hlayout : P key layout) :
    (table.insert key layout).All P := by
  intro other layout' hentry
  by_cases hkey : other = key
  · subst hkey
    obtain rfl : layout = layout' := by simpa [CacheTable.insert] using hentry
    exact hlayout
  · exact h other layout' (by simpa [CacheTable.insert, hkey] using hentry)

theorem All.remove (h : table.All P) : (table.remove key).All P := by
  intro other layout hentry
  by_cases hkey : other = key
  · simp [CacheTable.remove, hkey] at hentry
  · exact h other layout (by simpa [CacheTable.remove, hkey] using hentry)

theorem All.serve (h : table.All P) (hlayout : P key layout) :
    ((table.insert key layout).push key).All P :=
  h.insert hlayout

/-- What the loop of `reuse_layouts` does. -/
structure Reused (P : K → L → Prop) (tables result : CacheTable K L × CacheTable K L) : Prop where
  previous : result.1.All P
  current : result.2.All P
  used : result.1.used = tables.1.used
  grows : tables.2.used.length ≤ result.2.used.length

theorem reuseKey_spec {tables : CacheTable K L × CacheTable K L} (hprevious : tables.1.All P)
    (hcurrent : tables.2.All P) (key : K) : Reused P tables (reuseKey tables key) := by
  rw [reuseKey]
  cases hentry : tables.1.entries key with
  | none => exact ⟨hprevious, hcurrent, rfl, by simp [push]⟩
  | some layout =>
    exact ⟨hprevious.remove, hcurrent.insert (hprevious key layout hentry), rfl,
      by simp [push, insert]⟩

theorem foldl_reuseKey_spec (keys : List K) {tables : CacheTable K L × CacheTable K L}
    (hprevious : tables.1.All P) (hcurrent : tables.2.All P) :
    Reused P tables (keys.foldl reuseKey tables) := by
  induction keys generalizing tables with
  | nil => exact ⟨hprevious, hcurrent, rfl, Nat.le_refl _⟩
  | cons key keys ih =>
    have hstep := reuseKey_spec hprevious hcurrent key
    have hrest := ih hstep.previous hstep.current
    exact ⟨hrest.previous, hrest.current, hrest.used.trans hstep.used,
      Nat.le_trans hstep.grows hrest.grows⟩

theorem reuse_spec (hprevious : previous.All P) (hcurrent : current.All P) {start stop : ℕ}
    (hle : start ≤ stop) (hstop : stop ≤ previous.used.length) :
    ∃ result, reuse start stop (previous, current) = .ok result ∧
      Reused P (previous, current) result :=
  ⟨_, if_pos ⟨hle, hstop⟩, foldl_reuseKey_spec _ hprevious hcurrent⟩

end CacheTable

/-! ### Sessions -/

/-- The calls on the cache. -/
inductive Call
  | layoutLine (text : String) (fontSize : Pixels) (runs : List FontRun)
    (forceWidth : Option Pixels)
  | layoutWrappedLine (text : String) (fontSize : Pixels) (runs : List FontRun)
    (wrapWidth : Option Pixels) (maxLines : Option ℕ)
  | layoutLineByHash (textHash textLen : ℕ) (fontSize : Pixels) (runs : List FontRun)
    (forceWidth : Option Pixels) (text : String)
  | layoutIndex
  | reuseLayouts (start stop : LineLayoutIndex)
  | truncateLayouts (index : LineLayoutIndex)
  | finishFrame

/-- A layout of either kind. -/
inductive Layout
  | line (layout : LineLayout)
  | wrapped (layout : WrappedLineLayout)
  deriving DecidableEq

/-- A cache, and what a run did to it. -/
structure Session where
  cache : LineLayoutCache
  madeFor : CacheKey → Option ℕ
  indices : List LineLayoutIndex
  previousIndices : List LineLayoutIndex

/-- Whether the layout of a wrapped line is in one of the frames. -/
def LineLayoutCache.caches (self : LineLayoutCache) (key : CacheKey) : Bool :=
  (self.currentFrame.wrappedLines.entries key).isSome ||
    (self.previousFrame.wrappedLines.entries key).isSome

namespace Session

/-- Before the first frame. -/
def new : Session where
  cache := .new
  madeFor _ := none
  indices := []
  previousIndices := []

/-- What a call does besides changing the cache. -/
def after (call : Call) (cache : LineLayoutCache) (self : Session) : Session :=
  match call with
  | .layoutWrappedLine text fontSize runs wrapWidth maxLines =>
    let key : CacheKey := ⟨text, fontSize, runs, wrapWidth, none⟩
    { self with
      cache
      madeFor := if self.cache.caches key then self.madeFor
        else Function.update self.madeFor key maxLines }
  | .layoutIndex => { self with cache, indices := self.indices ++ [self.cache.layoutIndex] }
  | .truncateLayouts index =>
    { self with cache, indices := self.indices.filter fun other => other ≤ index }
  | .finishFrame => { self with cache, indices := [], previousIndices := self.indices }
  | _ => { self with cache }

end Session

section Calls

variable (platform : PlatformTextSystem) (textOf : ℕ → ℕ → String)

/-- A wrapped line computed afresh. -/
def wrapAfresh (text : String) (fontSize : Pixels) (runs : List FontRun)
    (wrapWidth : Option Pixels) (maxLines : Option ℕ) : Gpui.Result WrappedLineLayout := do
  let layout := shape platform text fontSize runs none
  let wrapBoundaries ← wrapBoundaries text wrapWidth maxLines layout
  .ok ⟨layout, wrapBoundaries, wrapWidth⟩

namespace Call

/-- The call, and the layout that it returns. -/
def run (self : LineLayoutCache) : Call → Gpui.Result (LineLayoutCache × Option Layout)
  | layoutLine text fontSize runs forceWidth =>
    let (self, layout) := self.layoutLine platform text fontSize runs forceWidth
    .ok (self, some (.line layout))
  | layoutWrappedLine text fontSize runs wrapWidth maxLines => do
    let (self, layout) ← self.layoutWrappedLine platform text fontSize runs wrapWidth maxLines
    .ok (self, some (.wrapped layout))
  | layoutLineByHash textHash textLen fontSize runs forceWidth text =>
    let (self, layout) :=
      self.layoutLineByHash platform textHash textLen fontSize runs forceWidth text
    .ok (self, some (.line layout))
  | layoutIndex => .ok (self, none)
  | reuseLayouts start stop => do
    let self ← self.reuseLayouts start stop
    .ok (self, none)
  | truncateLayouts index => .ok (self.truncateLayouts index, none)
  | finishFrame => .ok (self.finishFrame, none)

/-- The layout of a call computed afresh. -/
def afresh : Call → Gpui.Result (Option Layout)
  | layoutLine text fontSize runs forceWidth =>
    .ok (some (.line (shape platform text fontSize runs forceWidth)))
  | layoutWrappedLine text fontSize runs wrapWidth maxLines => do
    let layout ← wrapAfresh platform text fontSize runs wrapWidth maxLines
    .ok (some (.wrapped layout))
  | layoutLineByHash _ _ fontSize runs forceWidth text =>
    .ok (some (.line (shape platform text fontSize runs forceWidth)))
  | _ => .ok none

end Call

namespace Session

/-- A call in a session. -/
def step (self : Session) (call : Call) : Gpui.Result (Session × Option Layout) := do
  let (cache, layout) ← call.run platform self.cache
  .ok (self.after call cache, layout)

/-- A run of calls, with the layouts that they return. -/
def runAll : List Call → Session → Gpui.Result (Session × List (Option Layout))
  | [], self => .ok (self, [])
  | call :: calls, self => do
    let (self, layout) ← self.step platform call
    let (self, layouts) ← runAll calls self
    .ok (self, layout :: layouts)

/-- A call that the cache can serve. -/
def Clean (self : Session) : Call → Prop
  | .layoutWrappedLine text fontSize runs wrapWidth maxLines =>
    let key : CacheKey := ⟨text, fontSize, runs, wrapWidth, none⟩
    self.cache.caches key = true → ∀ w ∈ wrapWidth,
      SameBreaks (shape platform text fontSize runs none) text w (self.madeFor key) maxLines
  | .layoutLineByHash textHash textLen _ _ _ text => text = textOf textHash textLen
  | .reuseLayouts start stop => [start, stop].Sublist self.previousIndices
  | _ => True

instance (self : Session) : ∀ call, Decidable (self.Clean platform textOf call)
  | .layoutWrappedLine text fontSize runs wrapWidth maxLines =>
    inferInstanceAs (Decidable (self.cache.caches ⟨text, fontSize, runs, wrapWidth, none⟩ = true →
      ∀ w ∈ wrapWidth, SameBreaks (shape platform text fontSize runs none) text w
        (self.madeFor ⟨text, fontSize, runs, wrapWidth, none⟩) maxLines))
  | .layoutLineByHash textHash textLen _ _ _ text =>
    inferInstanceAs (Decidable (text = textOf textHash textLen))
  | .reuseLayouts start stop =>
    inferInstanceAs (Decidable ([start, stop].Sublist self.previousIndices))
  | .layoutLine .. | .layoutIndex | .truncateLayouts .. | .finishFrame => isTrue trivial

/-- A run of such calls. -/
def CleanAll : List Call → Session → Prop
  | [], _ => True
  | call :: calls, self => self.Clean platform textOf call ∧
      ∀ next layout, self.step platform call = .ok (next, layout) → CleanAll calls next

instance CleanAll.decidable : ∀ (calls : List Call) (self : Session),
    Decidable (self.CleanAll platform textOf calls)
  | [], _ => isTrue trivial
  | call :: calls, self =>
    match h : self.step platform call with
    | .error _ => decidable_of_iff (self.Clean platform textOf call)
      ⟨fun hclean => ⟨hclean, fun _ _ hrun => by simp [h] at hrun⟩, And.left⟩
    | .ok (next, layout) =>
      have := CleanAll.decidable calls next
      decidable_of_iff
        (self.Clean platform textOf call ∧ next.CleanAll platform textOf calls)
        ⟨fun ⟨hclean, hrest⟩ => ⟨hclean, fun next' layout' hrun => by
            obtain ⟨rfl, -⟩ := Prod.mk.inj (Except.ok.inj (h.symm.trans hrun))
            exact hrest⟩,
          fun ⟨hclean, hrest⟩ => ⟨hclean, hrest next layout h⟩⟩

end Session

/-! ### The invariant -/

/-- The layouts of a frame are those that their keys stand for. -/
structure FrameSound (madeFor : CacheKey → Option ℕ) (frame : FrameCache) : Prop where
  lines : frame.lines.All fun key layout =>
    layout = shape platform key.text key.fontSize key.runs key.forceWidth
  wrappedLines : frame.wrappedLines.All fun key layout =>
    wrapAfresh platform key.text key.fontSize key.runs key.wrapWidth (madeFor key) = .ok layout
  linesByHash : frame.linesByHash.All fun key layout =>
    layout = shape platform (textOf key.textHash key.textLen) key.fontSize key.runs key.forceWidth

/-- The indices were taken in order and are within what the frame used. -/
structure Marked (indices : List LineLayoutIndex) (frame : FrameCache) : Prop where
  within : ∀ index ∈ indices, index ≤ frame.usedIndex
  sorted : indices.Pairwise fun a b => a ≤ b

/-- The invariant of a session. -/
structure Sound (s : Session) : Prop where
  previous : FrameSound platform textOf s.madeFor s.cache.previousFrame
  current : FrameSound platform textOf s.madeFor s.cache.currentFrame
  previousMarked : Marked s.previousIndices s.cache.previousFrame
  currentMarked : Marked s.indices s.cache.currentFrame

end Calls

section Steps

variable {platform : PlatformTextSystem} {textOf : ℕ → ℕ → String} {s : Session}
  {madeFor : CacheKey → Option ℕ} {cache cache' : LineLayoutCache} {frame frame' : FrameCache}
  {indices : List LineLayoutIndex}

theorem frameSound_default : FrameSound platform textOf madeFor .default :=
  ⟨CacheTable.all_empty, CacheTable.all_empty, CacheTable.all_empty⟩

theorem sound_new : Sound platform textOf .new :=
  ⟨frameSound_default, frameSound_default, ⟨by simp [Session.new], by simp [Session.new]⟩,
    by simp [Session.new], by simp [Session.new]⟩

theorem Marked.mono (h : Marked indices frame) (hle : frame.usedIndex ≤ frame'.usedIndex) :
    Marked indices frame' :=
  ⟨fun index hindex => LineLayoutIndex.le_trans (h.within index hindex) hle, h.sorted⟩

/-- A cache that served a call. -/
structure Served (platform : PlatformTextSystem) (textOf : ℕ → ℕ → String)
    (madeFor : CacheKey → Option ℕ) (cache cache' : LineLayoutCache) : Prop where
  previous : FrameSound platform textOf madeFor cache'.previousFrame
  current : FrameSound platform textOf madeFor cache'.currentFrame
  used : cache'.previousFrame.usedIndex = cache.previousFrame.usedIndex
  grows : cache.currentFrame.usedIndex ≤ cache'.currentFrame.usedIndex

theorem grows_lines (key : CacheKey) (layout : LineLayout) (frame : FrameCache) :
    frame.usedIndex ≤
      FrameCache.usedIndex { frame with lines := (frame.lines.insert key layout).push key } := by
  simp [LineLayoutIndex.le_def, FrameCache.usedIndex, CacheTable.push, CacheTable.insert]

theorem grows_wrappedLines (key : CacheKey) (layout : WrappedLineLayout) (frame : FrameCache) :
    frame.usedIndex ≤ FrameCache.usedIndex
      { frame with wrappedLines := (frame.wrappedLines.insert key layout).push key } := by
  simp [LineLayoutIndex.le_def, FrameCache.usedIndex, CacheTable.push, CacheTable.insert]

theorem grows_linesByHash (key : HashedCacheKey) (layout : LineLayout) (frame : FrameCache) :
    frame.usedIndex ≤ FrameCache.usedIndex
      { frame with linesByHash := (frame.linesByHash.insert key layout).push key } := by
  simp [LineLayoutIndex.le_def, FrameCache.usedIndex, CacheTable.push, CacheTable.insert]

/-- `layout_line` returns the line as it is computed afresh, and leaves the wrapped lines
alone. -/
theorem layoutLine_spec (hprevious : FrameSound platform textOf madeFor cache.previousFrame)
    (hcurrent : FrameSound platform textOf madeFor cache.currentFrame) (text : String)
    (fontSize : Pixels) (runs : List FontRun) (forceWidth : Option Pixels) :
    ∃ cache', cache.layoutLine platform text fontSize runs forceWidth
        = (cache', shape platform text fontSize runs forceWidth) ∧
      Served platform textOf madeFor cache cache' ∧
      cache'.previousFrame.wrappedLines = cache.previousFrame.wrappedLines ∧
      cache'.currentFrame.wrappedLines = cache.currentFrame.wrappedLines := by
  set key : CacheKey := ⟨text, fontSize, runs, none, forceWidth⟩ with hkey
  cases hcur : cache.currentFrame.lines.entries key with
  | some layout =>
    obtain rfl : layout = shape platform text fontSize runs forceWidth :=
      hcurrent.lines key layout hcur
    refine ⟨cache, ?_, ⟨hprevious, hcurrent, rfl, LineLayoutIndex.le_refl _⟩, rfl, rfl⟩
    simp only [LineLayoutCache.layoutLine, ← hkey, hcur]
  | none =>
    cases hprev : cache.previousFrame.lines.entries key with
    | some layout =>
      have hlayout : layout = shape platform text fontSize runs forceWidth :=
        hprevious.lines key layout hprev
      exact ⟨⟨{ cache.previousFrame with lines := cache.previousFrame.lines.remove key },
          { cache.currentFrame with
            lines := (cache.currentFrame.lines.insert key layout).push key }⟩,
        by simp only [LineLayoutCache.layoutLine, ← hkey, hcur, hprev, ← hlayout],
        ⟨⟨hprevious.lines.remove, hprevious.wrappedLines, hprevious.linesByHash⟩,
          ⟨hcurrent.lines.serve hlayout, hcurrent.wrappedLines, hcurrent.linesByHash⟩, rfl,
          grows_lines key _ _⟩, rfl, rfl⟩
    | none =>
      exact ⟨⟨cache.previousFrame, { cache.currentFrame with
          lines := (cache.currentFrame.lines.insert key
            (shape platform text fontSize runs forceWidth)).push key }⟩,
        by simp only [LineLayoutCache.layoutLine, ← hkey, hcur, hprev],
        ⟨hprevious, ⟨hcurrent.lines.serve rfl, hcurrent.wrappedLines, hcurrent.linesByHash⟩, rfl,
          grows_lines key _ _⟩, rfl, rfl⟩

/-- `layout_line_by_hash` returns the line as it is computed afresh. -/
theorem layoutLineByHash_spec
    (hprevious : FrameSound platform textOf madeFor cache.previousFrame)
    (hcurrent : FrameSound platform textOf madeFor cache.currentFrame) (textHash textLen : ℕ)
    (fontSize : Pixels) (runs : List FontRun) (forceWidth : Option Pixels) :
    ∃ cache', cache.layoutLineByHash platform textHash textLen fontSize runs forceWidth
        (textOf textHash textLen)
        = (cache', shape platform (textOf textHash textLen) fontSize runs forceWidth) ∧
      Served platform textOf madeFor cache cache' := by
  set key : HashedCacheKey := ⟨textHash, textLen, fontSize, runs, none, forceWidth⟩ with hkey
  cases hcur : cache.currentFrame.linesByHash.entries key with
  | some layout =>
    obtain rfl : layout = shape platform (textOf textHash textLen) fontSize runs forceWidth :=
      hcurrent.linesByHash key layout hcur
    refine ⟨cache, ?_, ⟨hprevious, hcurrent, rfl, LineLayoutIndex.le_refl _⟩⟩
    simp only [LineLayoutCache.layoutLineByHash, ← hkey, hcur]
  | none =>
    cases hprev : if key ∈ cache.previousFrame.linesByHash.used then
        cache.previousFrame.linesByHash.entries key else none with
    | some layout =>
      have hentry : cache.previousFrame.linesByHash.entries key = some layout := by
        by_cases hused : key ∈ cache.previousFrame.linesByHash.used
        · rwa [if_pos hused] at hprev
        · simp [if_neg hused] at hprev
      have hlayout : layout = shape platform (textOf textHash textLen) fontSize runs forceWidth :=
        hprevious.linesByHash key layout hentry
      exact ⟨⟨{ cache.previousFrame with
            linesByHash := cache.previousFrame.linesByHash.remove key },
          { cache.currentFrame with
            linesByHash := (cache.currentFrame.linesByHash.insert key layout).push key }⟩,
        by simp only [LineLayoutCache.layoutLineByHash, ← hkey, hcur, hprev, ← hlayout],
        ⟨⟨hprevious.lines, hprevious.wrappedLines, hprevious.linesByHash.remove⟩,
          ⟨hcurrent.lines, hcurrent.wrappedLines, hcurrent.linesByHash.serve hlayout⟩, rfl,
          grows_linesByHash key _ _⟩⟩
    | none =>
      exact ⟨⟨cache.previousFrame, { cache.currentFrame with
          linesByHash := (cache.currentFrame.linesByHash.insert key
            (shape platform (textOf textHash textLen) fontSize runs forceWidth)).push key }⟩,
        by simp only [LineLayoutCache.layoutLineByHash, ← hkey, hcur, hprev],
        ⟨hprevious, ⟨hcurrent.lines, hcurrent.wrappedLines, hcurrent.linesByHash.serve rfl⟩, rfl,
          grows_linesByHash key _ _⟩⟩

/-! ### Wrapped lines -/

/-- The layout that a key stands for when it was made for a limit. -/
theorem wrapAfresh_eq_iff {text : String} {fontSize : Pixels} {runs : List FontRun}
    {wrapWidth : Option Pixels} {m m' : Option ℕ} {layout : WrappedLineLayout}
    (h : wrapAfresh platform text fontSize runs wrapWidth m = .ok layout) :
    wrapAfresh platform text fontSize runs wrapWidth m' = .ok layout ↔
      ∀ w ∈ wrapWidth, SameBreaks (shape platform text fontSize runs none) text w m m' := by
  cases wrapWidth with
  | none => exact ⟨fun _ w hw => absurd hw (by simp), fun _ => h⟩
  | some w =>
    obtain ⟨boundaries, hboundaries, h⟩ := bind_eq_ok.mp h
    obtain rfl := Except.ok.inj h
    have hsame : (shape platform text fontSize runs none).computeWrapBoundaries text w m'
        = .ok boundaries ↔ SameBreaks (shape platform text fontSize runs none) text w m m' :=
      computeWrapBoundaries_eq_iff hboundaries
    constructor
    · rintro h' w' hw'
      obtain rfl := Option.some.inj hw'
      obtain ⟨boundaries', hboundaries', h'⟩ := bind_eq_ok.mp h'
      obtain rfl : boundaries' = boundaries :=
        congrArg WrappedLineLayout.wrapBoundaries (Except.ok.inj h')
      exact hsame.mp hboundaries'
    · intro hbreaks
      exact bind_eq_ok.mpr ⟨boundaries, hsame.mpr (hbreaks w rfl), rfl⟩

theorem FrameSound.update {key : CacheKey} {m : Option ℕ}
    (h : FrameSound platform textOf madeFor frame) (hkey : frame.wrappedLines.entries key = none) :
    FrameSound platform textOf (Function.update madeFor key m) frame := by
  refine ⟨h.lines, fun other layout hentry => ?_, h.linesByHash⟩
  have hne : other ≠ key := by
    rintro rfl
    rw [hkey] at hentry
    exact absurd hentry (by simp)
  show wrapAfresh _ _ _ _ _ (Function.update madeFor key m other) = _
  rw [Function.update_of_ne hne]
  exact h.wrappedLines other layout hentry

/-- `layout_wrapped_line` on a line that is not cached. -/
theorem layoutWrappedLine_miss (hprevious : FrameSound platform textOf madeFor cache.previousFrame)
    (hcurrent : FrameSound platform textOf madeFor cache.currentFrame) {text : String}
    {fontSize : Pixels} {runs : List FontRun} {wrapWidth : Option Pixels} (maxLines : Option ℕ)
    (hmiss : cache.caches ⟨text, fontSize, runs, wrapWidth, none⟩ = false) :
    (∃ e, wrapAfresh platform text fontSize runs wrapWidth maxLines = .error e ∧
      cache.layoutWrappedLine platform text fontSize runs wrapWidth maxLines = .error e) ∨
    ∃ cache' layout, wrapAfresh platform text fontSize runs wrapWidth maxLines = .ok layout ∧
      cache.layoutWrappedLine platform text fontSize runs wrapWidth maxLines
        = .ok (cache', layout) ∧
      Served platform textOf
        (Function.update madeFor ⟨text, fontSize, runs, wrapWidth, none⟩ maxLines)
          cache cache' := by
  set key : CacheKey := ⟨text, fontSize, runs, wrapWidth, none⟩ with hkey
  rw [LineLayoutCache.caches, Bool.or_eq_false_iff] at hmiss
  have hcur := Option.not_isSome_iff_eq_none.mp (Bool.eq_false_iff.mp hmiss.1)
  have hprev := Option.not_isSome_iff_eq_none.mp (Bool.eq_false_iff.mp hmiss.2)
  obtain ⟨cache₁, hline, hserved, hprevSame, hcurSame⟩ :=
    layoutLine_spec hprevious hcurrent text fontSize runs none
  -- laying the line out leaves the wrapped lines alone
  rw [← hcurSame] at hcur
  rw [← hprevSame] at hprev
  have hrun : cache.layoutWrappedLine platform text fontSize runs wrapWidth maxLines =
      (wrapBoundaries text wrapWidth maxLines (shape platform text fontSize runs none)).bind
        fun boundaries => .ok
          ({ cache₁ with currentFrame := { cache₁.currentFrame with
              wrappedLines := (cache₁.currentFrame.wrappedLines.insert key
                ⟨shape platform text fontSize runs none, boundaries, wrapWidth⟩).push key } },
            ⟨shape platform text fontSize runs none, boundaries, wrapWidth⟩) := by
    simp only [LineLayoutCache.layoutWrappedLine, ← hkey, ← hcurSame, ← hprevSame, hcur, hprev,
      hline]
    rfl
  cases hboundaries : wrapBoundaries text wrapWidth maxLines
      (shape platform text fontSize runs none) with
  | error e =>
    refine Or.inl ⟨e, ?_, ?_⟩
    · rw [wrapAfresh, hboundaries]
      rfl
    · rw [hrun, hboundaries]
      rfl
  | ok boundaries =>
    have hfresh : wrapAfresh platform text fontSize runs wrapWidth maxLines
        = .ok ⟨shape platform text fontSize runs none, boundaries, wrapWidth⟩ := by
      rw [wrapAfresh, hboundaries]
      rfl
    refine Or.inr ⟨_, _, hfresh, by rw [hrun, hboundaries]; rfl, ?_⟩
    -- the key was in no frame, so what it was made for may be set anew
    have hcurrent' := hserved.current.update (m := maxLines) hcur
    refine ⟨hserved.previous.update hprev, ⟨hcurrent'.lines, ?_, hcurrent'.linesByHash⟩,
      hserved.used, LineLayoutIndex.le_trans hserved.grows (grows_wrappedLines key _ _)⟩
    refine hcurrent'.wrappedLines.serve ?_
    rw [Function.update_self]
    exact hfresh

/-- `layout_wrapped_line` on a line that is cached returns the layout for the limit that it was
made for. -/
theorem layoutWrappedLine_hit (hprevious : FrameSound platform textOf madeFor cache.previousFrame)
    (hcurrent : FrameSound platform textOf madeFor cache.currentFrame) {text : String}
    {fontSize : Pixels} {runs : List FontRun} {wrapWidth : Option Pixels} (maxLines : Option ℕ)
    (hhit : cache.caches ⟨text, fontSize, runs, wrapWidth, none⟩ = true) :
    ∃ cache' layout, cache.layoutWrappedLine platform text fontSize runs wrapWidth maxLines
        = .ok (cache', layout) ∧
      wrapAfresh platform text fontSize runs wrapWidth
        (madeFor ⟨text, fontSize, runs, wrapWidth, none⟩) = .ok layout ∧
      Served platform textOf madeFor cache cache' := by
  set key : CacheKey := ⟨text, fontSize, runs, wrapWidth, none⟩ with hkey
  cases hcur : cache.currentFrame.wrappedLines.entries key with
  | some layout =>
    refine ⟨cache, layout, ?_, hcurrent.wrappedLines key layout hcur,
      ⟨hprevious, hcurrent, rfl, LineLayoutIndex.le_refl _⟩⟩
    simp only [LineLayoutCache.layoutWrappedLine, ← hkey, hcur]
  | none =>
    rw [LineLayoutCache.caches, hcur] at hhit
    obtain ⟨layout, hprev⟩ := Option.isSome_iff_exists.mp (by simpa using hhit)
    have hlayout := hprevious.wrappedLines key layout hprev
    exact ⟨⟨{ cache.previousFrame with
          wrappedLines := cache.previousFrame.wrappedLines.remove key },
        { cache.currentFrame with
          wrappedLines := (cache.currentFrame.wrappedLines.insert key layout).push key }⟩,
      layout, by simp only [LineLayoutCache.layoutWrappedLine, ← hkey, hcur, hprev], hlayout,
      ⟨⟨hprevious.lines, hprevious.wrappedLines.remove, hprevious.linesByHash⟩,
        ⟨hcurrent.lines, hcurrent.wrappedLines.serve hlayout, hcurrent.linesByHash⟩, rfl,
        grows_wrappedLines key _ _⟩⟩

/-! ### Reused ranges -/

/-- A range between two indices that the previous frame kept is reused. -/
theorem reuseLayouts_spec (hprevious : FrameSound platform textOf madeFor cache.previousFrame)
    (hcurrent : FrameSound platform textOf madeFor cache.currentFrame)
    {start stop : LineLayoutIndex}
    (hle : start ≤ stop) (hstop : stop ≤ cache.previousFrame.usedIndex) :
    ∃ cache', cache.reuseLayouts start stop = .ok cache' ∧
      Served platform textOf madeFor cache cache' := by
  obtain ⟨h₁, h₂, h₃, h₄⟩ := hle
  obtain ⟨k₁, k₂, k₃, k₄⟩ := hstop
  obtain ⟨lines, hlines, r₁⟩ := CacheTable.reuse_spec hprevious.lines hcurrent.lines h₁ k₁
  obtain ⟨wrappedLines, hwrappedLines, r₂⟩ :=
    CacheTable.reuse_spec hprevious.wrappedLines hcurrent.wrappedLines h₂ k₂
  obtain ⟨linesByHash, hlinesByHash, r₃⟩ :=
    CacheTable.reuse_spec hprevious.linesByHash hcurrent.linesByHash h₃ k₃
  obtain ⟨wrappedLinesByHash, hwrappedLinesByHash, r₄⟩ :=
    CacheTable.reuse_spec (P := fun _ _ => True) (fun _ _ _ => trivial) (fun _ _ _ => trivial) h₄ k₄
  refine ⟨⟨⟨lines.1, wrappedLines.1, linesByHash.1, wrappedLinesByHash.1⟩,
      ⟨lines.2, wrappedLines.2, linesByHash.2, wrappedLinesByHash.2⟩⟩, ?_,
    ⟨r₁.previous, r₂.previous, r₃.previous⟩, ⟨r₁.current, r₂.current, r₃.current⟩, ?_,
    r₁.grows, r₂.grows, r₃.grows, r₄.grows⟩
  · rw [LineLayoutCache.reuseLayouts]
    simp only [hlines, hwrappedLines, hlinesByHash, hwrappedLinesByHash, ok_bind]
  · simp only [FrameCache.usedIndex, r₁.used, r₂.used, r₃.used, r₄.used]

theorem le_truncate {index other : LineLayoutIndex} (hother : other ≤ cache.currentFrame.usedIndex)
    (hle : other ≤ index) : other ≤ (cache.truncateLayouts index).currentFrame.usedIndex := by
  simp only [LineLayoutIndex.le_def, FrameCache.usedIndex, LineLayoutCache.truncateLayouts,
    CacheTable.truncate, List.length_take] at hother hle ⊢
  omega

/-! ### Runs -/

theorem Sound.of_served (h : Sound platform textOf s)
    (hserved : Served platform textOf s.madeFor s.cache cache') :
    Sound platform textOf { s with cache := cache' } :=
  ⟨hserved.previous, hserved.current,
    h.previousMarked.mono (hserved.used ▸ LineLayoutIndex.le_refl _),
    h.currentMarked.mono hserved.grows⟩

/-- A call that the cache can serve does what it does afresh. -/
theorem step_spec (h : Sound platform textOf s) (call : Call)
    (hclean : s.Clean platform textOf call) :
    (∃ e, call.afresh platform = .error e ∧ s.step platform call = .error e) ∨
    ∃ s' layout, call.afresh platform = .ok layout ∧ s.step platform call = .ok (s', layout) ∧
      Sound platform textOf s' := by
  cases call with
  | layoutLine text fontSize runs forceWidth =>
    obtain ⟨cache', hrun, hserved, -⟩ :=
      layoutLine_spec h.previous h.current text fontSize runs forceWidth
    refine Or.inr ⟨_, _, rfl, ?_, h.of_served hserved⟩
    simp only [Session.step, Call.run, hrun, ok_bind, Session.after]
  | layoutLineByHash textHash textLen fontSize runs forceWidth text =>
    -- a hash stands for one text in a clean run
    obtain rfl : text = textOf textHash textLen := hclean
    obtain ⟨cache', hrun, hserved⟩ :=
      layoutLineByHash_spec h.previous h.current textHash textLen fontSize runs forceWidth
    refine Or.inr ⟨_, _, rfl, ?_, h.of_served hserved⟩
    simp only [Session.step, Call.run, hrun, ok_bind, Session.after]
  | layoutWrappedLine text fontSize runs wrapWidth maxLines =>
    cases hcached : s.cache.caches ⟨text, fontSize, runs, wrapWidth, none⟩ with
    | true =>
      obtain ⟨cache', layout, hrun, hmade, hserved⟩ :=
        layoutWrappedLine_hit h.previous h.current maxLines hcached
      -- the layout may be made for other `max_lines`, which makes no difference in a clean step
      have hfresh := (wrapAfresh_eq_iff hmade).mpr (hclean hcached)
      refine Or.inr ⟨_, some (.wrapped layout), ?_, ?_, h.of_served hserved⟩
      · rw [Call.afresh, hfresh]
        rfl
      · simp only [Session.step, Call.run, hrun, ok_bind, Session.after, hcached, if_true]
    | false =>
      -- a line that is laid out anew may fail, as it does without a cache
      obtain ⟨e, hfresh, hrun⟩ | ⟨cache', layout, hfresh, hrun, hserved⟩ :=
        layoutWrappedLine_miss h.previous h.current maxLines hcached
      · refine Or.inl ⟨e, ?_, ?_⟩
        · rw [Call.afresh, hfresh]
          rfl
        · simp only [Session.step, Call.run, hrun, error_bind]
      · refine Or.inr ⟨{ s with
          cache := cache'
          madeFor := Function.update s.madeFor ⟨text, fontSize, runs, wrapWidth, none⟩ maxLines },
          some (.wrapped layout), ?_, ?_, hserved.previous, hserved.current,
          h.previousMarked.mono (hserved.used ▸ LineLayoutIndex.le_refl _),
          h.currentMarked.mono hserved.grows⟩
        · rw [Call.afresh, hfresh]
          rfl
        · simp only [Session.step, Call.run, hrun, ok_bind, Session.after, hcached]
          rfl
  | layoutIndex =>
    refine Or.inr ⟨_, _, rfl, rfl, h.previous, h.current, h.previousMarked, ?_, ?_⟩
    · intro index hindex
      rcases List.mem_append.mp hindex with hindex | hindex
      · exact h.currentMarked.within index hindex
      · rw [List.mem_singleton.mp hindex]
        exact LineLayoutIndex.le_refl _
    · -- a new index is behind those that were handed out
      refine List.pairwise_append.mpr ⟨h.currentMarked.sorted, by simp, fun a ha b hb => ?_⟩
      rw [List.mem_singleton.mp hb]
      exact h.currentMarked.within a ha
  | reuseLayouts start stop =>
    have hclean : [start, stop].Sublist s.previousIndices := hclean
    -- both were handed out in the last frame, in this order
    have hle : start ≤ stop := by
      simpa using h.previousMarked.sorted.sublist hclean
    have hstop := h.previousMarked.within stop (hclean.subset (by simp))
    obtain ⟨cache', hrun, hserved⟩ := reuseLayouts_spec h.previous h.current hle hstop
    refine Or.inr ⟨_, _, rfl, ?_, h.of_served hserved⟩
    simp only [Session.step, Call.run, hrun, ok_bind, Session.after]
  | truncateLayouts index =>
    have hcurrent : FrameSound platform textOf s.madeFor
        (s.cache.truncateLayouts index).currentFrame :=
      ⟨h.current.lines, h.current.wrappedLines, h.current.linesByHash⟩
    refine Or.inr ⟨_, _, rfl, rfl, h.previous, hcurrent, h.previousMarked, ?_,
      h.currentMarked.sorted.filter _⟩
    intro other hother
    obtain ⟨hother, hle⟩ := List.mem_filter.mp hother
    exact le_truncate (h.currentMarked.within other hother) (of_decide_eq_true hle)
  | finishFrame =>
    exact Or.inr ⟨_, _, rfl, rfl, h.current, frameSound_default, h.currentMarked,
      fun _ hindex => absurd hindex List.not_mem_nil, List.Pairwise.nil⟩

/-- A run of calls that the cache can serve does what the calls do afresh. -/
theorem runAll_spec : ∀ (calls : List Call) {s : Session}, Sound platform textOf s →
    s.CleanAll platform textOf calls →
    (∃ e, calls.mapM (Call.afresh platform) = .error e ∧ s.runAll platform calls = .error e) ∨
    ∃ s' layouts, calls.mapM (Call.afresh platform) = .ok layouts ∧
      s.runAll platform calls = .ok (s', layouts) ∧ Sound platform textOf s' := by
  intro calls
  induction calls with
  | nil => exact fun h _ => Or.inr ⟨_, [], rfl, rfl, h⟩
  | cons call calls ih =>
    intro s h hclean
    obtain ⟨hcall, hrest⟩ := hclean
    obtain ⟨e, hfresh, hrun⟩ | ⟨s₁, layout, hfresh, hrun, h₁⟩ := step_spec h call hcall
    · refine Or.inl ⟨e, ?_, ?_⟩
      · rw [List.mapM_cons, hfresh]
        rfl
      · rw [Session.runAll, hrun]
        rfl
    · obtain ⟨e, hfreshes, hruns⟩ | ⟨s', layouts, hfreshes, hruns, h'⟩ :=
        ih h₁ (hrest s₁ layout hrun)
      · refine Or.inl ⟨e, ?_, ?_⟩
        · rw [List.mapM_cons, hfresh, ok_bind, hfreshes]
          rfl
        · rw [Session.runAll, hrun, ok_bind]
          simp only [hruns, error_bind]
      · refine Or.inr ⟨s', layout :: layouts, ?_, ?_, h'⟩
        · rw [List.mapM_cons, hfresh, ok_bind, hfreshes]
          rfl
        · rw [Session.runAll, hrun, ok_bind]
          simp only [hruns, ok_bind]

/-- A wrapped line comes out as it is computed afresh exactly when the cache can serve it. -/
theorem layoutWrappedLine_fresh_iff (h : Sound platform textOf s) (text : String)
    (fontSize : Pixels) (runs : List FontRun) (wrapWidth : Option Pixels) (maxLines : Option ℕ) :
    (s.step platform (.layoutWrappedLine text fontSize runs wrapWidth maxLines)).map Prod.snd
        = Call.afresh platform (.layoutWrappedLine text fontSize runs wrapWidth maxLines) ↔
      s.Clean platform textOf (.layoutWrappedLine text fontSize runs wrapWidth maxLines) := by
  constructor
  · intro heq hcached
    obtain ⟨cache', layout, hrun, hmade, -⟩ :=
      layoutWrappedLine_hit h.previous h.current maxLines hcached
    refine (wrapAfresh_eq_iff hmade).mp ?_
    simp only [Session.step, Call.run, hrun, ok_bind] at heq
    obtain ⟨fresh, hfresh, hlayout⟩ := bind_eq_ok.mp heq.symm
    obtain rfl : fresh = layout := by simpa using hlayout
    exact hfresh
  · intro hclean
    obtain ⟨e, hfresh, hrun⟩ | ⟨s', layout, hfresh, hrun, -⟩ := step_spec h _ hclean
    · rw [hfresh, hrun]
      rfl
    · rw [hfresh, hrun]
      rfl

end Steps

/-- **Transparency.**  A run of calls returns the layouts that the calls compute afresh, and
does not reuse a range out of bounds, when every cached wrapped line was made for a limit with
the same breaks and no reused range was cut off.  In a session that is reached, a wrapped line
comes out right under that condition only. -/
theorem cache_transparent (platform : PlatformTextSystem) (textOf : ℕ → ℕ → String)
    (calls : List Call) (hclean : Session.new.CleanAll platform textOf calls) :
    (Session.new.runAll platform calls).map Prod.snd = calls.mapM (Call.afresh platform) ∧
    ∀ s layouts, Session.new.runAll platform calls = .ok (s, layouts) →
      ∀ text fontSize runs wrapWidth maxLines,
        (s.step platform (.layoutWrappedLine text fontSize runs wrapWidth maxLines)).map Prod.snd
            = Call.afresh platform (.layoutWrappedLine text fontSize runs wrapWidth maxLines) ↔
          s.Clean platform textOf
            (.layoutWrappedLine text fontSize runs wrapWidth maxLines) := by
  have hnew : Sound platform textOf .new := sound_new
  obtain ⟨e, hfresh, hrun⟩ | ⟨s', layouts', hfresh, hrun, h⟩ := runAll_spec calls hnew hclean
  · refine ⟨by rw [hfresh, hrun]; rfl, fun s layouts hok => ?_⟩
    rw [hrun] at hok
    exact absurd hok (by simp)
  · refine ⟨by rw [hfresh, hrun]; rfl, fun s layouts hok => ?_⟩
    obtain ⟨rfl, -⟩ := Prod.mk.inj (Except.ok.inj (hrun.symm.trans hok))
    exact layoutWrappedLine_fresh_iff h

/-- A platform on which every line is three glyphs of width one. -/
def threeGlyphs : PlatformTextSystem := fun _ fontSize _ =>
  ⟨fontSize, 3, 1, 0, [⟨0, [⟨0, ⟨0, 0⟩, 0, false⟩, ⟨0, ⟨1, 0⟩, 1, false⟩, ⟨0, ⟨2, 0⟩, 2, false⟩]⟩],
    3⟩

/-- The theorem at a wrapped line that two frames lay out, with its range reused in between. -/
theorem cache_transparent_frames :
    (Session.new.runAll threeGlyphs [.layoutIndex, .layoutWrappedLine "aaa" 1 [] (some 1) none,
        .layoutIndex, .finishFrame, .reuseLayouts ⟨0, 0, 0, 0⟩ ⟨1, 1, 0, 0⟩,
        .layoutWrappedLine "aaa" 1 [] (some 1) none]).map Prod.snd
      = [.layoutIndex, .layoutWrappedLine "aaa" 1 [] (some 1) none, .layoutIndex, .finishFrame,
          .reuseLayouts ⟨0, 0, 0, 0⟩ ⟨1, 1, 0, 0⟩,
          .layoutWrappedLine "aaa" 1 [] (some 1) none].mapM (Call.afresh threeGlyphs) := by
  exact (cache_transparent threeGlyphs (fun _ _ => "") _ (by decide +kernel)).1

/-- Two runs that do not return what the calls compute afresh.  In the first one the second call
allows one line and gets the three lines of the first call.  In the second one a range is reused
that was cut off in its frame. -/
theorem cache_not_transparent :
    ((Session.new.runAll threeGlyphs [.layoutWrappedLine "aaa" 1 [] (some 1) none,
        .layoutWrappedLine "aaa" 1 [] (some 1) (some 1)]).map Prod.snd
      ≠ [.layoutWrappedLine "aaa" 1 [] (some 1) none,
          .layoutWrappedLine "aaa" 1 [] (some 1) (some 1)].mapM (Call.afresh threeGlyphs)) ∧
    (Session.new.runAll threeGlyphs [.layoutIndex, .layoutLine "aaa" 1 [] none, .layoutIndex,
        .truncateLayouts ⟨0, 0, 0, 0⟩, .finishFrame,
        .reuseLayouts ⟨0, 0, 0, 0⟩ ⟨1, 0, 0, 0⟩]).map Prod.snd
      = .error .indexOutOfBounds := by
  constructor
  · decide +kernel
  · decide +kernel

end TextSystem

end Zui
