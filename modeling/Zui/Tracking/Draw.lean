/-
The entities that a draw accesses.

A window draws a tree of elements in three phases, and the code of an element may read
entities in each of them.  Every read goes into one set.  A cached view that is rendered
keeps the entities that its rendering added to the set, and when it is reused it adds
those it keeps.

Design notes:

* of the cache key and of the dirty views only the outcome is kept: an element says
  whether its view is `unchanged`;
* a view keeps, next to the set of the code, all entities that its content was produced
  from (`contentReads`), which no code looks at.

Main statements:

* `prepaint_accessed`, `paint_accessed` — what the two phases add to the set;
* `accessed_draw` — what a draw has accessed in the end.
-/
import Mathlib

namespace Zui.Gpui.Tracking

variable {EntityId : Type} [DecidableEq EntityId]

/-- A tree of elements before it is drawn. -/
inductive Element (EntityId : Type)
  | empty
  /-- One after the other. -/
  | both (first second : Element EntityId)
  /-- An element, with the entities that it reads in the three phases. -/
  | reading (requestLayout prepaint paint : Finset EntityId)
  /-- A cached view with what rendering it gives.  It is `unchanged` if its bounds, content
  mask and text style are those of its cache key and it is not one of the dirty views. -/
  | cached (entityId : EntityId) (unchanged : Bool) (render : Element EntityId)

/-- `ViewElementState`. -/
structure ViewElementState (EntityId : Type) where
  accessedEntities : Finset EntityId
  /-- The entities that the code read that produced the content of the view. -/
  contentReads : Finset EntityId

/-- A tree of elements that is prepainted. -/
inductive Prepainted (EntityId : Type)
  | empty
  | both (first second : Prepainted EntityId)
  | reading (requestLayout prepaint paint : Finset EntityId)
  /-- A cached view that was rendered. -/
  | rendered (child : Prepainted EntityId)
  /-- A cached view that was reused, with its state. -/
  | reused (state : ViewElementState EntityId)

/-- The element states by the path of the view, and `accessed_entities`. -/
structure DrawState (EntityId : Type) where
  elementStates : List EntityId → Option (ViewElementState EntityId)
  accessed : Finset EntityId

namespace Prepainted

/-- The entities that the code read that produced the content of the tree. -/
def contentReads : Prepainted EntityId → Finset EntityId
  | empty => ∅
  | both first second => first.contentReads ∪ second.contentReads
  | reading requestLayout prepaint paint => requestLayout ∪ prepaint ∪ paint
  | rendered child => child.contentReads
  | reused state => state.contentReads

end Prepainted

namespace Element

/-- Request the layout of a tree. -/
def requestLayout : Element EntityId → Finset EntityId → Finset EntityId
  | empty, accessed => accessed
  | both first second, accessed => second.requestLayout (first.requestLayout accessed)
  | reading requestLayout _ _, accessed => accessed ∪ requestLayout
  -- Only the style of a cached view takes part in the layout.
  | cached _ _ _, accessed => accessed

/-- Prepaint a tree; `refreshing` is set in a window that refreshes and in a view that is
rendered. -/
def prepaint :
    Element EntityId → Bool → List EntityId → DrawState EntityId →
      Prepainted EntityId × DrawState EntityId
  | empty, _, _, state => (.empty, state)
  | both first second, refreshing, path, state =>
    let (first, state) := first.prepaint refreshing path state
    let (second, state) := second.prepaint refreshing path state
    (.both first second, state)
  | reading requestLayout prepaint paint, _, _, state =>
    (.reading requestLayout prepaint paint, { state with accessed := state.accessed ∪ prepaint })
  | cached entityId unchanged render, refreshing, path, state =>
    let elementState :=
      (state.elementStates (entityId :: path)).filter fun _ => unchanged && !refreshing
    match elementState with
    | some elementState =>
      (.reused elementState,
        { state with accessed := state.accessed ∪ elementState.accessedEntities })
    | none =>
      -- `detect_accessed_entities`.
      let start := state.accessed
      let (child, state) :=
        render.prepaint true (entityId :: path)
          { state with accessed := render.requestLayout start }
      let elementState : ViewElementState EntityId :=
        { accessedEntities := state.accessed \ start
          contentReads := child.contentReads }
      (.rendered child,
        { state with
          elementStates := fun id =>
            if id = entityId :: path then some elementState else state.elementStates id })

end Element

namespace Prepainted

/-- Paint a tree. -/
def paint : Prepainted EntityId → Finset EntityId → Finset EntityId
  | empty, accessed => accessed
  | both first second, accessed => second.paint (first.paint accessed)
  | reading _ _ paint, accessed => accessed ∪ paint
  | rendered child, accessed => child.paint accessed
  | reused _, accessed => accessed

/-! ### What was read -/

/-- The entities that the code reads that runs in the draw. -/
def codeReads : Prepainted EntityId → Finset EntityId
  | empty => ∅
  | both first second => first.codeReads ∪ second.codeReads
  | reading requestLayout prepaint paint => requestLayout ∪ prepaint ∪ paint
  | rendered child => child.codeReads
  | reused _ => ∅

/-- The states of the views that are reused. -/
def reusedStates : Prepainted EntityId → List (ViewElementState EntityId)
  | empty => []
  | both first second => first.reusedStates ++ second.reusedStates
  | reading _ _ _ => []
  | rendered child => child.reusedStates
  | reused state => [state]

/-- The entities that the views keep that are reused. -/
def kept : Prepainted EntityId → Finset EntityId
  | empty => ∅
  | both first second => first.kept ∪ second.kept
  | reading _ _ _ => ∅
  | rendered child => child.kept
  | reused state => state.accessedEntities

/-- What is read while the layout of the tree is requested. -/
def layoutReads : Prepainted EntityId → Finset EntityId
  | empty => ∅
  | both first second => first.layoutReads ∪ second.layoutReads
  | reading requestLayout _ _ => requestLayout
  | rendered _ => ∅
  | reused _ => ∅

/-- What prepainting the tree adds. -/
def prepaintReads : Prepainted EntityId → Finset EntityId
  | empty => ∅
  | both first second => first.prepaintReads ∪ second.prepaintReads
  | reading _ prepaint _ => prepaint
  | rendered child => child.layoutReads ∪ child.prepaintReads
  | reused state => state.accessedEntities

/-- What painting the tree adds. -/
def paintReads : Prepainted EntityId → Finset EntityId
  | empty => ∅
  | both first second => first.paintReads ∪ second.paintReads
  | reading _ _ paint => paint
  | rendered child => child.paintReads
  | reused _ => ∅

theorem paint_accessed (tree : Prepainted EntityId) (accessed : Finset EntityId) :
    tree.paint accessed = accessed ∪ tree.paintReads := by
  induction tree generalizing accessed with
  | empty => simp [paint, paintReads]
  | both first second ih ih' => rw [paint, ih, ih', paintReads, Finset.union_assoc]
  | reading => rfl
  | rendered child ih => exact ih accessed
  | reused => simp [paint, paintReads]

/-- The three phases together: the code that runs, and what the reused views keep. -/
theorem reads_eq (tree : Prepainted EntityId) :
    tree.layoutReads ∪ tree.prepaintReads ∪ tree.paintReads = tree.codeReads ∪ tree.kept := by
  induction tree with
  | empty => rfl
  | both first second ih ih' =>
    simp only [layoutReads, prepaintReads, paintReads, codeReads, kept]
    rw [Finset.union_union_union_comm first.codeReads, ← ih, ← ih']
    ext e
    simp only [Finset.mem_union]
    tauto
  | reading => simp [layoutReads, prepaintReads, paintReads, codeReads, kept]
  | rendered child ih =>
    simp only [layoutReads, prepaintReads, paintReads, codeReads, kept, Finset.empty_union]
    exact ih
  | reused => simp [layoutReads, prepaintReads, paintReads, codeReads, kept]

/-- The content of a tree was produced by the code that runs and by the code that ran for
the reused views. -/
theorem mem_contentReads {tree : Prepainted EntityId} {e : EntityId} :
    e ∈ tree.contentReads ↔
      e ∈ tree.codeReads ∨ ∃ state ∈ tree.reusedStates, e ∈ state.contentReads := by
  induction tree with
  | empty => simp [contentReads, codeReads, reusedStates]
  | both first second ih ih' =>
    simp only [contentReads, codeReads, reusedStates, Finset.mem_union, List.mem_append, ih, ih',
      or_and_right, exists_or]
    exact or_or_or_comm
  | reading => simp [contentReads, codeReads, reusedStates]
  | rendered child ih => exact ih
  | reused => simp [contentReads, codeReads, reusedStates]

end Prepainted

namespace Element

theorem requestLayout_accessed (tree : Element EntityId) (refreshing : Bool)
    (path : List EntityId) (state : DrawState EntityId) (accessed : Finset EntityId) :
    tree.requestLayout accessed =
      accessed ∪ (tree.prepaint refreshing path state).1.layoutReads := by
  induction tree generalizing state accessed with
  | empty => simp [requestLayout, prepaint, Prepainted.layoutReads]
  | both first second ih ih' =>
    rw [requestLayout, ih state, ih' (first.prepaint refreshing path state).2]
    exact Finset.union_assoc ..
  | reading => rfl
  | cached entityId unchanged render =>
    simp only [requestLayout, prepaint]
    split <;> simp [Prepainted.layoutReads]

theorem prepaint_accessed (tree : Element EntityId) (refreshing : Bool) (path : List EntityId)
    (state : DrawState EntityId) :
    (tree.prepaint refreshing path state).2.accessed =
      state.accessed ∪ (tree.prepaint refreshing path state).1.prepaintReads := by
  induction tree generalizing refreshing path state with
  | empty => simp [prepaint, Prepainted.prepaintReads]
  | both first second ih ih' =>
    have hfirst := ih refreshing path state
    have hsecond := ih' refreshing path (first.prepaint refreshing path state).2
    rw [hfirst] at hsecond
    exact hsecond.trans (Finset.union_assoc ..)
  | reading => rfl
  | cached entityId unchanged render ih =>
    simp only [prepaint]
    split
    · rfl
    · -- The layout of the view is requested while it is prepainted.
      have hlayout := requestLayout_accessed render true (entityId :: path)
        { state with accessed := render.requestLayout state.accessed } state.accessed
      refine (ih ..).trans ?_
      dsimp only [Prepainted.prepaintReads]
      rw [← Finset.union_assoc, ← hlayout]

/-- What `Window::draw` has accessed after the three phases. -/
def draw (tree : Element EntityId) (refreshing : Bool)
    (elementStates : List EntityId → Option (ViewElementState EntityId)) :
    Prepainted EntityId × DrawState EntityId :=
  -- `clear_accessed`.
  let accessed := tree.requestLayout ∅
  let (prepainted, state) := tree.prepaint refreshing [] ⟨elementStates, accessed⟩
  (prepainted, { state with accessed := prepainted.paint state.accessed })

/-- A draw accesses what the code reads that runs and what the reused views keep. -/
theorem accessed_draw (tree : Element EntityId) (refreshing : Bool)
    (elementStates : List EntityId → Option (ViewElementState EntityId)) :
    (tree.draw refreshing elementStates).2.accessed =
      (tree.draw refreshing elementStates).1.codeReads ∪
        (tree.draw refreshing elementStates).1.kept := by
  obtain ⟨start, hstart⟩ : ∃ start, tree.requestLayout ∅ = start := ⟨_, rfl⟩
  have hlayout := requestLayout_accessed tree refreshing [] ⟨elementStates, start⟩ ∅
  have hprepaint := prepaint_accessed tree refreshing [] ⟨elementStates, start⟩
  rw [hstart, Finset.empty_union] at hlayout
  rw [← Prepainted.reads_eq]
  simp only [draw, hstart]
  rw [Prepainted.paint_accessed, hprepaint, ← hlayout]

end Element

end Zui.Gpui.Tracking
