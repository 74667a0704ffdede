/-
Notifications and the windows that show an entity.

`App::notify` marks the windows dirty that it finds in two tables: the windows by entity,
and the entities by window.  A draw replaces the entries of its window by the entities
that it has accessed.

Design notes:

* a window keeps, for the statements, the entities that the code read that produced the
  content of its current frame (`shown`);
* the entities that were released are kept for the statements too;
* the operations of a run happen one after the other, outside of each other; what code
  does between draws without notifying is no operation.

Main statements:

* `Tracked` — the two tables agree, but for released entities;
* `marks_iff` — a notification marks a window that is not dirty exactly if the window
  tracks the entity;
* `notify_marks_iff` — in a run, notifications reach every window that shows the entity
  exactly if in every draw the views that it reuses are accounted for.
-/
import Zui.Tracking.Draw

namespace Zui.Gpui.Tracking

variable {EntityId WindowId : Type} [DecidableEq EntityId] [DecidableEq WindowId]

/-- A window between two draws. -/
structure Window (EntityId : Type) where
  /-- `invalidator.dirty`. -/
  dirty : Bool := true
  /-- `invalidator.dirty_views`. -/
  dirtyViews : Finset EntityId := ∅
  refreshing : Bool := false
  elementStates : List EntityId → Option (ViewElementState EntityId) := fun _ => none
  /-- The entities that the code read that produced the content of the current frame. -/
  shown : Finset EntityId := ∅

/-- `App`, as far as notifications go. -/
structure App (EntityId WindowId : Type) where
  windows : WindowId → Window EntityId := fun _ => {}
  windowInvalidatorsByEntity : EntityId → Finset WindowId := fun _ => ∅
  trackedEntities : WindowId → Finset EntityId := fun _ => ∅
  currentWindowByEntity : EntityId → Option WindowId := fun _ => none
  accessedEntities : Finset EntityId := ∅
  pendingNotifications : Finset EntityId := ∅
  /-- The emitters of the effects `Notify`. -/
  pendingEffects : List EntityId := []
  /-- The entities that were released. -/
  released : Finset EntityId := ∅

namespace App

/-- A window is replaced. -/
def setWindow (app : App EntityId WindowId) (id : WindowId) (window : Window EntityId) :
    App EntityId WindowId :=
  { app with windows := fun id' => if id' = id then window else app.windows id' }

/-- `record_entities_accessed`. -/
def recordEntitiesAccessed (app : App EntityId WindowId) (id : WindowId)
    (entities : Finset EntityId) : App EntityId WindowId :=
  let tracked := app.trackedEntities id
  let removed := fun entity =>
    if entity ∈ tracked then (app.windowInvalidatorsByEntity entity).erase id
    else app.windowInvalidatorsByEntity entity
  { app with
    windowInvalidatorsByEntity := fun entity =>
      if entity ∈ entities then insert id (removed entity) else removed entity
    currentWindowByEntity := fun entity =>
      if entity ∈ entities then some id else app.currentWindowByEntity entity
    trackedEntities := fun id' => if id' = id then entities else app.trackedEntities id' }

/-- `Window::draw` of a tree of elements; `listenerReads` are the entities that the focus
listeners read, which it calls at its end. -/
def draw (app : App EntityId WindowId) (id : WindowId) (tree : Element EntityId)
    (listenerReads : Finset EntityId) : App EntityId WindowId :=
  let window := app.windows id
  let (prepainted, state) := tree.draw window.refreshing window.elementStates
  let accessed := state.accessed ∪ listenerReads
  let app := app.setWindow id
    { dirty := false
      dirtyViews := ∅
      refreshing := false
      elementStates := state.elementStates
      shown := prepainted.contentReads }
  { app.recordEntitiesAccessed id accessed with accessedEntities := accessed }

/-- `push_effect` of `Effect::Notify`. -/
def pushNotify (app : App EntityId WindowId) (emitter : EntityId) : App EntityId WindowId :=
  if emitter ∈ app.pendingNotifications then app
  else
    { app with
      pendingNotifications := insert emitter app.pendingNotifications
      pendingEffects := app.pendingEffects ++ [emitter] }

/-- The windows in `App::notify` that track the entity. -/
def liveInvalidators (app : App EntityId WindowId) (entity : EntityId) : Finset WindowId :=
  (app.windowInvalidatorsByEntity entity).filter fun id => entity ∈ app.trackedEntities id

/-- `App::notify` outside of a draw. -/
def notify (app : App EntityId WindowId) (entity : EntityId) : App EntityId WindowId :=
  let live := app.liveInvalidators entity
  if live = ∅ then app.pushNotify entity
  else
    -- `invalidate_view` of each window; only the first of them adds the effect.
    pushNotify
      { app with
        windows := fun id =>
          if id ∈ live then
            { app.windows id with
              dirty := true
              dirtyViews := insert entity (app.windows id).dirtyViews }
          else app.windows id }
      entity

/-- `Window::refresh`. -/
def refresh (app : App EntityId WindowId) (id : WindowId) : App EntityId WindowId :=
  app.setWindow id { app.windows id with refreshing := true, dirty := true }

/-- What `update_window_id` does for a window that was removed. -/
def removeWindow (app : App EntityId WindowId) (id : WindowId) : App EntityId WindowId :=
  let tracked := app.trackedEntities id
  { app.setWindow id {} with
    trackedEntities := fun id' => if id' = id then ∅ else app.trackedEntities id'
    windowInvalidatorsByEntity := fun entity =>
      if entity ∈ tracked then (app.windowInvalidatorsByEntity entity).erase id
      else app.windowInvalidatorsByEntity entity
    currentWindowByEntity := fun entity =>
      if entity ∈ tracked ∧ app.currentWindowByEntity entity = some id then none
      else app.currentWindowByEntity entity }

/-- What `release_dropped_entities` does for an entity. -/
def release (app : App EntityId WindowId) (entity : EntityId) : App EntityId WindowId :=
  { app with
    accessedEntities := app.accessedEntities.erase entity
    windowInvalidatorsByEntity := fun entity' =>
      if entity' = entity then ∅ else app.windowInvalidatorsByEntity entity'
    currentWindowByEntity := fun entity' =>
      if entity' = entity then none else app.currentWindowByEntity entity'
    released := insert entity app.released }

/-- `flush_effects` takes the next notification. -/
def takeNotify (app : App EntityId WindowId) : App EntityId WindowId :=
  match app.pendingEffects with
  | [] => app
  | emitter :: pendingEffects =>
    { app with
      pendingEffects := pendingEffects
      pendingNotifications := app.pendingNotifications.erase emitter }

end App

/-- An operation between which nothing else happens to windows and notifications. -/
inductive Op (EntityId WindowId : Type)
  | draw (id : WindowId) (tree : Element EntityId) (listenerReads : Finset EntityId)
  | notify (entity : EntityId)
  | refresh (id : WindowId)
  | removeWindow (id : WindowId)
  | release (entity : EntityId)
  | takeNotify

/-- An operation. -/
def step (app : App EntityId WindowId) : Op EntityId WindowId → App EntityId WindowId
  | .draw id tree listenerReads => app.draw id tree listenerReads
  | .notify entity => app.notify entity
  | .refresh id => app.refresh id
  | .removeWindow id => app.removeWindow id
  | .release entity => app.release entity
  | .takeNotify => app.takeNotify

/-- A run of operations from the start. -/
def run (ops : List (Op EntityId WindowId)) : App EntityId WindowId := ops.foldl step {}

/-- A notification of an entity that is not released marks every window that shows it. -/
def Marks (app : App EntityId WindowId) : Prop :=
  ∀ entity, entity ∉ app.released → ∀ id, entity ∈ (app.windows id).shown →
    ((app.notify entity).windows id).dirty = true

/-- In a draw, every entity that a reused view was produced from is kept by a reused view
or read by the code that runs, unless it is released. -/
def Accounted (app : App EntityId WindowId) (id : WindowId) (tree : Element EntityId)
    (listenerReads : Finset EntityId) : Prop :=
  let prepainted := (tree.draw (app.windows id).refreshing (app.windows id).elementStates).1
  ∀ state ∈ prepainted.reusedStates, ∀ entity ∈ state.contentReads, entity ∉ app.released →
    entity ∈ prepainted.codeReads ∪ prepainted.kept ∪ listenerReads

/-! ### The two tables -/

/-- The two tables agree, but for released entities. -/
structure Tracked (app : App EntityId WindowId) : Prop where
  tracked : ∀ entity id, id ∈ app.windowInvalidatorsByEntity entity →
    entity ∈ app.trackedEntities id
  invalidated : ∀ entity id, entity ∈ app.trackedEntities id → entity ∉ app.released →
    id ∈ app.windowInvalidatorsByEntity entity

namespace App

/-- The windows by entity after a draw: those of other windows are as before. -/
theorem mem_recordEntitiesAccessed {app : App EntityId WindowId} {id id' : WindowId}
    {entities : Finset EntityId} {entity : EntityId} :
    id' ∈ (app.recordEntitiesAccessed id entities).windowInvalidatorsByEntity entity ↔
      if id' = id then
        entity ∈ entities ∨
          (entity ∉ app.trackedEntities id ∧ id ∈ app.windowInvalidatorsByEntity entity)
      else id' ∈ app.windowInvalidatorsByEntity entity := by
  simp only [recordEntitiesAccessed]
  by_cases hentities : entity ∈ entities <;> by_cases htracked : entity ∈ app.trackedEntities id <;>
    by_cases hid : id' = id <;> simp [hentities, htracked, hid]

end App

theorem Tracked.draw {app : App EntityId WindowId} (h : Tracked app) (id : WindowId)
    (tree : Element EntityId) (listenerReads : Finset EntityId) :
    Tracked (app.draw id tree listenerReads) := by
  constructor
  · intro entity id' hmem
    have hmem := App.mem_recordEntitiesAccessed.mp hmem
    simp only [App.draw, App.recordEntitiesAccessed]
    split at hmem
    · rename_i hid
      rw [if_pos hid]
      -- An entry that stayed would have been tracked before.
      rcases hmem with hmem | ⟨hnot, hmem⟩
      · exact hmem
      · exact (hnot (h.tracked entity id hmem)).elim
    · rename_i hid
      rw [if_neg hid]
      exact h.tracked entity id' hmem
  · intro entity id' hmem hreleased
    simp only [App.draw, App.recordEntitiesAccessed] at hmem
    refine App.mem_recordEntitiesAccessed.mpr ?_
    split at hmem
    · rename_i hid
      rw [if_pos hid]
      exact .inl hmem
    · rename_i hid
      rw [if_neg hid]
      exact h.invalidated entity id' hmem hreleased

omit [DecidableEq WindowId] in
theorem pushNotify_eq (app : App EntityId WindowId) (entity : EntityId) :
    ∃ pending effects, app.pushNotify entity =
      { app with pendingNotifications := pending, pendingEffects := effects } := by
  rw [App.pushNotify]
  split
  · exact ⟨_, _, rfl⟩
  · exact ⟨_, _, rfl⟩

/-- A notification marks the windows that it finds and leaves the tables. -/
theorem notify_eq (app : App EntityId WindowId) (entity : EntityId) :
    ∃ pending effects, app.notify entity =
      { app with
        windows := fun id =>
          if id ∈ app.liveInvalidators entity then
            { app.windows id with
              dirty := true
              dirtyViews := insert entity (app.windows id).dirtyViews }
          else app.windows id
        pendingNotifications := pending
        pendingEffects := effects } := by
  simp only [App.notify]
  split
  · rename_i hempty
    obtain ⟨pending, effects, heq⟩ := pushNotify_eq app entity
    refine ⟨pending, effects, ?_⟩
    simp only [heq, hempty, Finset.notMem_empty, if_false]
  · exact pushNotify_eq _ entity

theorem Tracked.removeWindow {app : App EntityId WindowId} (h : Tracked app) (id : WindowId) :
    Tracked (app.removeWindow id) := by
  constructor
  · intro entity id' hmem
    simp only [App.removeWindow, App.setWindow] at hmem ⊢
    by_cases hid : id' = id
    · subst hid
      split at hmem
      · simp at hmem
      · rename_i hnot
        exact (hnot (h.tracked entity id' hmem)).elim
    · rw [if_neg hid]
      split at hmem
      · exact h.tracked entity id' (Finset.mem_of_mem_erase hmem)
      · exact h.tracked entity id' hmem
  · intro entity id' hmem hreleased
    simp only [App.removeWindow, App.setWindow] at hmem ⊢
    by_cases hid : id' = id
    · simp [hid] at hmem
    · rw [if_neg hid] at hmem
      have hinv := h.invalidated entity id' hmem hreleased
      split
      · exact Finset.mem_erase.mpr ⟨hid, hinv⟩
      · exact hinv

omit [DecidableEq WindowId] in
theorem Tracked.release {app : App EntityId WindowId} (h : Tracked app) (entity : EntityId) :
    Tracked (app.release entity) := by
  constructor
  · intro entity' id hmem
    simp only [App.release] at hmem ⊢
    split at hmem
    · simp at hmem
    · exact h.tracked entity' id hmem
  · intro entity' id hmem hreleased
    simp only [App.release, Finset.mem_insert, not_or] at hmem hreleased ⊢
    rw [if_neg hreleased.1]
    exact h.invalidated entity' id hmem hreleased.2

theorem Tracked.step {app : App EntityId WindowId} (h : Tracked app)
    (op : Op EntityId WindowId) : Tracked (step app op) := by
  cases op with
  | draw id tree listenerReads => exact h.draw id tree listenerReads
  | notify entity =>
    obtain ⟨pending, effects, heq⟩ := notify_eq app entity
    simp only [Tracking.step, heq]
    exact ⟨h.tracked, h.invalidated⟩
  | refresh id => exact ⟨h.tracked, h.invalidated⟩
  | removeWindow id => exact h.removeWindow id
  | release entity => exact h.release entity
  | takeNotify =>
    simp only [Tracking.step, App.takeNotify]
    split
    · exact h
    · exact ⟨h.tracked, h.invalidated⟩

/-- A notification of an entity marks a window that is not dirty exactly if it tracks the
entity. -/
theorem marks_iff {app : App EntityId WindowId} (h : Tracked app) {entity : EntityId}
    (hreleased : entity ∉ app.released) (id : WindowId) :
    ((app.notify entity).windows id).dirty = true ↔
      (app.windows id).dirty = true ∨ entity ∈ app.trackedEntities id := by
  obtain ⟨pending, effects, heq⟩ := notify_eq app entity
  rw [heq]
  dsimp only
  split
  · rename_i hlive
    exact iff_of_true rfl (.inr (Finset.mem_filter.mp hlive).2)
  · rename_i hlive
    constructor
    · exact .inl
    · rintro (hdirty | htracked)
      · exact hdirty
      · exact (hlive (Finset.mem_filter.mpr
          ⟨h.invalidated entity id htracked hreleased, htracked⟩)).elim

/-! ### What the windows show -/

/-- Every window tracks what it shows, but for released entities. -/
def Shown (app : App EntityId WindowId) : Prop :=
  ∀ entity, entity ∉ app.released → ∀ id, entity ∈ (app.windows id).shown →
    entity ∈ app.trackedEntities id

/-- A draw leaves its window tracking what it shows exactly if it is accounted for. -/
theorem shown_draw_iff {app : App EntityId WindowId} {id : WindowId} {tree : Element EntityId}
    {listenerReads : Finset EntityId} :
    (∀ entity, entity ∉ app.released →
        entity ∈ ((app.draw id tree listenerReads).windows id).shown →
          entity ∈ (app.draw id tree listenerReads).trackedEntities id) ↔
      Accounted app id tree listenerReads := by
  have hshown : ((app.draw id tree listenerReads).windows id).shown =
      (tree.draw (app.windows id).refreshing (app.windows id).elementStates).1.contentReads := by
    simp [App.draw, App.recordEntitiesAccessed, App.setWindow]
  have htracked : (app.draw id tree listenerReads).trackedEntities id =
      (tree.draw (app.windows id).refreshing (app.windows id).elementStates).2.accessed ∪
        listenerReads := by
    simp [App.draw, App.recordEntitiesAccessed]
  rw [hshown, htracked, Element.accessed_draw]
  constructor
  · intro h state hstate entity hentity hreleased
    exact h entity hreleased (Prepainted.mem_contentReads.mpr (.inr ⟨state, hstate, hentity⟩))
  · intro h entity hreleased hentity
    rcases Prepainted.mem_contentReads.mp hentity with hcode | ⟨state, hstate, hmem⟩
    -- The code that runs adds what it reads to the set.
    · exact Finset.mem_union_left _ (Finset.mem_union_left _ hcode)
    · exact h state hstate entity hmem hreleased

theorem Shown.draw {app : App EntityId WindowId} (h : Shown app) {id : WindowId}
    {tree : Element EntityId} {listenerReads : Finset EntityId}
    (haccounted : Accounted app id tree listenerReads) :
    Shown (app.draw id tree listenerReads) := by
  intro entity hreleased id' hmem
  by_cases hid : id' = id
  · subst hid
    exact shown_draw_iff.mpr haccounted entity hreleased hmem
  · simp only [App.draw, App.recordEntitiesAccessed, App.setWindow, hid, if_false] at hmem ⊢
    exact h entity hreleased id' hmem

/-- Every operation keeps what the windows show tracked, a draw if it is accounted for. -/
theorem Shown.step {app : App EntityId WindowId} (h : Shown app) {op : Op EntityId WindowId}
    (hdraw : ∀ id tree listenerReads, op = .draw id tree listenerReads →
      Accounted app id tree listenerReads) : Shown (step app op) := by
  cases op with
  | draw id tree listenerReads => exact h.draw (hdraw id tree listenerReads rfl)
  | notify entity =>
    obtain ⟨pending, effects, heq⟩ := notify_eq app entity
    intro entity' hreleased id hmem
    simp only [Tracking.step, heq] at hreleased hmem ⊢
    refine h entity' hreleased id ?_
    split at hmem <;> exact hmem
  | refresh id =>
    intro entity hreleased id' hmem
    simp only [Tracking.step, App.refresh, App.setWindow] at hreleased hmem ⊢
    refine h entity hreleased id' ?_
    split at hmem
    · rename_i hid
      rw [hid]
      exact hmem
    · exact hmem
  | removeWindow id =>
    intro entity hreleased id' hmem
    simp only [Tracking.step, App.removeWindow, App.setWindow] at hreleased hmem ⊢
    by_cases hid : id' = id
    · simp [hid] at hmem
    · rw [if_neg hid] at hmem ⊢
      exact h entity hreleased id' hmem
  | release entity =>
    intro entity' hreleased id hmem
    exact h entity' (fun hmem => hreleased (Finset.mem_insert_of_mem hmem)) id hmem
  | takeNotify =>
    simp only [Tracking.step, App.takeNotify]
    split
    · exact h
    · exact h

/-- A notification reaches the windows that show the entity if they track it. -/
theorem Shown.marks {app : App EntityId WindowId} (h : Shown app) (htracked : Tracked app) :
    Marks app := fun entity hreleased id hmem =>
  (marks_iff htracked hreleased id).mpr (.inr (h entity hreleased id hmem))

/-- After a draw, a notification reaches its window only through what it tracks. -/
theorem accounted_of_marks {app : App EntityId WindowId} (htracked : Tracked app)
    {id : WindowId} {tree : Element EntityId} {listenerReads : Finset EntityId}
    (h : Marks (app.draw id tree listenerReads)) : Accounted app id tree listenerReads := by
  refine shown_draw_iff.mp fun entity hreleased hmem => ?_
  have hmarked := (marks_iff (htracked.draw id tree listenerReads) hreleased id).mp
    (h entity hreleased id hmem)
  -- The draw has left the window clean.
  have hclean : ((app.draw id tree listenerReads).windows id).dirty = false := by
    simp [App.draw, App.recordEntitiesAccessed, App.setWindow]
  rcases hmarked with hdirty | hmem
  · rw [hclean] at hdirty
    cases hdirty
  · exact hmem

/-! ### Runs -/

theorem run_append (ops : List (Op EntityId WindowId)) (op : Op EntityId WindowId) :
    run (ops ++ [op]) = step (run ops) op := by
  rw [run, List.foldl_append]
  rfl

theorem run_tracked (ops : List (Op EntityId WindowId)) : Tracked (run ops) := by
  induction ops using List.reverseRecOn with
  | nil => exact ⟨by simp [run], by simp [run]⟩
  | append_singleton ops op ih =>
    rw [run_append]
    exact ih.step op

/-- In a run, every notification outside of a draw marks every window that shows the
entity exactly if every draw is accounted for. -/
theorem notify_marks_iff (ops : List (Op EntityId WindowId)) :
    (∀ before, before <+: ops → Marks (run before)) ↔
      ∀ before id tree listenerReads, before ++ [.draw id tree listenerReads] <+: ops →
        Accounted (run before) id tree listenerReads := by
  constructor
  · intro h before id tree listenerReads hprefix
    have hmarks := h _ hprefix
    rw [run_append] at hmarks
    exact accounted_of_marks (run_tracked before) hmarks
  · intro h before hprefix
    refine Shown.marks ?_ (run_tracked before)
    induction before using List.reverseRecOn with
    | nil =>
      intro entity hreleased id hmem
      simp [run] at hmem
    | append_singleton before op ih =>
      rw [run_append]
      have hbefore : before <+: ops := (List.prefix_append _ _).trans hprefix
      refine (ih hbefore).step fun id tree listenerReads hop => ?_
      subst hop
      exact h before id tree listenerReads hprefix

/-- The root of a window, which reads some entities while its layout is requested, and a
cached view `2` that reads entity `7` while it is prepainted. -/
def rootAndView (rootReads : Finset ℕ) : Element ℕ :=
  .both (.reading rootReads ∅ ∅) (.cached 2 true (.reading ∅ {7} ∅))

/-- A cached view that reads entity `7` while it is painted. -/
def paintingView : Element ℕ := .cached 2 true (.reading ∅ ∅ {7})

/-- A window shows a view that has read an entity, and a notification of the entity leaves
it clean: the root read the entity before the view when the view was rendered and does not
read it any more, or the view read it only while it was painted. -/
theorem reused_read_forgotten :
    ¬ Marks (run [.draw 0 (rootAndView {7}) ∅, .draw 0 (rootAndView ∅) ∅] : App ℕ ℕ) ∧
      ¬ Marks (run [.draw 0 paintingView ∅, .draw 0 paintingView ∅] : App ℕ ℕ) := by
  constructor
  · intro h
    exact absurd (h 7 (by decide) 0 (by decide)) (by decide)
  · intro h
    exact absurd (h 7 (by decide) 0 (by decide)) (by decide)

end Zui.Gpui.Tracking
