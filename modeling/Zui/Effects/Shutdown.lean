/-
Effects and releases one at a time, also in a shutdown.

`shutdown` flushes the effects without the flag that `finish_update` sets.  As long as a run is
calm, a flush still goes on only when the code that it has called has returned
(`Reachable.disciplined`).  In a callback of the flush of a shutdown, an update that is not inside
of another one flushes once more, in the middle of the callback (`shutdown_reenters`).

* `Event.isWork` — what a flush does, and what it calls;
* `App.Disciplined` — what holds of a step;
* `App.Idle` — what steps do that are not steps of a flush.
-/
import Zui.Effects.Scopes

namespace Zui.Gpui.Effects

/-- An effect or a release is processed. -/
def Event.isWork : Event → Bool
  | .began _ => true
  | .called _ => true
  | .released _ => true
  | .valueDropped _ => true
  | _ => false

namespace App

/-- While a callback runs that a flush has called, no effect is applied, no entity is released, and
no other callback is called; while an effect is applied, no event is taken from the arena. -/
structure Disciplined (s s' : App) : Prop where
  alone : s.running ≠ [] →
    ∃ new, s'.log = s.log ++ new ∧ ∀ event ∈ new, event.isWork = false
  arena : s.applying ≠ [] → ∃ events, s'.eventArena = s.eventArena ++ events

/-- No effect and no release is processed, and no event is taken from the arena. -/
structure Idle (s t : App) : Prop where
  log : ∃ new, t.log = s.log ++ new ∧ ∀ event ∈ new, event.isWork = false
  arena : ∃ events, t.eventArena = s.eventArena ++ events

variable {s s' t u : App} {op : Op} {effect : Effect} {scope : Scope} {scopes : List Scope}

theorem Idle.disciplined (h : s.Idle t) : s.Disciplined t := ⟨fun _ => h.log, fun _ => h.arena⟩

/-! ### Steps outside of the flush -/

namespace Idle

theorem of_same (hlog : t.log = s.log) (harena : t.eventArena = s.eventArena) : s.Idle t :=
  ⟨⟨[], by simp [hlog]⟩, ⟨[], by simp [harena]⟩⟩

theorem of_event {event : Event} (hlog : t.log = s.log ++ [event]) (hevent : event.isWork = false)
    (harena : t.eventArena = s.eventArena) : s.Idle t := by
  refine ⟨⟨[event], hlog, fun event' hmem => ?_⟩, ⟨[], by simp [harena]⟩⟩
  rw [List.mem_singleton.mp hmem]
  exact hevent

theorem trans (h : s.Idle t) (h' : t.Idle u) : s.Idle u := by
  obtain ⟨new, hlog, hnew⟩ := h.log
  obtain ⟨new', hlog', hnew'⟩ := h'.log
  obtain ⟨events, harena⟩ := h.arena
  obtain ⟨events', harena'⟩ := h'.arena
  refine ⟨⟨new ++ new', by rw [hlog', hlog, List.append_assoc], fun event hmem => ?_⟩,
    ⟨events ++ events', by rw [harena', harena, List.append_assoc]⟩⟩
  exact (List.mem_append.mp hmem).elim (hnew event) (hnew' event)

end Idle

theorem losses_isWork (entities : EntityMap EntityId Unit) (entity : EntityId) :
    ∀ event ∈ losses entities entity, event.isWork = false := by
  intro event hevent
  rw [losses] at hevent
  split at hevent
  · rw [List.mem_singleton.mp hevent]
    rfl
  · cases hevent

theorem dropHandle_idle {entity : EntityId} (h : s.dropHandle entity = some t) : s.Idle t := by
  obtain ⟨entities, -, rfl⟩ := dropHandle_eq_some h
  exact ⟨⟨_, rfl, losses_isWork entities entity⟩, ⟨[], by simp⟩⟩

theorem pushEffect_idle (s : App) (effect : Effect) : s.Idle (s.pushEffect effect) := by
  have hpushed := s.pushEffect_spec effect
  generalize s.pushEffect effect = t at hpushed
  cases hpushed with
  | coalesced => exact .of_same rfl rfl
  | pushed hpending =>
    obtain ⟨notifications, globals, hmark⟩ := s.mark_eq true effect
    rw [pushBack, hmark]
    exact .of_event rfl rfl rfl

theorem Enters.idle (h : s.Enters op scope t) : s.Idle t := by
  cases h with
  | update => exact .of_same rfl rfl
  | new hfree hclone =>
    obtain ⟨entities, -, rfl⟩ := cloneHandle_eq_some hclone
    exact .of_same rfl rfl
  | insertEntity => exact .of_same rfl rfl
  | updateEntity hid hlease =>
    obtain ⟨entities, -, rfl⟩ := lease_eq_some hlease
    exact .of_same rfl rfl
  | asMut hid hlease =>
    obtain ⟨entities, -, rfl⟩ := lease_eq_some hlease
    exact .of_same rfl rfl

theorem leave_idle (h : s.leave scope = some t) : s.Idle t := by
  cases scope with
  | update => exact Option.some.inj h ▸ .of_same rfl rfl
  | new entity tid =>
    obtain rfl := Option.some.inj h
    have hpushed := s.pushEffect_idle (.entityCreated entity tid)
    exact ⟨hpushed.log, hpushed.arena⟩
  | insertEntity entity => exact Option.some.inj h ▸ .of_same rfl rfl
  | updateEntity entity =>
    obtain ⟨lease, -, rfl⟩ := endLease_eq_some h
    exact .of_same rfl rfl
  | borrow entity =>
    obtain ⟨lease, -, rfl⟩ := endLease_eq_some h
    have hnotified : s.Idle { s with log := s.log ++ [.notified entity] } := .of_event rfl rfl rfl
    have hpushed := hnotified.trans (pushEffect_idle _ (.notify entity))
    exact ⟨hpushed.log, hpushed.arena⟩
  | flush phase => cases h
  | shutdown stage => cases h

theorem Handles.idle (h : s.Handles op t) : s.Idle t := by
  cases h with
  | reserveEntity => exact .of_same rfl rfl
  | dropReservation hslot hdrop =>
    have hdropped := dropHandle_idle hdrop
    exact ⟨hdropped.log, hdropped.arena⟩
  | clone hid hclone =>
    obtain ⟨entities, -, rfl⟩ := cloneHandle_eq_some hclone
    exact .of_same rfl rfl
  | upgrade hupgrade =>
    obtain ⟨-, rfl⟩ := upgradeHandle_eq_some hupgrade
    exact .of_same rfl rfl
  | drop howned hdrop => exact dropHandle_idle hdrop

theorem Pushes.idle (h : s.Pushes op effect t) : s.Idle t := by
  cases h with
  | notify => exact .of_event rfl rfl rfl
  | emit => exact ⟨⟨[], by simp⟩, ⟨_, rfl⟩⟩
  | refreshWindows => exact .of_same rfl rfl
  | notifyGlobal => exact .of_same rfl rfl
  | defer => exact .of_same rfl rfl

theorem endEffect_idle (h : s.endEffect scopes effect = some t) : s.Idle t := by
  obtain ⟨entities, lost, rfl, hlost⟩ := endEffect_eq_some h
  refine ⟨⟨_, rfl, fun event hmem => ?_⟩, ⟨[], by simp⟩⟩
  rcases List.mem_cons.mp hmem with rfl | hmem
  · rfl
  rcases hlost with ⟨-, -, rfl⟩ | ⟨entity, -, -, rfl⟩
  · cases hmem
  · exact losses_isWork entities entity event hmem

theorem Returned.idle {phase : Phase} {keep : Bool} (h : s.Returned scopes keep phase t) :
    s.Idle t := by
  cases h with
  | release => exact .of_event rfl rfl rfl
  | retain => exact .of_event rfl rfl rfl
  | deferred hend =>
    refine Idle.trans (t := { s with log := s.log ++ [.returned (.deferred _)] }) ?_
      (endEffect_idle hend)
    exact .of_event rfl rfl rfl

/-- A step processes no effect and no release, unless a shutdown or a flush goes on. -/
theorem Stepped.idle_or (h : s.Stepped op s') :
    s.Idle s' ∨
      (∃ callbacks scopes, s.scopes = .shutdown (.observers none callbacks) :: scopes) ∨
      ∃ phase scopes, s.scopes = .flush phase :: scopes ∧ s.Advanced scopes phase s' := by
  cases h with
  | enter hcalls henters => exact .inl ⟨henters.idle.log, henters.idle.arena⟩
  | finish hscopes hleave =>
    have hidle := leave_idle hleave
    rw [App.finishUpdate]
    split
    · exact .inl ⟨hidle.log, hidle.arena⟩
    · exact .inl ⟨hidle.log, hidle.arena⟩
  | handles hruns hhandles => exact .inl hhandles.idle
  | push hcalls hpushes => exact .inl (hpushes.idle.trans (pushEffect_idle _ _))
  | @register op topic callback hcalls hregisters =>
    have hregistered : s.Idle (s.register topic callback) := .of_event rfl rfl rfl
    exact .inl (hregistered.trans (pushEffect_idle (s.register topic callback)
      (.defer (.activate topic s.subscribers.nextSubscriberId))))
  | activate hcalls hactivates => exact .inl (.of_event rfl rfl rfl)
  | unsubscribe hruns hheld => exact .inl (.of_event rfl rfl rfl)
  | shutdown hcalls => exact .inl (.of_same rfl rfl)
  | nextQuit hscopes => exact .inr (.inl ⟨_, _, hscopes⟩)
  | retQuit hscopes => exact .inl (.of_event rfl rfl rfl)
  | ret hscopes hret => exact .inl (ret_cases hret).idle
  | advance hscopes hadvance => exact .inr (.inr ⟨_, _, hscopes, advance_cases hadvance⟩)

/-! ### Steps of the flush -/

/-- A flush goes on when the code that it has called has returned. -/
theorem Advanced.running_eq_none {phase : Phase} (h : s.Advanced scopes phase t) :
    phase.running = none := by
  cases h with
  | takeDropped => rfl
  | releaseEnd => rfl
  | release => rfl
  | callRelease hnext => rfl
  | dropValue hnext => rfl
  | popFront heffects happly => rfl
  | clear heffects => rfl
  | visit hcurrent hrest hvisit => rw [Phase.running, hcurrent, Option.map_none]
  | endRetain hcurrent hrest hend => rw [Phase.running, hcurrent, Option.map_none]
  | clearEvent harena => rfl
  | clearHandle harena hdrop => rfl
  | cleared harena => rfl

theorem endEffect_arena (h : s.endEffect scopes effect = some t) : t.eventArena = s.eventArena := by
  obtain ⟨entities, lost, rfl, -⟩ := endEffect_eq_some h
  rfl

theorem Visited.arena {pass : Frame Topic Callback} {subscriber : ℕ × Callback}
    {rest : Subscribers Callback} (h : s.Visited scopes effect pass subscriber rest t) :
    t.eventArena = s.eventArena := by
  cases h with
  | kept => rfl
  | removed => rfl
  | called hactive hdropped hanswer =>
    obtain ⟨entities, rfl⟩ := answer_eq_call hanswer
    rfl

theorem Advanced.arena {phase : Phase} (h : s.Advanced scopes phase t) :
    (Scope.flush phase).applying = [] ∨ t.eventArena = s.eventArena := by
  cases h with
  | takeDropped => exact .inl rfl
  | releaseEnd => exact .inl rfl
  | release => exact .inl rfl
  | callRelease hnext => exact .inl rfl
  | dropValue hnext => exact .inl rfl
  | popFront heffects happly => exact .inl rfl
  | clear heffects => exact .inl rfl
  | visit hcurrent hrest hvisit => exact .inr hvisit.arena
  | endRetain hcurrent hrest hend =>
    have harena := endEffect_arena hend
    exact .inr harena
  | clearEvent harena => exact .inl rfl
  | clearHandle harena hdrop => exact .inl rfl
  | cleared harena => exact .inl rfl

/-! ### Runs -/

theorem calls_of_outer {outer : List Scope}
    (houter : ∀ scope ∈ outer, scope.isUpdate = true ∨ scope.isObservers = true) :
    outer.flatMap Scope.running = [] ∧ outer.flatMap Scope.applying = [] := by
  refine ⟨running_of_outer houter, List.flatMap_eq_nil_iff.mpr fun scope hmem => ?_⟩
  have hscope := houter scope hmem
  cases scope <;> first | rfl | simp [Scope.isUpdate, Scope.isObservers] at hscope

/-- Around a flush that goes on there is no other one. -/
theorem Shape.flush (h : s.Shape) {phase : Phase} (hscopes : s.scopes = .flush phase :: scopes) :
    s.running = phase.running.toList ∧ s.applying = (Scope.flush phase).applying := by
  rw [Shape, hscopes] at h
  rw [running, applying, hscopes, List.flatMap_cons, List.flatMap_cons]
  rcases h.of_flush with ⟨-, -, hall⟩ | ⟨-, outer, rfl, hall, -⟩
  · obtain ⟨hrunning, happlying⟩ := calls_of_outer (isUpdate_or_isObservers hall)
    simp [Scope.running, hrunning, happlying]
  · obtain ⟨hrunning, happlying⟩ := calls_of_outer hall
    simp [Scope.running, Scope.applying, hrunning, happlying]

theorem Shape.disciplined (h : s.Shape) (hstep : s.step op = some s') : s.Disciplined s' := by
  rcases (step_cases hstep).idle_or with
    hidle | ⟨callbacks, scopes, hscopes⟩ | ⟨phase, scopes, hscopes, hadvanced⟩
  · exact hidle.disciplined
  · -- A shutdown that goes on is in no flush.
    have hscoped : Scoped s.scopes s.flushingEffects s.pendingUpdates := h
    rw [hscopes] at hscoped
    obtain ⟨hrunning, happlying⟩ := calls_of_outer hscoped.of_observers.2.1
    constructor
    · intro hne
      rw [running, hscopes, List.flatMap_cons, hrunning] at hne
      exact absurd rfl hne
    · intro hne
      rw [applying, hscopes, List.flatMap_cons, happlying] at hne
      exact absurd rfl hne
  · obtain ⟨hrunning, happlying⟩ := h.flush hscopes
    constructor
    · intro hne
      rw [hrunning, hadvanced.running_eq_none] at hne
      exact absurd rfl hne
    · intro hne
      rw [happlying] at hne
      exact ⟨[], by rw [hadvanced.arena.resolve_left hne, List.append_nil]⟩

/-- In a calm run effects and releases are processed one at a time. -/
theorem calm_disciplined (h : Reachable (fun s op => s.calm op = true) s)
    (hstep : s.step op = some s') : s.Disciplined s' :=
  h.shape.disciplined hstep

/-- The nested update of a callback, in a shutdown that is inside of an update. -/
def calmOps : List Op :=
  [.update, .defer 0, .defer 1, .shutdown, .advance, .advance, .advance, .update]

theorem calm_disciplined_nested : ∃ s s' : App,
    App.init.run (fun s op => s.calm op = true) calmOps = some s ∧ s.step .finish = some s' ∧
      s.running = [.deferred 0] ∧ s.Disciplined s' := by
  have hdisciplined (s s' : App)
      (hrun : App.init.run (fun s op => s.calm op = true) calmOps = some s)
      (hstep : s.step .finish = some s') : s.Disciplined s' :=
    calm_disciplined (Reachable.run .init hrun) hstep
  exact ⟨_, _, rfl, rfl, rfl, hdisciplined _ _ rfl rfl⟩

theorem not_disciplined {new : List Event} (hrunning : s.running ≠ [])
    (hlog : s'.log = s.log ++ new) {event : Event} (hmem : event ∈ new)
    (hwork : event.isWork = true) : ¬ s.Disciplined s' := by
  intro h
  obtain ⟨new', hlog', hnew'⟩ := h.alone hrunning
  obtain rfl : new = new' := List.append_cancel_left (hlog.symm.trans hlog')
  rw [hnew' event hmem] at hwork
  cases hwork

/-- A quit observer defers two callbacks, and the first one of them begins an update. -/
def reenteringOps : List Op :=
  [.update, .onAppQuit, .finish, .advance, .advance, .advance, .shutdown, .advance, .defer 0,
    .defer 1, .ret true, .advance, .advance, .advance, .update, .finish, .advance]

/-- The second callback is called while the first one runs. -/
theorem shutdown_reenters : ∃ s s' : App,
    App.init.run (fun _ _ => True) reenteringOps = some s ∧ s.step .advance = some s' ∧
      s.running = [.deferred 0] ∧
      s'.log = s.log ++ [.began (.defer (.user 1)), .called (.deferred 1)] ∧
      ¬ s.Disciplined s' := by
  have hwork (s s' : App) (hrunning : s.running = [.deferred 0])
      (hlog : s'.log = s.log ++ [.began (.defer (.user 1)), .called (.deferred 1)]) :
      ¬ s.Disciplined s' :=
    not_disciplined (by simp [hrunning]) hlog List.mem_cons_self rfl
  exact ⟨_, _, rfl, rfl, rfl, rfl, hwork _ _ rfl rfl⟩

end App

end Zui.Gpui.Effects
