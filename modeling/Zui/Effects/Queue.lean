/-
The queue of effects.

Whatever is pushed is taken from the queue in the same order, and the sets of pending
notifications say which notifications are in the queue (`Queued`), in every run
(`Reachable.queued`).

* `Mute` — what a step does that has nothing to do with the queue;
* `Queued.step` — the step lemma, with one case for each kind of step;
* `queue_fifo` — the order of the effects, and that notifications are coalesced.
-/
import Zui.Effects.Scopes
import Zui.Library.Loop

namespace Zui.Gpui.Effects

/-- Two notifications with one receiver are the same. -/
def Effect.coalesces : Effect → Bool
  | .notify _ => true
  | .notifyGlobalObservers _ => true
  | _ => false

namespace Event

def pushed? : Event → Option Effect
  | .pushed effect => some effect
  | _ => none

def began? : Event → Option Effect
  | .began effect => some effect
  | _ => none

/-- Not about the queue. -/
def isMute : Event → Bool
  | .pushed _ => false
  | .began _ => false
  | _ => true

end Event

/-- The effects that were put into the queue. -/
def pushedEffects (log : List Event) : List Effect :=
  log.filterMap Event.pushed?

/-- The effects whose application has begun. -/
def beganEffects (log : List Event) : List Effect :=
  log.filterMap Event.began?

section Log

variable {log new : List Event}

@[simp]
theorem pushedEffects_append :
    pushedEffects (log ++ new) = pushedEffects log ++ pushedEffects new :=
  List.filterMap_append

@[simp]
theorem beganEffects_append : beganEffects (log ++ new) = beganEffects log ++ beganEffects new :=
  List.filterMap_append

theorem pushedEffects_of_mute (h : ∀ event ∈ new, event.isMute = true) :
    pushedEffects new = [] := by
  refine List.filterMap_eq_nil_iff.mpr fun event hevent => ?_
  have := h event hevent
  cases event <;> first | rfl | cases this

theorem beganEffects_of_mute (h : ∀ event ∈ new, event.isMute = true) : beganEffects new = [] := by
  refine List.filterMap_eq_nil_iff.mpr fun event hevent => ?_
  have := h event hevent
  cases event <;> first | rfl | cases this

end Log

namespace App

variable {s s' t : App} {op : Op} {effect : Effect} {scope : Scope} {scopes : List Scope}

/-! ### What a step leaves alone -/

/-- The queue is the same, and only mute events have happened. -/
structure Mute (s t : App) : Prop where
  effects : t.pendingEffects = s.pendingEffects
  notifications : t.pendingNotifications = s.pendingNotifications
  globals : t.pendingGlobalNotifications = s.pendingGlobalNotifications
  log : ∃ new, t.log = s.log ++ new ∧ ∀ event ∈ new, event.isMute = true

theorem Mute.of_log (heffects : t.pendingEffects = s.pendingEffects)
    (hnotifications : t.pendingNotifications = s.pendingNotifications)
    (hglobals : t.pendingGlobalNotifications = s.pendingGlobalNotifications)
    (hlog : t.log = s.log) : s.Mute t :=
  ⟨heffects, hnotifications, hglobals, [], by simp [hlog], by simp⟩

theorem Mute.of_event {event : Event} (heffects : t.pendingEffects = s.pendingEffects)
    (hnotifications : t.pendingNotifications = s.pendingNotifications)
    (hglobals : t.pendingGlobalNotifications = s.pendingGlobalNotifications)
    (hlog : t.log = s.log ++ [event]) (hevent : event.isMute = true) : s.Mute t := by
  refine ⟨heffects, hnotifications, hglobals, [event], hlog, fun event' hmem => ?_⟩
  rw [List.mem_singleton.mp hmem]
  exact hevent

theorem Mute.trans {u : App} (h : s.Mute t) (h' : t.Mute u) : s.Mute u := by
  obtain ⟨new, hlog, hnew⟩ := h.log
  obtain ⟨new', hlog', hnew'⟩ := h'.log
  refine ⟨h'.effects.trans h.effects, h'.notifications.trans h.notifications,
    h'.globals.trans h.globals, new ++ new', by rw [hlog', hlog, List.append_assoc],
    fun event hmem => ?_⟩
  exact (List.mem_append.mp hmem).elim (hnew event) (hnew' event)

theorem losses_isMute (entities : EntityMap EntityId Unit) (entity : EntityId) :
    ∀ event ∈ losses entities entity, event.isMute = true := by
  intro event hevent
  rw [losses] at hevent
  split at hevent
  · rw [List.mem_singleton] at hevent
    subst hevent
    rfl
  · cases hevent

theorem dropHandle_mute {entity : EntityId} (h : s.dropHandle entity = some t) : s.Mute t := by
  obtain ⟨entities, -, rfl⟩ := dropHandle_eq_some h
  exact ⟨rfl, rfl, rfl, _, rfl, losses_isMute entities entity⟩

theorem Enters.mute (h : s.Enters op scope t) : s.Mute t := by
  cases h with
  | update => exact .of_log rfl rfl rfl rfl
  | new hfree hclone =>
    obtain ⟨entities, -, rfl⟩ := cloneHandle_eq_some hclone
    exact .of_log rfl rfl rfl rfl
  | insertEntity => exact .of_log rfl rfl rfl rfl
  | updateEntity hid hlease =>
    obtain ⟨entities, -, rfl⟩ := lease_eq_some hlease
    exact .of_log rfl rfl rfl rfl
  | asMut hid hlease =>
    obtain ⟨entities, -, rfl⟩ := lease_eq_some hlease
    exact .of_log rfl rfl rfl rfl

theorem Handles.mute (h : s.Handles op t) : s.Mute t := by
  cases h with
  | reserveEntity => exact .of_log rfl rfl rfl rfl
  | dropReservation hslot hdrop =>
    have := dropHandle_mute hdrop
    exact ⟨this.effects, this.notifications, this.globals, this.log⟩
  | clone hid hclone =>
    obtain ⟨entities, -, rfl⟩ := cloneHandle_eq_some hclone
    exact .of_log rfl rfl rfl rfl
  | upgrade hupgrade =>
    obtain ⟨-, rfl⟩ := upgradeHandle_eq_some hupgrade
    exact .of_log rfl rfl rfl rfl
  | drop howned hdrop => exact dropHandle_mute hdrop

theorem Pushes.mute (h : s.Pushes op effect t) : s.Mute t := by
  cases h with
  | notify => exact .of_event rfl rfl rfl rfl rfl
  | emit => exact .of_log rfl rfl rfl rfl
  | refreshWindows => exact .of_log rfl rfl rfl rfl
  | notifyGlobal => exact .of_log rfl rfl rfl rfl
  | defer => exact .of_log rfl rfl rfl rfl

theorem register_mute (s : App) (topic : Topic) (callback : Callback) :
    s.Mute (s.register topic callback) :=
  .of_event rfl rfl rfl rfl rfl

theorem unsubscribe_mute (s : App) (subscription : Subscription Topic) :
    s.Mute (s.unsubscribe subscription) :=
  .of_event rfl rfl rfl rfl rfl

/-- What an update does in front of `finish_update` is mute, but for the effect that it
pushes. -/
theorem leave_mute (h : s.leave scope = some t) :
    s.Mute t ∨ ∃ u effect, s.Mute u ∧ (u.pushEffect effect).Mute t := by
  cases scope with
  | update => exact .inl (Option.some.inj h ▸ .of_log rfl rfl rfl rfl)
  | new entity tid =>
    obtain rfl := Option.some.inj h
    exact .inr ⟨s, .entityCreated entity tid, .of_log rfl rfl rfl rfl, .of_log rfl rfl rfl rfl⟩
  | insertEntity entity =>
    obtain rfl := Option.some.inj h
    exact .inl (.of_log rfl rfl rfl rfl)
  | updateEntity entity =>
    obtain ⟨lease, -, rfl⟩ := endLease_eq_some h
    exact .inl (.of_log rfl rfl rfl rfl)
  | borrow entity =>
    obtain ⟨lease, -, rfl⟩ := endLease_eq_some h
    exact .inr ⟨{ s with log := s.log ++ [.notified entity] }, .notify entity,
      .of_event rfl rfl rfl rfl rfl, .of_log rfl rfl rfl rfl⟩
  | flush phase => cases h
  | shutdown stage => cases h

theorem endEffect_mute (h : s.endEffect scopes effect = some t) : s.Mute t := by
  obtain ⟨entities, lost, rfl, hlost⟩ := endEffect_eq_some h
  refine ⟨rfl, rfl, rfl, _, rfl, fun event hmem => ?_⟩
  rcases List.mem_cons.mp hmem with rfl | hmem
  · rfl
  rcases hlost with ⟨-, -, rfl⟩ | ⟨entity, -, -, rfl⟩
  · cases hmem
  · exact losses_isMute entities entity event hmem

theorem Visited.mute {pass : Frame Topic Callback} {subscriber : ℕ × Callback}
    {rest : Subscribers Callback} (h : s.Visited scopes effect pass subscriber rest t) :
    s.Mute t := by
  cases h with
  | kept => exact .of_log rfl rfl rfl rfl
  | removed => exact .of_log rfl rfl rfl rfl
  | called hactive hdropped hanswer =>
    obtain ⟨entities, rfl⟩ := answer_eq_call hanswer
    exact .of_event rfl rfl rfl rfl rfl

theorem Returned.mute {phase : Phase} {keep : Bool} (h : s.Returned scopes keep phase t) :
    s.Mute t := by
  cases h with
  | release => exact .of_event rfl rfl rfl rfl rfl
  | retain => exact .of_event rfl rfl rfl rfl rfl
  | @deferred callback t hend =>
    have hreturned : s.Mute { s with log := s.log ++ [.returned (.deferred callback)] } :=
      .of_event rfl rfl rfl rfl rfl
    exact hreturned.trans (endEffect_mute hend)

theorem flushed_mute (s : App) (scopes : List Scope) : s.Mute (s.flushed scopes) := by
  unfold flushed
  split
  · exact .of_log rfl rfl rfl rfl
  · exact .of_log rfl rfl rfl rfl

theorem nextQuit_mute (s : App) (scopes : List Scope) (callbacks : Subscribers Callback) :
    s.Mute (s.nextQuit scopes callbacks) := by
  rw [nextQuit]
  split
  · exact .of_event rfl rfl rfl rfl rfl
  · exact .of_log rfl rfl rfl rfl

theorem Applied.mute (h : s.Applied scopes effect t) : (s.mark false effect).Mute t := by
  cases h with
  | retain htopic htake => exact .of_log rfl rfl rfl rfl
  | unheard htopic htake hend => exact endEffect_mute hend
  | refreshWindows hend => exact endEffect_mute hend
  | activate hend =>
    have hended := endEffect_mute hend
    exact ⟨hended.effects, hended.notifications, hended.globals, hended.log⟩
  | deferred => exact .of_event rfl rfl rfl rfl rfl

/-- A step of the flush is mute, unless it takes an effect from the queue. -/
theorem Advanced.mute {phase : Phase} (h : s.Advanced scopes phase t) :
    s.Mute t ∨ ∃ effect effects, s.pendingEffects = effect :: effects ∧
      (mark { s with pendingEffects := effects, log := s.log ++ [.began effect] } false
        effect).Mute t := by
  cases h with
  | takeDropped htaken => exact .inl (.of_log rfl rfl rfl rfl)
  | releaseEnd => exact .inl (.of_log rfl rfl rfl rfl)
  | release => exact .inl (.of_event rfl rfl rfl rfl rfl)
  | callRelease hnext => exact .inl (.of_event rfl rfl rfl rfl rfl)
  | dropValue hnext => exact .inl (.of_event rfl rfl rfl rfl rfl)
  | popFront heffects happly => exact .inr ⟨_, _, heffects, happly.mute⟩
  | clear heffects => exact .inl (.of_log rfl rfl rfl rfl)
  | visit hcurrent hrest hvisit => exact .inl hvisit.mute
  | endRetain hcurrent hrest hend =>
    have hended := endEffect_mute hend
    exact .inl ⟨hended.effects, hended.notifications, hended.globals, hended.log⟩
  | clearEvent harena => exact .inl (.of_log rfl rfl rfl rfl)
  | clearHandle harena hdrop =>
    have hdropped := dropHandle_mute hdrop
    exact .inl ⟨hdropped.effects, hdropped.notifications, hdropped.globals, hdropped.log⟩
  | cleared harena => exact .inl (flushed_mute s scopes)

/-! ### The queue -/

/-- What holds of the queue in every state. -/
structure Queued (s : App) : Prop where
  order : pushedEffects s.log = beganEffects s.log ++ s.pendingEffects
  pending : ∀ effect, effect.coalesces = true → (s.Pending effect ↔ effect ∈ s.pendingEffects)
  once : ∀ effect, effect.coalesces = true → s.pendingEffects.count effect ≤ 1

theorem queued_init : App.init.Queued where
  order := rfl
  pending := by
    intro effect
    cases effect <;> simp [Effect.coalesces, Pending, App.init]
  once := by simp [App.init]

theorem Queued.mute (h : s.Queued) (hmute : s.Mute t) : t.Queued := by
  obtain ⟨new, hlog, hnew⟩ := hmute.log
  constructor
  · rw [hlog, hmute.effects, pushedEffects_append, beganEffects_append,
      pushedEffects_of_mute hnew, beganEffects_of_mute hnew, List.append_nil, List.append_nil]
    exact h.order
  · intro effect heffect
    rw [hmute.effects, ← h.pending effect heffect]
    cases effect <;> simp only [Pending, hmute.notifications, hmute.globals]
  · rw [hmute.effects]
    exact h.once

/-- Marking an effect settles whether that effect is pending, and no other one. -/
theorem pending_mark {value : Bool} (heffect : effect.coalesces = true) (other : Effect) :
    (s.mark value effect).Pending other ↔
      if other = effect then value = true else s.Pending other := by
  cases effect with
  | notify emitter =>
    cases other with
    | notify emitter' =>
      show Function.update s.pendingNotifications emitter value emitter' = true ↔ _
      rw [Function.update_apply]
      by_cases heq : emitter' = emitter <;> simp [heq, Pending]
    | _ => exact Iff.rfl
  | notifyGlobalObservers globalType =>
    cases other with
    | notifyGlobalObservers globalType' =>
      show Function.update s.pendingGlobalNotifications globalType value globalType' = true ↔ _
      rw [Function.update_apply]
      by_cases heq : globalType' = globalType <;> simp [heq, Pending]
    | _ => exact Iff.rfl
  | _ => cases heffect

theorem mark_of_not_coalesces {value : Bool} (heffect : effect.coalesces = false) :
    s.mark value effect = s := by
  cases effect <;> first | rfl | cases heffect

theorem Queued.pushEffect (h : s.Queued) (effect : Effect) : (s.pushEffect effect).Queued := by
  have hpushed := s.pushEffect_spec effect
  generalize s.pushEffect effect = t at hpushed
  cases hpushed with
  | coalesced => exact h
  | pushed hpending =>
    obtain ⟨notifications, globals, hmark⟩ := s.mark_eq true effect
    have heffects : ((s.mark true effect).pushBack effect).pendingEffects =
        s.pendingEffects ++ [effect] := by
      rw [hmark]
      rfl
    have hlog : ((s.mark true effect).pushBack effect).log = s.log ++ [.pushed effect] := by
      rw [hmark]
      rfl
    constructor
    · rw [hlog, heffects, pushedEffects_append, beganEffects_append, h.order]
      simp [pushedEffects, beganEffects, Event.pushed?, Event.began?]
    · intro other hother
      rw [heffects, List.mem_append, List.mem_singleton, ← h.pending other hother]
      show (s.mark true effect).Pending other ↔ _
      by_cases heffect : effect.coalesces = true
      · rw [pending_mark heffect]
        by_cases heq : other = effect <;> simp [heq]
      · rw [mark_of_not_coalesces (by simpa using heffect)]
        have hne : other ≠ effect := by
          rintro rfl
          exact heffect hother
        simp [hne]
    · intro other hother
      rw [heffects, List.count_append]
      by_cases heq : other = effect
      · subst heq
        have hnotMem : other ∉ s.pendingEffects := mt (h.pending other hother).mpr hpending
        simp [List.count_eq_zero.mpr hnotMem]
      · simpa [Ne.symm heq] using h.once other hother

/-- The first effect is taken from the queue. -/
theorem Queued.popFront (h : s.Queued) {effects : List Effect}
    (heffects : s.pendingEffects = effect :: effects) :
    (mark { s with pendingEffects := effects, log := s.log ++ [.began effect] } false
      effect).Queued := by
  have hpop := mark_eq { s with pendingEffects := effects, log := s.log ++ [.began effect] }
    false effect
  obtain ⟨notifications, globals, hmark⟩ := hpop
  constructor
  · rw [hmark]
    show pushedEffects (s.log ++ [.began effect]) =
      beganEffects (s.log ++ [.began effect]) ++ effects
    rw [pushedEffects_append, beganEffects_append, h.order, heffects]
    simp [pushedEffects, beganEffects, Event.pushed?, Event.began?]
  · intro other hother
    have hqueue := h.pending other hother
    have honce := h.once other hother
    rw [heffects, List.count_cons] at honce
    rw [heffects, List.mem_cons] at hqueue
    have hin : (mark { s with pendingEffects := effects, log := s.log ++ [.began effect] } false
        effect).pendingEffects = effects := by
      rw [hmark]
    rw [hin]
    by_cases heffect : effect.coalesces = true
    · rw [pending_mark heffect]
      by_cases heq : other = effect
      · -- It was in the queue once.
        subst heq
        have hnotMem : other ∉ effects := by simpa [List.count_eq_zero] using honce
        simp [hnotMem]
      · rw [if_neg heq]
        show s.Pending other ↔ _
        rw [hqueue]
        simp [heq]
    · have hne : other ≠ effect := by
        rintro rfl
        exact heffect hother
      rw [mark_of_not_coalesces (by simpa using heffect)]
      show s.Pending other ↔ _
      rw [hqueue]
      simp [hne]
  · intro other hother
    have honce := h.once other hother
    rw [heffects, List.count_cons] at honce
    rw [hmark]
    show effects.count other ≤ 1
    omega

theorem Queued.step (h : s.Queued) (hstep : s.step op = some s') : s'.Queued := by
  cases step_cases hstep with
  | enter hcalls henters => exact (h.mute henters.mute).mute (.of_log rfl rfl rfl rfl)
  | @finish scope scopes t hscopes hleave =>
    have hleft : t.Queued := by
      rcases leave_mute hleave with hmute | ⟨u, effect, hmute, hpushed⟩
      · exact h.mute hmute
      · exact ((h.mute hmute).pushEffect effect).mute hpushed
    rw [App.finishUpdate]
    split
    · exact hleft.mute (.of_log rfl rfl rfl rfl)
    · exact hleft.mute (.of_log rfl rfl rfl rfl)
  | handles hruns hhandles => exact h.mute hhandles.mute
  | push hcalls hpushes => exact (h.mute hpushes.mute).pushEffect _
  | @register op topic callback hcalls hregisters =>
    exact (h.mute (register_mute s topic callback)).pushEffect
      (.defer (.activate topic s.subscribers.nextSubscriberId))
  | activate hcalls hactivates => exact (h.mute (register_mute ..)).mute (.of_log rfl rfl rfl rfl)
  | unsubscribe hruns hheld => exact h.mute (unsubscribe_mute ..)
  | shutdown hcalls => exact h.mute (.of_log rfl rfl rfl rfl)
  | nextQuit hscopes => exact h.mute (nextQuit_mute ..)
  | retQuit hscopes => exact h.mute (.of_event rfl rfl rfl rfl rfl)
  | ret hscopes hret => exact h.mute (ret_cases hret).mute
  | advance hscopes hadvance =>
    rcases (advance_cases hadvance).mute with hmute | ⟨effect, effects, heffects, hmute⟩
    · exact h.mute hmute
    · exact (h.popFront heffects).mute hmute

theorem Reachable.queued {allowed : App → Op → Prop} (h : Reachable allowed s) : s.Queued := by
  induction h with
  | init => exact queued_init
  | step _ _ hstep ih => exact ih.step hstep

/-- In every run, effects are applied in the order in which they were put into the queue, and a
notification is in the queue once at most, just when the set of pending notifications says so. -/
theorem queue_fifo {allowed : App → Op → Prop} (h : Reachable allowed s) :
    pushedEffects s.log = beganEffects s.log ++ s.pendingEffects ∧
      (∀ entity, s.pendingNotifications entity = true ↔ .notify entity ∈ s.pendingEffects) ∧
      (∀ globalType, s.pendingGlobalNotifications globalType = true ↔
        .notifyGlobalObservers globalType ∈ s.pendingEffects) ∧
      ∀ effect, effect.coalesces = true → s.pendingEffects.count effect ≤ 1 :=
  ⟨h.queued.order, fun entity => h.queued.pending (.notify entity) rfl,
    fun globalType => h.queued.pending (.notifyGlobalObservers globalType) rfl, h.queued.once⟩

/-- Two notifications of an entity, and a deferred callback between them. -/
theorem queue_fifo_notified : ∃ s : App,
    App.init.run (fun _ _ => True) [.new 0 0, .notify 0, .defer 0, .notify 0] = some s ∧
      s.pendingEffects = [.notify 0, .defer (.user 0)] ∧
      pushedEffects s.log = beganEffects s.log ++ s.pendingEffects := by
  have horder (s : App)
      (hrun : App.init.run (fun _ _ => True) [.new 0 0, .notify 0, .defer 0, .notify 0] = some s) :
      pushedEffects s.log = beganEffects s.log ++ s.pendingEffects :=
    (queue_fifo (Reachable.run .init hrun)).1
  exact ⟨_, rfl, rfl, horder _ rfl⟩

end App

end Zui.Gpui.Effects
