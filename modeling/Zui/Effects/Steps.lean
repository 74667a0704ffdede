/-
Runs of an app, and the cases of a step.

* `Stepped` — what a step of the app does;
* `Advanced` — what a step of `flush_effects` does, with `Applied` for the effect that it
  takes from the queue and `Visited` for the loop of `retain`.
-/
import Zui.Effects.Basic

namespace Zui.Gpui.Effects

/-- The subscribers that an effect is for. -/
def Effect.topic : Effect → Option Topic
  | .notify emitter => some (.observers emitter)
  | .emit emitter _ _ => some (.eventListeners emitter)
  | .refreshWindows => none
  | .notifyGlobalObservers globalType => some (.globalObservers globalType)
  | .defer _ => none
  | .entityCreated _ tid => some (.newEntityObservers tid)

namespace App

/-- The states that steps which are allowed lead to. -/
inductive Reachable (allowed : App → Op → Prop) : App → Prop
  | init : Reachable allowed App.init
  | step {s s' : App} {op : Op} (hs : Reachable allowed s) (hop : allowed s op)
      (hstep : s.step op = some s') : Reachable allowed s'

/-- Takes steps one after another, as long as they are allowed. -/
def run (allowed : App → Op → Prop) [∀ s op, Decidable (allowed s op)] (s : App) :
    List Op → Option App
  | [] => some s
  | op :: ops =>
    if allowed s op then
      match s.step op with
      | some s' => s'.run allowed ops
      | none => none
    else none

theorem Reachable.run {allowed : App → Op → Prop} [∀ s op, Decidable (allowed s op)] {s' : App} :
    ∀ {s : App} {ops : List Op}, Reachable allowed s → s.run allowed ops = some s' →
      Reachable allowed s' := by
  intro s ops
  induction ops generalizing s with
  | nil =>
    intro hs hrun
    exact Option.some.inj hrun ▸ hs
  | cons op ops ih =>
    intro hs hrun
    rw [App.run] at hrun
    split at hrun
    · split at hrun
      · exact ih (.step hs ‹_› ‹_›) hrun
      · cases hrun
    · cases hrun

/-! ### What the parts of a step do -/

variable {s s' t : App} {op : Op} {effect : Effect} {entity : EntityId} {scopes : List Scope}

/-- The set says that the effect is in the queue. -/
def Pending (s : App) : Effect → Prop
  | .notify emitter => s.pendingNotifications emitter = true
  | .notifyGlobalObservers globalType => s.pendingGlobalNotifications globalType = true
  | _ => False

/-- The sets say whether an effect is in the queue. -/
def mark (s : App) (value : Bool) : Effect → App
  | .notify emitter =>
    { s with pendingNotifications := Function.update s.pendingNotifications emitter value }
  | .notifyGlobalObservers globalType =>
    { s with
        pendingGlobalNotifications :=
          Function.update s.pendingGlobalNotifications globalType value }
  | _ => s

theorem mark_eq (s : App) (value : Bool) (effect : Effect) :
    ∃ notifications globals, s.mark value effect =
      { s with pendingNotifications := notifications, pendingGlobalNotifications := globals } := by
  cases effect with
  | notify emitter => exact ⟨_, _, rfl⟩
  | notifyGlobalObservers globalType => exact ⟨_, _, rfl⟩
  | emit emitter eventType event => exact ⟨_, _, rfl⟩
  | refreshWindows => exact ⟨_, _, rfl⟩
  | defer callback => exact ⟨_, _, rfl⟩
  | entityCreated entity tid => exact ⟨_, _, rfl⟩

/-- What `push_effect` does. -/
inductive Pushed (s : App) (effect : Effect) : App → Prop
  | coalesced (hpending : s.Pending effect) : Pushed s effect s
  | pushed (hpending : ¬ s.Pending effect) : Pushed s effect ((s.mark true effect).pushBack effect)

theorem pushEffect_spec (s : App) (effect : Effect) : s.Pushed effect (s.pushEffect effect) := by
  cases effect with
  | notify emitter =>
    by_cases hpending : s.pendingNotifications emitter = true
    · rw [pushEffect, if_pos hpending]
      exact .coalesced hpending
    · rw [pushEffect, if_neg hpending]
      exact .pushed hpending
  | notifyGlobalObservers globalType =>
    by_cases hpending : s.pendingGlobalNotifications globalType = true
    · rw [pushEffect, if_pos hpending]
      exact .coalesced hpending
    · rw [pushEffect, if_neg hpending]
      exact .pushed hpending
  | emit emitter eventType event => exact .pushed (fun h => h)
  | refreshWindows => exact .pushed (fun h => h)
  | defer callback => exact .pushed (fun h => h)
  | entityCreated entity tid => exact .pushed (fun h => h)

theorem dropHandle_eq_some (h : s.dropHandle entity = some s') :
    ∃ entities, s.entities.dropNow entity = .ok entities ∧
      s' = { s with entities := entities, log := s.log ++ losses entities entity } := by
  rw [dropHandle] at h
  obtain ⟨entities, hentities, rfl⟩ := Option.map_eq_some_iff.mp h
  refine ⟨entities, ?_, rfl⟩
  cases hdrop : s.entities.dropNow entity with
  | error e => simp [hdrop, Except.toOption] at hentities
  | ok entities' => simpa [hdrop, Except.toOption] using hentities

theorem cloneHandle_eq_some (h : s.cloneHandle entity = some s') :
    ∃ entities, s.entities.clone entity = .ok entities ∧ s' = { s with entities := entities } := by
  rw [cloneHandle] at h
  obtain ⟨entities, hentities, rfl⟩ := Option.map_eq_some_iff.mp h
  refine ⟨entities, ?_, rfl⟩
  cases hclone : s.entities.clone entity with
  | error e => simp [hclone, Except.toOption] at hentities
  | ok entities' => simpa [hclone, Except.toOption] using hentities

theorem upgradeHandle_eq_some (h : s.upgradeHandle entity = some s') :
    (s.entities.counts entity).getD 0 ≠ 0 ∧
      s' = { s with entities := s.entities.gained entity } := by
  obtain ⟨hcount, h⟩ := Option.ite_none_left_eq_some.mp h
  exact ⟨hcount, (Option.some.inj h).symm⟩

theorem lease_eq_some (h : s.lease entity = some s') :
    ∃ entities, s.entities.lease entity = .ok entities ∧ s' = { s with entities := entities } := by
  rw [lease] at h
  obtain ⟨entities, hentities, rfl⟩ := Option.map_eq_some_iff.mp h
  refine ⟨entities, ?_, rfl⟩
  cases hlease : s.entities.lease entity with
  | error e => simp [hlease, Except.toOption] at hentities
  | ok entities' => simpa [hlease, Except.toOption] using hentities

theorem endLease_eq_some (h : s.endLease entity = some s') :
    ∃ lease, (s.entities.leases.find? fun lease => lease.1 = entity) = some lease ∧
      s' = { s with entities := s.entities.endLease lease () } := by
  rw [endLease] at h
  obtain ⟨lease, hlease, rfl⟩ := Option.map_eq_some_iff.mp h
  exact ⟨lease, hlease, rfl⟩

/-! ### The cases of a step -/

/-- What an update does in front of `start_update`, and its scope. -/
inductive Enters (s : App) : Op → Scope → App → Prop
  | update : Enters s .update .update s
  | new {entity : EntityId} {tid : TypeId} {t : App} (hfree : entity ∉ s.entities.allocated)
      (hclone : cloneHandle { s with entities := s.entities.reserve entity } entity = some t) :
      Enters s (.new entity tid) (.new entity tid) t
  | insertEntity {entity : EntityId} (hslot : 0 < s.reservations entity) :
      Enters s (.insertEntity entity) (.insertEntity entity) s
  | updateEntity {entity : EntityId} {t : App} (hid : entity ∈ s.entities.handles)
      (hlease : s.lease entity = some t) :
      Enters s (.updateEntity entity) (.updateEntity entity) t
  | asMut {entity : EntityId} {t : App} (hid : entity ∈ s.entities.handles)
      (hlease : s.lease entity = some t) : Enters s (.asMut entity) (.borrow entity) t

/-- Reservations and handles come and go. -/
inductive Handles (s : App) : Op → App → Prop
  | reserveEntity {entity : EntityId} (hcalls : s.calls = true)
      (hfree : entity ∉ s.entities.allocated) :
      Handles s (.reserveEntity entity) { s with entities := s.entities.reserve entity }
  | dropReservation {entity : EntityId} {t : App} (hslot : 0 < s.reservations entity)
      (hdrop : s.dropSlot entity = some t) : Handles s (.dropReservation entity) t
  | clone {entity : EntityId} {t : App} (hid : entity ∈ s.entities.handles)
      (hclone : s.cloneHandle entity = some t) : Handles s (.clone entity) t
  | upgrade {entity : EntityId} {t : App} (hupgrade : s.upgradeHandle entity = some t) :
      Handles s (.upgrade entity) t
  | drop {entity : EntityId} {t : App}
      (howned : s.reserved entity < s.entities.handles.count entity)
      (hdrop : s.dropHandle entity = some t) : Handles s (.drop entity) t

/-- What a call does that pushes an effect, in front of `push_effect`. -/
inductive Pushes (s : App) : Op → Effect → App → Prop
  | notify {entity : EntityId} :
      Pushes s (.notify entity) (.notify entity) { s with log := s.log ++ [.notified entity] }
  | emit {entity : EntityId} {eventType : TypeId} {handles : List EntityId}
      (howned : ∀ id ∈ handles,
        s.reserved id + handles.count id ≤ s.entities.handles.count id) :
      Pushes s (.emit entity eventType handles) (.emit entity eventType s.eventArena.length)
        { s with eventArena := s.eventArena ++ [handles] }
  | refreshWindows : Pushes s .refreshWindows .refreshWindows s
  | notifyGlobal {globalType : TypeId} :
      Pushes s (.notifyGlobal globalType) (.notifyGlobalObservers globalType) s
  | defer {callback : ℕ} : Pushes s (.defer callback) (.defer (.user callback)) s

/-- What a call subscribes that leaves the activation to a deferred callback. -/
inductive Registers (s : App) : Op → Topic → Callback → Prop
  | observe {entity : EntityId} (hid : entity ∈ s.entities.handles) :
      Registers s (.observe entity) (.observers entity) ⟨none, true⟩
  | observeInternal {entity : EntityId} (hid : entity ∈ s.entities.handles) :
      Registers s (.observeInternal entity) (.observers entity) ⟨none, false⟩
  | subscribe {entity : EntityId} {eventType : TypeId} (hid : entity ∈ s.entities.handles) :
      Registers s (.subscribe entity eventType) (.eventListeners entity) ⟨some eventType, true⟩
  | subscribeInternal {entity : EntityId} {eventType : TypeId}
      (hid : entity ∈ s.entities.handles) :
      Registers s (.subscribeInternal entity eventType) (.eventListeners entity)
        ⟨some eventType, false⟩
  | observeGlobal {globalType : TypeId} :
      Registers s (.observeGlobal globalType) (.globalObservers globalType) ⟨none, true⟩

/-- What a call subscribes that activates the subscriber. -/
inductive Activates (s : App) : Op → Topic → Callback → Prop
  | observeNew {tid : TypeId} : Activates s (.observeNew tid) (.newEntityObservers tid) ⟨none, true⟩
  | observeRelease {entity : EntityId} (hid : entity ∈ s.entities.handles) :
      Activates s (.observeRelease entity) (.releaseListeners entity) ⟨none, true⟩
  | onAppQuit : Activates s .onAppQuit .quitObservers ⟨none, true⟩

/-- What a step does. -/
inductive Stepped (s : App) : Op → App → Prop
  | enter {op : Op} {scope : Scope} {t : App} (hcalls : s.calls = true)
      (henters : s.Enters op scope t) : Stepped s op (t.startUpdate scope)
  | finish {scope : Scope} {scopes : List Scope} {t : App} (hscopes : s.scopes = scope :: scopes)
      (hleave : s.leave scope = some t) : Stepped s .finish (t.finishUpdate scopes)
  | handles {op : Op} {t : App} (hruns : s.runs = true ∨ s.calls = true)
      (hhandles : s.Handles op t) : Stepped s op t
  | push {op : Op} {effect : Effect} {t : App} (hcalls : s.calls = true)
      (hpushes : s.Pushes op effect t) : Stepped s op (t.pushEffect effect)
  | register {op : Op} {topic : Topic} {callback : Callback} (hcalls : s.calls = true)
      (hregisters : s.Registers op topic callback) :
      Stepped s op (s.registerDeferred topic callback)
  | activate {op : Op} {topic : Topic} {callback : Callback} (hcalls : s.calls = true)
      (hactivates : s.Activates op topic callback) :
      Stepped s op (s.registerActive topic callback)
  | unsubscribe {subscription : Subscription Topic} (hruns : s.runs = true)
      (hheld : subscription ∈ s.held) :
      Stepped s (.unsubscribe subscription) (s.unsubscribe subscription)
  | shutdown (hcalls : s.calls = true) : Stepped s .shutdown s.shutdown
  | nextQuit {scopes : List Scope} {callbacks : Subscribers Callback}
      (hscopes : s.scopes = .shutdown (.observers none callbacks) :: scopes) :
      Stepped s .advance (s.nextQuit scopes callbacks)
  | retQuit {keep : Bool} {scopes : List Scope} {id : ℕ} {callbacks : Subscribers Callback}
      (hscopes : s.scopes = .shutdown (.observers (some id) callbacks) :: scopes) :
      Stepped s (.ret keep) (s.retQuit scopes id callbacks)
  | ret {keep : Bool} {phase : Phase} {scopes : List Scope} {t : App}
      (hscopes : s.scopes = .flush phase :: scopes) (hret : s.ret scopes keep phase = some t) :
      Stepped s (.ret keep) t
  | advance {phase : Phase} {scopes : List Scope} {t : App}
      (hscopes : s.scopes = .flush phase :: scopes)
      (hadvance : s.advance scopes phase = some t) : Stepped s .advance t

theorem call_eq_some (h : s.call t = some s') : s.calls = true ∧ s' = t := by
  obtain ⟨hcalls, h⟩ := Option.ite_none_right_eq_some.mp h
  exact ⟨hcalls, (Option.some.inj h).symm⟩

theorem step_cases (h : s.step op = some s') : s.Stepped op s' := by
  cases op with
  | update =>
    obtain ⟨hcalls, h⟩ := Option.ite_none_right_eq_some.mp h
    exact Option.some.inj h ▸ .enter hcalls .update
  | new entity tid =>
    obtain ⟨⟨hcalls, hfree⟩, h⟩ := Option.ite_none_right_eq_some.mp h
    obtain ⟨t, ht, rfl⟩ := Option.map_eq_some_iff.mp h
    exact .enter hcalls (.new hfree ht)
  | insertEntity entity =>
    obtain ⟨⟨hcalls, hslot⟩, h⟩ := Option.ite_none_right_eq_some.mp h
    exact Option.some.inj h ▸ .enter hcalls (.insertEntity hslot)
  | updateEntity entity =>
    obtain ⟨⟨hcalls, hid⟩, h⟩ := Option.ite_none_right_eq_some.mp h
    obtain ⟨t, ht, rfl⟩ := Option.map_eq_some_iff.mp h
    exact .enter hcalls (.updateEntity hid ht)
  | asMut entity =>
    obtain ⟨⟨hcalls, hid⟩, h⟩ := Option.ite_none_right_eq_some.mp h
    obtain ⟨t, ht, rfl⟩ := Option.map_eq_some_iff.mp h
    exact .enter hcalls (.asMut hid ht)
  -- what ends is the innermost scope
  | finish =>
    rw [step] at h
    split at h
    · obtain ⟨t, ht, rfl⟩ := Option.map_eq_some_iff.mp h
      exact .finish ‹_› ht
    · cases h
  -- what works on the handles alone opens no scope
  | reserveEntity entity =>
    obtain ⟨⟨hcalls, hfree⟩, h⟩ := Option.ite_none_right_eq_some.mp h
    exact Option.some.inj h ▸ .handles (.inr hcalls) (.reserveEntity hcalls hfree)
  | dropReservation entity =>
    obtain ⟨⟨hruns, hslot⟩, h⟩ := Option.ite_none_right_eq_some.mp h
    exact .handles (.inl hruns) (.dropReservation hslot h)
  | clone entity =>
    obtain ⟨⟨hruns, hid⟩, h⟩ := Option.ite_none_right_eq_some.mp h
    exact .handles (.inl hruns) (.clone hid h)
  | upgrade entity =>
    obtain ⟨hruns, h⟩ := Option.ite_none_right_eq_some.mp h
    exact .handles (.inl hruns) (.upgrade h)
  | drop entity =>
    obtain ⟨⟨hruns, howned⟩, h⟩ := Option.ite_none_right_eq_some.mp h
    exact .handles (.inl hruns) (.drop howned h)
  -- what only pushes an effect
  | notify entity =>
    obtain ⟨hcalls, rfl⟩ := call_eq_some h
    exact .push hcalls .notify
  | emit entity eventType handles =>
    obtain ⟨howned, h⟩ := Option.ite_none_right_eq_some.mp h
    obtain ⟨hcalls, rfl⟩ := call_eq_some h
    exact .push hcalls (.emit howned)
  | refreshWindows =>
    obtain ⟨hcalls, rfl⟩ := call_eq_some h
    exact .push hcalls .refreshWindows
  | notifyGlobal globalType =>
    obtain ⟨hcalls, rfl⟩ := call_eq_some h
    exact .push hcalls .notifyGlobal
  | defer callback =>
    obtain ⟨hcalls, rfl⟩ := call_eq_some h
    exact .push hcalls .defer
  -- what registers a subscriber, with an effect that activates it
  | observe entity =>
    obtain ⟨hid, h⟩ := Option.ite_none_right_eq_some.mp h
    obtain ⟨hcalls, rfl⟩ := call_eq_some h
    exact .register hcalls (.observe hid)
  | observeInternal entity =>
    obtain ⟨hid, h⟩ := Option.ite_none_right_eq_some.mp h
    obtain ⟨hcalls, rfl⟩ := call_eq_some h
    exact .register hcalls (.observeInternal hid)
  | subscribe entity eventType =>
    obtain ⟨hid, h⟩ := Option.ite_none_right_eq_some.mp h
    obtain ⟨hcalls, rfl⟩ := call_eq_some h
    exact .register hcalls (.subscribe hid)
  | subscribeInternal entity eventType =>
    obtain ⟨hid, h⟩ := Option.ite_none_right_eq_some.mp h
    obtain ⟨hcalls, rfl⟩ := call_eq_some h
    exact .register hcalls (.subscribeInternal hid)
  | observeGlobal globalType =>
    obtain ⟨hcalls, rfl⟩ := call_eq_some h
    exact .register hcalls .observeGlobal
  -- what registers a subscriber and activates it at once
  | observeNew tid =>
    obtain ⟨hcalls, rfl⟩ := call_eq_some h
    exact .activate hcalls .observeNew
  | observeRelease entity =>
    obtain ⟨hid, h⟩ := Option.ite_none_right_eq_some.mp h
    obtain ⟨hcalls, rfl⟩ := call_eq_some h
    exact .activate hcalls (.observeRelease hid)
  | onAppQuit =>
    obtain ⟨hcalls, rfl⟩ := call_eq_some h
    exact .activate hcalls .onAppQuit
  | unsubscribe subscription =>
    obtain ⟨⟨hruns, hheld⟩, h⟩ := Option.ite_none_right_eq_some.mp h
    exact Option.some.inj h ▸ .unsubscribe hruns hheld
  | shutdown =>
    obtain ⟨hcalls, h⟩ := Option.ite_none_right_eq_some.mp h
    exact Option.some.inj h ▸ .shutdown hcalls
  -- a callback returns to the pass that has called it, or to the shutdown
  | ret keep =>
    rw [step] at h
    split at h
    · exact .ret ‹_› h
    · exact Option.some.inj h ▸ .retQuit ‹_›
    · cases h
  | advance =>
    rw [step] at h
    split at h
    · exact .advance ‹_› h
    · exact Option.some.inj h ▸ .nextQuit ‹_›
    · cases h

/-! ### The cases of a step of the flush -/

/-- What the application of an effect does that was taken from the queue. -/
inductive Applied (s : App) (scopes : List Scope) : Effect → App → Prop
  | retain {effect : Effect} {topic : Topic} {subscribers : SubscriberSet Topic Callback}
      {moved : Subscribers Callback} (htopic : effect.topic = some topic)
      (htake : s.subscribers.take topic = some (subscribers, moved)) :
      Applied s scopes effect
        (goTo { s.mark false effect with subscribers := subscribers } scopes
          (.retain effect ⟨topic, [], none, moved⟩))
  | unheard {effect : Effect} {topic : Topic} {t : App} (htopic : effect.topic = some topic)
      (htake : s.subscribers.take topic = none)
      (hend : (s.mark false effect).endEffect scopes effect = some t) : Applied s scopes effect t
  | refreshWindows {t : App} (hend : s.endEffect scopes .refreshWindows = some t) :
      Applied s scopes .refreshWindows t
  | activate {topic : Topic} {id : ℕ} {t : App}
      (hend : endEffect { s with subscribers := s.subscribers.activate id } scopes
        (.defer (.activate topic id)) = some t) : Applied s scopes (.defer (.activate topic id)) t
  | deferred {callback : ℕ} :
      Applied s scopes (.defer (.user callback))
        (goTo { s with log := s.log ++ [.called (.deferred callback)] } scopes
          (.deferred callback))

/-- What the loop of `retain` does with a subscriber. -/
inductive Visited (s : App) (scopes : List Scope) (effect : Effect) (pass : Frame Topic Callback)
    (subscriber : ℕ × Callback) (rest : Subscribers Callback) : App → Prop
  | kept (hkept : s.subscribers.active subscriber.1 = false ∨
        s.answer subscriber.2 effect = .keep) :
      Visited s scopes effect pass subscriber rest
        (s.goTo scopes
          (.retain effect { pass with kept := pass.kept ++ [subscriber], rest := rest }))
  | removed (hactive : s.subscribers.active subscriber.1 = true)
      (hremoved : s.subscribers.dropped subscriber.1 = true ∨
        s.answer subscriber.2 effect = .remove) :
      Visited s scopes effect pass subscriber rest
        (s.goTo scopes (.retain effect { pass with rest := rest }))
  | called {t : App} (hactive : s.subscribers.active subscriber.1 = true)
      (hdropped : s.subscribers.dropped subscriber.1 = false)
      (hanswer : s.answer subscriber.2 effect = .call t) :
      Visited s scopes effect pass subscriber rest
        (goTo { t with log := t.log ++ [.called (.subscriber pass.emitter subscriber.1 effect)] }
          scopes (.retain effect { pass with current := some subscriber, rest := rest }))

/-- What a step of `flush_effects` does. -/
inductive Advanced (s : App) (scopes : List Scope) : Phase → App → Prop
  | takeDropped {entities : EntityMap EntityId Unit}
      (htaken : s.entities.takeDropped = .ok entities) :
      Advanced s scopes .takeDropped
        (goTo { s with entities := entities } scopes
          (if ((entities.returned.drop s.entities.returned.length).map Prod.fst).isEmpty then
            .popFront
          else .release ((entities.returned.drop s.entities.returned.length).map Prod.fst)))
  | releaseEnd : Advanced s scopes (.release []) (s.goTo scopes .takeDropped)
  | release {entity : EntityId} {dropped : List EntityId} :
      Advanced s scopes (.release (entity :: dropped)) (s.release scopes entity dropped)
  | callRelease {entity : EntityId} {callbacks rest : Subscribers Callback}
      {dropped : List EntityId} {subscriber : ℕ × Callback}
      (hnext : s.subscribers.nextCallback callbacks = some (subscriber, rest)) :
      Advanced s scopes (.releaseCallbacks entity none callbacks dropped)
        (goTo { s with log := s.log ++ [.called (.release entity subscriber.1)] } scopes
          (.releaseCallbacks entity (some subscriber.1) rest dropped))
  | dropValue {entity : EntityId} {callbacks : Subscribers Callback} {dropped : List EntityId}
      (hnext : s.subscribers.nextCallback callbacks = none) :
      Advanced s scopes (.releaseCallbacks entity none callbacks dropped)
        (goTo { s with log := s.log ++ [.valueDropped entity] } scopes (.release dropped))
  | popFront {effect : Effect} {effects : List Effect} {t : App}
      (heffects : s.pendingEffects = effect :: effects)
      (happly : Applied
        { s with pendingEffects := effects, log := s.log ++ [.began effect] } scopes effect t) :
      Advanced s scopes .popFront t
  | clear (heffects : s.pendingEffects = []) : Advanced s scopes .popFront (s.goTo scopes .clear)
  | visit {effect : Effect} {pass : Frame Topic Callback} {subscriber : ℕ × Callback}
      {rest : Subscribers Callback} {t : App} (hcurrent : pass.current = none)
      (hrest : pass.rest = subscriber :: rest)
      (hvisit : s.Visited scopes effect pass subscriber rest t) :
      Advanced s scopes (.retain effect pass) t
  | endRetain {effect : Effect} {pass : Frame Topic Callback} {t : App}
      (hcurrent : pass.current = none) (hrest : pass.rest = [])
      (hend : endEffect { s with subscribers := s.subscribers.restore pass.emitter pass.kept }
        scopes effect = some t) : Advanced s scopes (.retain effect pass) t
  | clearEvent {events : List (List EntityId)} (harena : s.eventArena = [] :: events) :
      Advanced s scopes .clear { s with eventArena := events }
  | clearHandle {entity : EntityId} {handles : List EntityId} {events : List (List EntityId)}
      {t : App} (harena : s.eventArena = (entity :: handles) :: events)
      (hdrop : dropHandle { s with eventArena := handles :: events } entity = some t) :
      Advanced s scopes .clear t
  | cleared (harena : s.eventArena = []) : Advanced s scopes .clear (s.flushed scopes)

/-- What the return of code does that `flush_effects` has called. -/
inductive Returned (s : App) (scopes : List Scope) (keep : Bool) : Phase → App → Prop
  | release {entity : EntityId} {id : ℕ} {callbacks : Subscribers Callback}
      {dropped : List EntityId} :
      Returned s scopes keep (.releaseCallbacks entity (some id) callbacks dropped)
        (goTo { s with log := s.log ++ [.returned (.release entity id)] } scopes
          (.releaseCallbacks entity none callbacks dropped))
  | retain {effect : Effect} {pass : Frame Topic Callback} {subscriber : ℕ × Callback}
      (hcurrent : pass.current = some subscriber) :
      Returned s scopes keep (.retain effect pass)
        (goTo { s with log := s.log ++ [.returned (.subscriber pass.emitter subscriber.1 effect)] }
          scopes (.retain effect
            { pass with
                kept :=
                  if (subscriber.2.returnsTrue || keep) && !s.subscribers.dropped subscriber.1 then
                    pass.kept ++ [subscriber]
                  else pass.kept
                current := none }))
  | deferred {callback : ℕ} {t : App}
      (hend : endEffect { s with log := s.log ++ [.returned (.deferred callback)] } scopes
        (.defer (.user callback)) = some t) : Returned s scopes keep (.deferred callback) t

theorem endEffect_eq_some (h : s.endEffect scopes effect = some s') :
    ∃ entities lost, s' =
        { s with
            entities := entities
            scopes := .flush .takeDropped :: scopes
            log := s.log ++ .ended effect :: lost } ∧
      ((effect.handles = [] ∧ entities = s.entities ∧ lost = []) ∨
        ∃ entity, effect.handles = [entity] ∧ s.entities.dropNow entity = .ok entities ∧
          lost = losses entities entity) := by
  cases effect with
  | entityCreated entity tid =>
    obtain ⟨entities, hdrop, rfl⟩ := dropHandle_eq_some h
    refine ⟨entities, losses entities entity, ?_, .inr ⟨entity, rfl, hdrop, rfl⟩⟩
    simp [goTo]
  | notify emitter => exact ⟨_, _, (Option.some.inj h).symm, .inl ⟨rfl, rfl, rfl⟩⟩
  | emit emitter eventType event => exact ⟨_, _, (Option.some.inj h).symm, .inl ⟨rfl, rfl, rfl⟩⟩
  | refreshWindows => exact ⟨_, _, (Option.some.inj h).symm, .inl ⟨rfl, rfl, rfl⟩⟩
  | notifyGlobalObservers globalType =>
    exact ⟨_, _, (Option.some.inj h).symm, .inl ⟨rfl, rfl, rfl⟩⟩
  | defer callback => exact ⟨_, _, (Option.some.inj h).symm, .inl ⟨rfl, rfl, rfl⟩⟩

theorem retain_cases {topic : Topic} (htopic : effect.topic = some topic)
    (h : (s.mark false effect).retain scopes effect topic = some s') :
    s.Applied scopes effect s' := by
  have hsubscribers : (s.mark false effect).subscribers = s.subscribers := by
    obtain ⟨notifications, globals, hmark⟩ := s.mark_eq false effect
    rw [hmark]
  rw [retain, hsubscribers] at h
  split at h
  case h_1 subscribers moved htake => exact Option.some.inj h ▸ .retain htopic htake
  case h_2 htake => exact .unheard htopic htake h

theorem apply_cases (h : s.apply scopes effect = some s') : s.Applied scopes effect s' := by
  cases effect with
  | notify emitter => exact retain_cases rfl h
  | emit emitter eventType event =>
    obtain ⟨-, h⟩ := Option.ite_none_right_eq_some.mp h
    exact retain_cases rfl h
  | refreshWindows => exact .refreshWindows h
  | notifyGlobalObservers globalType => exact retain_cases rfl h
  | defer callback =>
    cases callback with
    | activate topic id => exact .activate h
    | user callback => exact Option.some.inj h ▸ .deferred
  | entityCreated entity tid => exact retain_cases rfl h

theorem visit_cases (s : App) (scopes : List Scope) (effect : Effect)
    (pass : Frame Topic Callback) (subscriber : ℕ × Callback) (rest : Subscribers Callback) :
    s.Visited scopes effect pass subscriber rest
      (s.visit scopes effect pass subscriber rest) := by
  rw [visit]
  split
  case h_1 hturn => exact .kept (.inl (SubscriberSet.turn_eq_keep.mp hturn))
  case h_2 hturn =>
    obtain ⟨hactive, hdropped⟩ := SubscriberSet.turn_eq_remove.mp hturn
    exact .removed hactive (.inl hdropped)
  case h_3 hturn =>
    obtain ⟨hactive, hdropped⟩ := SubscriberSet.turn_eq_call.mp hturn
    split
    case h_1 hanswer => exact .kept (.inr hanswer)
    case h_2 hanswer => exact .removed hactive (.inr hanswer)
    case h_3 hanswer => exact .called hactive hdropped hanswer

theorem advance_cases {phase : Phase} (h : s.advance scopes phase = some s') :
    s.Advanced scopes phase s' := by
  unfold advance at h
  split at h
  · -- `take_dropped`.
    rw [takeDropped] at h
    obtain ⟨entities, hentities, rfl⟩ := Option.map_eq_some_iff.mp h
    cases htaken : s.entities.takeDropped with
    | error e => simp [htaken, Except.toOption] at hentities
    | ok entities' =>
      obtain rfl : entities' = entities := by simpa [htaken, Except.toOption] using hentities
      exact .takeDropped htaken
  · exact Option.some.inj h ▸ .releaseEnd
  · exact Option.some.inj h ▸ .release
  · obtain rfl := Option.some.inj h
    rw [nextCallback]
    split
    · exact .callRelease ‹_›
    · exact .dropValue ‹_›
  · rw [popFront] at h
    split at h
    · exact .popFront ‹_› (apply_cases h)
    · exact Option.some.inj h ▸ .clear ‹_›
  · exact .visit rfl rfl (Option.some.inj h ▸ visit_cases ..)
  · exact .endRetain rfl rfl h
  · rw [clear] at h
    split at h
    · exact Option.some.inj h ▸ .cleared ‹_›
    · exact Option.some.inj h ▸ .clearEvent ‹_›
    · exact .clearHandle ‹_› h
  · cases h

theorem ret_cases {phase : Phase} {keep : Bool} (h : s.ret scopes keep phase = some s') :
    s.Returned scopes keep phase s' := by
  unfold ret at h
  split at h
  · exact Option.some.inj h ▸ .release
  · rename_i effect emitter kept id callback rest
    have hcurrent : (⟨emitter, kept, some (id, callback), rest⟩ : Frame Topic Callback).current =
        some (id, callback) := rfl
    exact Option.some.inj h ▸ .retain hcurrent
  · exact .deferred h
  · cases h

end App

end Zui.Gpui.Effects
