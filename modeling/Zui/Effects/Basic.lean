/-
The effects of an app without windows.

A step is one call of user code, the return of user code, or one part of `flush_effects`
or `shutdown` between two places where user code may run.  Updates, shutdowns and the flush
in progress are scopes of a stack: user code that runs in a scope may open another one.  The
log says what has happened, for the statements.

Design notes:

* the six sets of subscribers are one set, whose keys say which of the sets is meant;
* an id of an entity is one that the slot map never returned before, and the values of
  entities are of no matter;
* one thread runs: a drop of the last handle pushes the id at once, and an upgrade gets
  through;
* who owns a strong handle is only told where user code cannot drop it: in a reservation,
  in the queue, in the event arena and in a scope (`reserved`).  User code and the
  destructors that run in between own the other handles, and drop them as they like, also
  those that are borrowed;
* an event is the place of its payload in the arena, and of the payload only the handles
  are kept that it owns;
* `shutdown` returns when its flush does: the futures of the quit observers do not have the
  `App`, and nothing here reads `quitting`.
-/
import Zui.Entities.Basic
import Zui.Subscription.Machine

namespace Zui.Gpui.Effects

abbrev EntityId : Type := ℕ

abbrev TypeId : Type := ℕ

/-- A set of subscribers with one of its keys. -/
inductive Topic
  | observers (entity : EntityId)
  | eventListeners (entity : EntityId)
  | globalObservers (globalType : TypeId)
  | newEntityObservers (tid : TypeId)
  | releaseListeners (entity : EntityId)
  | quitObservers
  deriving DecidableEq, Repr

/-- What is subscribed, as far as it is not code of the user. -/
structure Callback where
  /-- The type of events that a listener is for. -/
  eventType : Option TypeId
  /-- The closure that wraps the code of the user returns `true` in the end. -/
  returnsTrue : Bool
  deriving DecidableEq, Repr

inductive DeferredCallback
  /-- `move |_| activate()`. -/
  | activate (topic : Topic) (id : ℕ)
  | user (callback : ℕ)
  deriving DecidableEq, Repr

inductive Effect
  | notify (emitter : EntityId)
  | emit (emitter : EntityId) (eventType : TypeId) (event : ℕ)
  | refreshWindows
  | notifyGlobalObservers (globalType : TypeId)
  | defer (callback : DeferredCallback)
  | entityCreated (entity : EntityId) (tid : TypeId)
  deriving DecidableEq, Repr

/-- The code of the user that `flush_effects` and `shutdown` call. -/
inductive Callee
  | subscriber (topic : Topic) (id : ℕ) (effect : Effect)
  | release (entity : EntityId) (id : ℕ)
  | deferred (callback : ℕ)
  | quit (id : ℕ)
  deriving DecidableEq, Repr

/-- What happens. -/
inductive Event
  | registered (topic : Topic) (id : ℕ) (callback : Callback)
  | unsubscribed (id : ℕ)
  | notified (entity : EntityId)
  | pushed (effect : Effect)
  /-- The effect is taken from the queue, and its application begins. -/
  | began (effect : Effect)
  | ended (effect : Effect)
  | called (callee : Callee)
  | returned (callee : Callee)
  /-- The last strong handle is dropped. -/
  | lost (entity : EntityId)
  /-- The subscribers of an entity are removed that `take_dropped` has returned. -/
  | released (entity : EntityId)
  | valueDropped (entity : EntityId)
  deriving DecidableEq, Repr

/-- Where `flush_effects` is. -/
inductive Phase
  /-- In front of `take_dropped`. -/
  | takeDropped
  /-- In the loop over what `take_dropped` has returned. -/
  | release (dropped : List EntityId)
  /-- In the loop over the release callbacks of an entity. -/
  | releaseCallbacks (entity : EntityId) (running : Option ℕ) (callbacks : Subscribers Callback)
      (dropped : List EntityId)
  /-- In front of `pop_front`. -/
  | popFront
  | retain (effect : Effect) (pass : Frame Topic Callback)
  | deferred (callback : ℕ)
  /-- In `event_arena.clear`. -/
  | clear

/-- Where `shutdown` is. -/
inductive Stage
  /-- In the loop over the quit observers. -/
  | observers (running : Option ℕ) (callbacks : Subscribers Callback)
  /-- In `flush_effects`, which is the scope inside of it. -/
  | flush

/-- An update, a flush or a shutdown in progress. -/
inductive Scope
  | update
  /-- `AppContext::new` builds the entity. -/
  | new (entity : EntityId) (tid : TypeId)
  /-- `insert_entity` builds the entity. -/
  | insertEntity (entity : EntityId)
  | updateEntity (entity : EntityId)
  /-- A `GpuiBorrow` is around, which has the `App` borrowed. -/
  | borrow (entity : EntityId)
  | flush (phase : Phase)
  | shutdown (stage : Stage)

/-- `App`, with the subscriptions that are around, the scopes and the log. -/
structure App where
  pendingUpdates : ℕ
  flushingEffects : Bool
  pendingEffects : List Effect
  pendingNotifications : EntityId → Bool
  pendingGlobalNotifications : TypeId → Bool
  entities : EntityMap EntityId Unit
  subscribers : SubscriberSet Topic Callback
  eventArena : List (List EntityId)
  held : List (Subscription Topic)
  /-- The innermost scope first. -/
  scopes : List Scope
  log : List Event

/-- The steps. -/
inductive Op
  /-- An update begins. -/
  | update
  | new (entity : EntityId) (tid : TypeId)
  | insertEntity (entity : EntityId)
  | updateEntity (entity : EntityId)
  | asMut (entity : EntityId)
  /-- The code of the innermost update returns. -/
  | finish
  | reserveEntity (entity : EntityId)
  | dropReservation (entity : EntityId)
  | clone (entity : EntityId)
  | upgrade (entity : EntityId)
  | drop (entity : EntityId)
  | notify (entity : EntityId)
  /-- `emit`, with the strong handles that the event owns. -/
  | emit (entity : EntityId) (eventType : TypeId) (handles : List EntityId)
  | refreshWindows
  /-- A global is set, or mutably accessed. -/
  | notifyGlobal (globalType : TypeId)
  | defer (callback : ℕ)
  | observe (entity : EntityId)
  | observeInternal (entity : EntityId)
  | subscribe (entity : EntityId) (eventType : TypeId)
  | subscribeInternal (entity : EntityId) (eventType : TypeId)
  | observeGlobal (globalType : TypeId)
  | observeNew (tid : TypeId)
  | observeRelease (entity : EntityId)
  | onAppQuit
  | unsubscribe (subscription : Subscription Topic)
  | shutdown
  /-- The code that `flush_effects` or `shutdown` has called returns. -/
  | ret (keep : Bool)
  /-- `flush_effects` or `shutdown` goes on. -/
  | advance
  deriving DecidableEq

namespace Phase

/-- Code of the user runs that `flush_effects` has called. -/
def running : Phase → Option Callee
  | releaseCallbacks entity (some id) _ _ => some (.release entity id)
  | retain effect pass =>
    pass.current.map fun subscriber => .subscriber pass.emitter subscriber.1 effect
  | deferred callback => some (.deferred callback)
  | _ => none

end Phase

/-- A quit observer runs. -/
def Stage.running : Stage → Option Callee
  | .observers (some id) _ => some (.quit id)
  | _ => none

namespace Effect

/-- The strong handles that the effect owns. -/
def handles : Effect → List EntityId
  | entityCreated entity _ => [entity]
  | _ => []

end Effect

namespace Scope

/-- The strong handles that the scope owns. -/
def handles : Scope → List EntityId
  | new entity _ => [entity]
  | flush (.retain effect _) => effect.handles
  | _ => []

/-- The entity that is built in the scope, in a slot that is taken up. -/
def built : Scope → List EntityId
  | new entity _ => [entity]
  | insertEntity entity => [entity]
  | _ => []

end Scope

namespace App

/-- The `App` that `new_app` builds, in front of `SystemWindowTabController::init`, whose
`set_global` is a step of its own. -/
def init : App where
  pendingUpdates := 0
  flushingEffects := false
  pendingEffects := []
  pendingNotifications := fun _ => false
  pendingGlobalNotifications := fun _ => false
  entities := .new
  subscribers := .new
  eventArena := []
  held := []
  scopes := []
  log := []

/-! ### Effects -/

/-- `pending_effects.push_back`. -/
def pushBack (s : App) (effect : Effect) : App :=
  { s with pendingEffects := s.pendingEffects ++ [effect], log := s.log ++ [.pushed effect] }

/-- `push_effect`. -/
def pushEffect (s : App) : Effect → App
  | .notify emitter =>
    if s.pendingNotifications emitter then s
    else pushBack
      { s with pendingNotifications := Function.update s.pendingNotifications emitter true }
      (.notify emitter)
  | .notifyGlobalObservers globalType =>
    if s.pendingGlobalNotifications globalType then s
    else pushBack
      { s with
          pendingGlobalNotifications := Function.update s.pendingGlobalNotifications
            globalType true }
      (.notifyGlobalObservers globalType)
  | effect => s.pushBack effect

/-- `App::notify`, which finds no window. -/
def notify (s : App) (entity : EntityId) : App :=
  let s := { s with log := s.log ++ [.notified entity] }
  if s.pendingNotifications entity then s
  else pushBack
    { s with pendingNotifications := Function.update s.pendingNotifications entity true }
    (.notify entity)

/-- `emit`. -/
def emit (s : App) (entity : EntityId) (eventType : TypeId) (handles : List EntityId) : App :=
  pushBack { s with eventArena := s.eventArena ++ [handles] }
    (.emit entity eventType s.eventArena.length)

/-- `App::defer`. -/
def defer (s : App) (callback : DeferredCallback) : App :=
  s.pushEffect (.defer callback)

/-! ### Subscribers -/

/-- `insert` of a set of subscribers. -/
def register (s : App) (topic : Topic) (callback : Callback) : App :=
  let (subscribers, subscription) := s.subscribers.insert topic callback
  { s with
      subscribers := subscribers
      held := subscription :: s.held
      log := s.log ++ [.registered topic subscription.subscriberId callback] }

/-- A subscriber that a deferred callback activates: `new_observer`, `new_subscription`. -/
def registerDeferred (s : App) (topic : Topic) (callback : Callback) : App :=
  (s.register topic callback).defer (.activate topic s.subscribers.nextSubscriberId)

/-- A subscriber that is activated at once. -/
def registerActive (s : App) (topic : Topic) (callback : Callback) : App :=
  let registered := s.register topic callback
  { registered with
      subscribers := registered.subscribers.activate s.subscribers.nextSubscriberId }

/-- A subscription is dropped. -/
def unsubscribe (s : App) (subscription : Subscription Topic) : App :=
  { s with
      subscribers := s.subscribers.unsubscribe subscription
      held := s.held.erase subscription
      log := s.log ++ [.unsubscribed subscription.subscriberId] }

/-! ### Handles -/

/-- The handles of an entity that user code cannot drop. -/
def reserved (s : App) (entity : EntityId) : ℕ :=
  s.entities.slots.count entity + (s.pendingEffects.flatMap Effect.handles).count entity +
    (s.scopes.flatMap Scope.handles).count entity + s.eventArena.flatten.count entity

/-- The slots of an entity that are not taken up by an `insert_entity` in progress. -/
def reservations (s : App) (entity : EntityId) : ℕ :=
  s.entities.slots.count entity - (s.scopes.flatMap Scope.built).count entity

/-- What a drop of a handle has done. -/
def losses (entities : EntityMap EntityId Unit) (entity : EntityId) : List Event :=
  if entities.counts entity = some 0 then [.lost entity] else []

/-- `drop` of a strong handle, unless it panics. -/
def dropHandle (s : App) (entity : EntityId) : Option App :=
  (s.entities.dropNow entity).toOption.map fun entities =>
    { s with entities := entities, log := s.log ++ losses entities entity }

/-- `drop` of a slot. -/
def dropSlot (s : App) (entity : EntityId) : Option App :=
  dropHandle
    { s with entities := { s.entities with slots := s.entities.slots.erase entity } } entity

/-- `clone` of a strong handle, unless it panics. -/
def cloneHandle (s : App) (entity : EntityId) : Option App :=
  (s.entities.clone entity).toOption.map fun entities => { s with entities := entities }

/-- `upgrade` of a weak handle, if there is a strong one. -/
def upgradeHandle (s : App) (entity : EntityId) : Option App :=
  if (s.entities.counts entity).getD 0 = 0 then none
  else some { s with entities := s.entities.gained entity }

/-! ### Updates -/

/-- An update begins: `start_update`. -/
def startUpdate (s : App) (scope : Scope) : App :=
  { s with pendingUpdates := s.pendingUpdates + 1, scopes := scope :: s.scopes }

/-- `finish_update`, up to `flush_effects`; `scopes` are those around the update. -/
def finishUpdate (s : App) (scopes : List Scope) : App :=
  if s.flushingEffects = false ∧ s.pendingUpdates = 1 then
    { s with flushingEffects := true, scopes := .flush .takeDropped :: scopes }
  else { s with pendingUpdates := s.pendingUpdates - 1, scopes := scopes }

/-- `flush_effects` returns: the rest of `finish_update` behind it, or of `shutdown`. -/
def flushed (s : App) (scopes : List Scope) : App :=
  match scopes with
  | .shutdown .flush :: scopes => { s with scopes := scopes }
  | scopes =>
    { s with
        flushingEffects := false
        pendingUpdates := s.pendingUpdates - 1
        scopes := scopes }

/-- `lease`. -/
def lease (s : App) (entity : EntityId) : Option App :=
  (s.entities.lease entity).toOption.map fun entities => { s with entities := entities }

/-- `end_lease`. -/
def endLease (s : App) (entity : EntityId) : Option App :=
  (s.entities.leases.find? fun lease => lease.1 = entity).map fun lease =>
    { s with entities := s.entities.endLease lease () }

/-- What an update does behind the code that it has called, in front of `finish_update`. -/
def leave (s : App) : Scope → Option App
  | .update => some s
  | .new entity tid =>
    let s := s.pushEffect (.entityCreated entity tid)
    some { s with entities := s.entities.insert entity () }
  | .insertEntity entity => some { s with entities := s.entities.insert entity () }
  | .updateEntity entity => s.endLease entity
  | .borrow entity => (s.notify entity).endLease entity
  | .flush _ => none
  | .shutdown _ => none

/-! ### The flush -/

/-- The flush that is the innermost scope goes to another phase. -/
def goTo (s : App) (scopes : List Scope) (phase : Phase) : App :=
  { s with scopes := .flush phase :: scopes }

/-- `take_dropped` is called. -/
def takeDropped (s : App) (scopes : List Scope) : Option App :=
  s.entities.takeDropped.toOption.map fun entities =>
    let dropped := (entities.returned.drop s.entities.returned.length).map Prod.fst
    goTo { s with entities := entities } scopes
      (if dropped.isEmpty then .popFront else .release dropped)

/-- The subscribers of an entity are removed. -/
def release (s : App) (scopes : List Scope) (entity : EntityId) (dropped : List EntityId) : App :=
  let (subscribers, _) := s.subscribers.remove (.observers entity)
  let (subscribers, _) := subscribers.remove (.eventListeners entity)
  let (subscribers, callbacks) := subscribers.remove (.releaseListeners entity)
  goTo { s with subscribers := subscribers, log := s.log ++ [.released entity] } scopes
    (.releaseCallbacks entity none callbacks dropped)

/-- The next release callback is called, or the value is dropped. -/
def nextCallback (s : App) (scopes : List Scope) (entity : EntityId)
    (callbacks : Subscribers Callback) (dropped : List EntityId) : App :=
  match s.subscribers.nextCallback callbacks with
  | some (subscriber, rest) =>
    goTo { s with log := s.log ++ [.called (.release entity subscriber.1)] } scopes
      (.releaseCallbacks entity (some subscriber.1) rest dropped)
  | none =>
    goTo { s with log := s.log ++ [.valueDropped entity] } scopes (.release dropped)

/-- The application of an effect is over: what the effect owns is dropped. -/
def endEffect (s : App) (scopes : List Scope) (effect : Effect) : Option App :=
  let s := goTo { s with log := s.log ++ [.ended effect] } scopes .takeDropped
  match effect with
  | .entityCreated entity _ => s.dropHandle entity
  | _ => some s

/-- `retain` begins, unless it returns at once. -/
def retain (s : App) (scopes : List Scope) (effect : Effect) (topic : Topic) : Option App :=
  match s.subscribers.take topic with
  | some (subscribers, moved) =>
    some (goTo { s with subscribers := subscribers } scopes
      (.retain effect ⟨topic, [], none, moved⟩))
  | none => s.endEffect scopes effect

/-- The effects that `flush_effects` applies. -/
def apply (s : App) (scopes : List Scope) : Effect → Option App
  | .notify emitter =>
    retain { s with pendingNotifications := Function.update s.pendingNotifications emitter false }
      scopes (.notify emitter) (.observers emitter)
  | .emit emitter eventType event =>
    -- A pointer into an arena that was cleared is not dereferenced.
    if event < s.eventArena.length then
      s.retain scopes (.emit emitter eventType event) (.eventListeners emitter)
    else none
  | .refreshWindows => s.endEffect scopes .refreshWindows
  | .notifyGlobalObservers globalType =>
    retain
      { s with
          pendingGlobalNotifications :=
            Function.update s.pendingGlobalNotifications globalType false }
      scopes (.notifyGlobalObservers globalType) (.globalObservers globalType)
  | .defer (.activate topic id) =>
    endEffect { s with subscribers := s.subscribers.activate id } scopes
      (.defer (.activate topic id))
  | .defer (.user callback) =>
    some (goTo { s with log := s.log ++ [.called (.deferred callback)] } scopes
      (.deferred callback))
  | .entityCreated entity tid =>
    s.retain scopes (.entityCreated entity tid) (.newEntityObservers tid)

/-- The next effect is applied, if there is one. -/
def popFront (s : App) (scopes : List Scope) : Option App :=
  match s.pendingEffects with
  | effect :: effects =>
    apply { s with pendingEffects := effects, log := s.log ++ [.began effect] } scopes effect
  | [] => some (s.goTo scopes .clear)

/-- What the closure that `retain` is given does with a callback. -/
inductive Answer
  /-- It returns `true` at once. -/
  | keep
  /-- It returns `false` at once. -/
  | remove
  /-- It calls the code of the user, in this state. -/
  | call (s : App)

/-- The code that is called gets a strong handle, unless there is none. -/
def withHandle : Option App → Answer
  | some s => .call s
  | none => .remove

/-- The closure that is given to `retain`. -/
def answer (s : App) (callback : Callback) : Effect → Answer
  | .notify emitter => withHandle (s.upgradeHandle emitter)
  | .emit emitter eventType _ =>
    if callback.eventType = some eventType then withHandle (s.upgradeHandle emitter) else .keep
  | .entityCreated entity _ => withHandle (s.cloneHandle entity)
  | _ => .call s

/-- The loop of `retain` comes to the next subscriber. -/
def visit (s : App) (scopes : List Scope) (effect : Effect) (pass : Frame Topic Callback)
    (subscriber : ℕ × Callback) (rest : Subscribers Callback) : App :=
  let kept := s.goTo scopes
    (.retain effect { pass with kept := pass.kept ++ [subscriber], rest := rest })
  let removed := s.goTo scopes (.retain effect { pass with rest := rest })
  match s.subscribers.turn subscriber.1 with
  | .keep => kept
  | .remove => removed
  | .call =>
    match s.answer subscriber.2 effect with
    | .keep => kept
    | .remove => removed
    | .call s =>
      goTo { s with log := s.log ++ [.called (.subscriber pass.emitter subscriber.1 effect)] }
        scopes (.retain effect { pass with current := some subscriber, rest := rest })

/-- `retain` ends. -/
def endRetain (s : App) (scopes : List Scope) (effect : Effect) (pass : Frame Topic Callback) :
    Option App :=
  endEffect { s with subscribers := s.subscribers.restore pass.emitter pass.kept } scopes effect

/-- A part of the arena is cleared, or `flush_effects` returns. -/
def clear (s : App) (scopes : List Scope) : Option App :=
  match s.eventArena with
  | [] => some (s.flushed scopes)
  | [] :: events => some { s with eventArena := events }
  | (entity :: handles) :: events =>
    dropHandle { s with eventArena := handles :: events } entity

/-- `flush_effects` goes on. -/
def advance (s : App) (scopes : List Scope) : Phase → Option App
  | .takeDropped => s.takeDropped scopes
  | .release [] => some (s.goTo scopes .takeDropped)
  | .release (entity :: dropped) => some (s.release scopes entity dropped)
  | .releaseCallbacks entity none callbacks dropped =>
    some (s.nextCallback scopes entity callbacks dropped)
  | .popFront => s.popFront scopes
  | .retain effect ⟨emitter, kept, none, subscriber :: rest⟩ =>
    some (s.visit scopes effect ⟨emitter, kept, none, subscriber :: rest⟩ subscriber rest)
  | .retain effect ⟨emitter, kept, none, []⟩ => s.endRetain scopes effect ⟨emitter, kept, none, []⟩
  | .clear => s.clear scopes
  | _ => none

/-- The code that `flush_effects` has called returns. -/
def ret (s : App) (scopes : List Scope) (keep : Bool) : Phase → Option App
  | .releaseCallbacks entity (some id) callbacks dropped =>
    some (goTo { s with log := s.log ++ [.returned (.release entity id)] } scopes
      (.releaseCallbacks entity none callbacks dropped))
  | .retain effect ⟨emitter, kept, some (id, callback), rest⟩ =>
    let keep := (callback.returnsTrue || keep) && !s.subscribers.dropped id
    some (goTo { s with log := s.log ++ [.returned (.subscriber emitter id effect)] } scopes
      (.retain effect ⟨emitter, if keep then kept ++ [(id, callback)] else kept, none, rest⟩))
  | .deferred callback =>
    endEffect { s with log := s.log ++ [.returned (.deferred callback)] } scopes
      (.defer (.user callback))
  | _ => none

/-! ### The shutdown -/

/-- `shutdown` is called: the quit observers are removed. -/
def shutdown (s : App) : App :=
  let (subscribers, callbacks) := s.subscribers.remove .quitObservers
  { s with subscribers := subscribers, scopes := .shutdown (.observers none callbacks) :: s.scopes }

/-- The next quit observer is called, or all effects are flushed, there being no windows. -/
def nextQuit (s : App) (scopes : List Scope) (callbacks : Subscribers Callback) : App :=
  match s.subscribers.nextCallback callbacks with
  | some (subscriber, rest) =>
    { s with
        scopes := .shutdown (.observers (some subscriber.1) rest) :: scopes
        log := s.log ++ [.called (.quit subscriber.1)] }
  | none => s.goTo (.shutdown .flush :: scopes) .takeDropped

/-- A quit observer returns. -/
def retQuit (s : App) (scopes : List Scope) (id : ℕ) (callbacks : Subscribers Callback) : App :=
  { s with
      scopes := .shutdown (.observers none callbacks) :: scopes
      log := s.log ++ [.returned (.quit id)] }

/-! ### Steps -/

/-- Code has the `App`: it was called in the innermost scope, or it runs outside of all of them, as
`new_app` does and what `Application::run` calls.  An update may begin there. -/
def calls (s : App) : Bool :=
  match s.scopes with
  | [] => true
  | .borrow _ :: _ => false
  | .flush phase :: _ => phase.running.isSome
  | .shutdown stage :: _ => stage.running.isSome
  | _ :: _ => true

/-- Code of the user or a destructor may run: everywhere but behind the last `take_dropped`
and in front of `pop_front`. -/
def runs (s : App) : Bool :=
  match s.scopes with
  | .flush .popFront :: _ => false
  | _ => true

/-- What code does that has the `App`. -/
def call (s : App) (s' : App) : Option App :=
  if s.calls then some s' else none

/-- One step, if it is possible. -/
def step (s : App) : Op → Option App
  | .update => if s.calls then some (s.startUpdate .update) else none
  | .new entity tid =>
    if s.calls ∧ entity ∉ s.entities.allocated then
      cloneHandle { s with entities := s.entities.reserve entity } entity |>.map fun s =>
        s.startUpdate (.new entity tid)
    else none
  | .insertEntity entity =>
    if s.calls ∧ 0 < s.reservations entity then some (s.startUpdate (.insertEntity entity))
    else none
  | .updateEntity entity =>
    if s.calls ∧ entity ∈ s.entities.handles then
      (s.lease entity).map fun s => s.startUpdate (.updateEntity entity)
    else none
  | .asMut entity =>
    if s.calls ∧ entity ∈ s.entities.handles then
      (s.lease entity).map fun s => s.startUpdate (.borrow entity)
    else none
  | .finish =>
    match s.scopes with
    | scope :: scopes => (s.leave scope).map fun s => s.finishUpdate scopes
    | [] => none
  | .reserveEntity entity =>
    if s.calls ∧ entity ∉ s.entities.allocated then
      some { s with entities := s.entities.reserve entity }
    else none
  | .dropReservation entity =>
    if s.runs ∧ 0 < s.reservations entity then s.dropSlot entity else none
  | .clone entity =>
    if s.runs ∧ entity ∈ s.entities.handles then s.cloneHandle entity else none
  | .upgrade entity => if s.runs then s.upgradeHandle entity else none
  | .drop entity =>
    if s.runs ∧ s.reserved entity < s.entities.handles.count entity then s.dropHandle entity
    else none
  | .notify entity => s.call (s.notify entity)
  | .emit entity eventType handles =>
    if ∀ id ∈ handles, s.reserved id + handles.count id ≤ s.entities.handles.count id then
      s.call (s.emit entity eventType handles)
    else none
  | .refreshWindows => s.call (s.pushBack .refreshWindows)
  | .notifyGlobal globalType => s.call (s.pushEffect (.notifyGlobalObservers globalType))
  | .defer callback => s.call (s.defer (.user callback))
  | .observe entity =>
    if entity ∈ s.entities.handles then
      s.call (s.registerDeferred (.observers entity) ⟨none, true⟩)
    else none
  | .observeInternal entity =>
    if entity ∈ s.entities.handles then
      s.call (s.registerDeferred (.observers entity) ⟨none, false⟩)
    else none
  | .subscribe entity eventType =>
    if entity ∈ s.entities.handles then
      s.call (s.registerDeferred (.eventListeners entity) ⟨some eventType, true⟩)
    else none
  | .subscribeInternal entity eventType =>
    if entity ∈ s.entities.handles then
      s.call (s.registerDeferred (.eventListeners entity) ⟨some eventType, false⟩)
    else none
  | .observeGlobal globalType =>
    s.call (s.registerDeferred (.globalObservers globalType) ⟨none, true⟩)
  | .observeNew tid => s.call (s.registerActive (.newEntityObservers tid) ⟨none, true⟩)
  | .observeRelease entity =>
    if entity ∈ s.entities.handles then
      s.call (s.registerActive (.releaseListeners entity) ⟨none, true⟩)
    else none
  | .onAppQuit => s.call (s.registerActive .quitObservers ⟨none, true⟩)
  | .unsubscribe subscription =>
    if s.runs ∧ subscription ∈ s.held then some (s.unsubscribe subscription) else none
  | .shutdown => if s.calls then some s.shutdown else none
  | .ret keep =>
    match s.scopes with
    | .flush phase :: scopes => s.ret scopes keep phase
    | .shutdown (.observers (some id) callbacks) :: scopes => some (s.retQuit scopes id callbacks)
    | _ => none
  | .advance =>
    match s.scopes with
    | .flush phase :: scopes => s.advance scopes phase
    | .shutdown (.observers none callbacks) :: scopes => some (s.nextQuit scopes callbacks)
    | _ => none

end App

end Zui.Gpui.Effects
