/-
The entity map and its reference counts.

A step is one atomic operation of a thread on the shared counts, or one section under
the write lock.  Between its steps a thread holds a lock of the counts: a drop that
found the last handle keeps the upgradable lock until it has pushed the id, and a weak
upgrade keeps a read lock while it tries to exchange the count.

Design notes:

* `SlotMap::insert` returns a key that it never returned before;
* a count is a natural number, for every handle that it counts takes up memory;
* a thread is what it has left to do: nothing depends on which thread it is;
* the strong handles are represented by their ids, with one entry for each of them.  The
  handle inside of a `Slot` is among them.
-/
import Mathlib

namespace Zui.Gpui

/-- The panics of the entity map. -/
inductive EntityPanic
  /-- An `expect` or an assertion fails with the text. -/
  | failed (message : String)
  /-- `unwrap` of a `None`. -/
  | unwrapNone
  /-- `double_lease_panic`. -/
  | doubleLease (operation : String)
  deriving DecidableEq, Repr

/-- What a thread is in the middle of. -/
inductive InFlight (EntityId : Type)
  /-- It has dropped the last handle, and will push the id. -/
  | releasing (id : EntityId)
  /-- It has loaded the count in `atomic_incr_if_not_zero`, and will exchange it. -/
  | upgrading (id : EntityId) (loaded : ℕ)
  deriving DecidableEq, Repr

namespace InFlight

/-- The thread holds the upgradable lock, not a read lock. -/
def isReleasing {EntityId : Type} : InFlight EntityId → Bool
  | releasing _ => true
  | upgrading _ _ => false

end InFlight

/-- `EntityMap` with `EntityRefCounts`, and the handles, slots, leases and threads that
are around. -/
structure EntityMap (EntityId Value : Type) where
  counts : EntityId → Option ℕ
  droppedEntityIds : List EntityId
  entities : EntityId → Option Value
  accessedEntities : EntityId → Bool
  /-- The keys that the slot map has returned. -/
  allocated : List EntityId
  handles : List EntityId
  slots : List EntityId
  leases : List (EntityId × Value)
  inFlight : List (InFlight EntityId)
  /-- The entities that were inserted, and those that `take_dropped` has returned. -/
  inserted : List EntityId
  returned : List (EntityId × Value)

/-- What a thread finds when it exchanges a count. -/
inductive Attempt
  | upgraded
  | failed
  | retry (loaded : ℕ)
  deriving DecidableEq, Repr

/-- The loop of `atomic_incr_if_not_zero` from a count that was read. -/
def loadedCount (loaded : ℕ) : Attempt :=
  if loaded = 0 then .failed else .retry loaded

/-- `compare_exchange_weak`, which may fail without a reason. -/
def compareExchangeWeak (count loaded : ℕ) (spurious : Bool) : Attempt :=
  if count = loaded ∧ spurious = false then .upgraded else loadedCount count

/-- The steps. -/
inductive EntityOp (EntityId Value : Type)
  /-- `reserve`, with the key that the slot map returns. -/
  | reserve (id : EntityId)
  | insert (id : EntityId) (entity : Value)
  | clone (id : EntityId)
  | drop (id : EntityId)
  /-- A `Slot` is dropped. -/
  | dropSlot (id : EntityId)
  /-- A thread gets the write lock, and pushes the id of the handle that it dropped. -/
  | release (thread : ℕ)
  /-- `upgrade` of a weak handle, up to the load. -/
  | upgrade (id : EntityId)
  /-- A thread tries to exchange the count that it has loaded. -/
  | exchange (thread : ℕ) (spurious : Bool)
  | lease (id : EntityId)
  | endLease (id : EntityId) (entity : Value)
  | takeDropped

namespace EntityMap

variable {EntityId Value : Type} [DecidableEq EntityId]

/-- `EntityMap::new`. -/
def new : EntityMap EntityId Value where
  counts := fun _ => none
  droppedEntityIds := []
  entities := fun _ => none
  accessedEntities := fun _ => false
  allocated := []
  handles := []
  slots := []
  leases := []
  inFlight := []
  inserted := []
  returned := []

/-- `reserve`. -/
def reserve (self : EntityMap EntityId Value) (id : EntityId) : EntityMap EntityId Value :=
  { self with
      counts := Function.update self.counts id (some 1)
      allocated := id :: self.allocated
      handles := id :: self.handles
      slots := id :: self.slots }

/-- `insert`. -/
def insert (self : EntityMap EntityId Value) (id : EntityId) (entity : Value) :
    EntityMap EntityId Value :=
  { self with
      accessedEntities := Function.update self.accessedEntities id true
      entities := Function.update self.entities id (some entity)
      slots := self.slots.erase id
      inserted := id :: self.inserted }

/-- `clone` of a strong handle. -/
def clone (self : EntityMap EntityId Value) (id : EntityId) :
    Except EntityPanic (EntityMap EntityId Value) :=
  match self.counts id with
  | none => .error (.failed "detected over-release of a entity")
  | some prevCount =>
    if prevCount = 0 then .error (.failed "Detected over-release of a entity.")
    else .ok
      { self with
          counts := Function.update self.counts id (some (prevCount + 1))
          handles := id :: self.handles }

/-- `drop` of a strong handle, up to the decrement. -/
def drop (self : EntityMap EntityId Value) (id : EntityId) :
    Except EntityPanic (EntityMap EntityId Value) :=
  match self.counts id with
  | none => .error (.failed "detected over-release of a handle.")
  | some prevCount =>
    if prevCount = 0 then .error (.failed "Detected over-release of a entity.")
    else .ok
      { self with
          counts := Function.update self.counts id (some (prevCount - 1))
          handles := self.handles.erase id
          inFlight := if prevCount = 1 then self.inFlight ++ [.releasing id] else self.inFlight }

/-- `drop` of the last handle, under the write lock. -/
def release (self : EntityMap EntityId Value) (thread : ℕ) (id : EntityId) :
    EntityMap EntityId Value :=
  { self with
      droppedEntityIds := self.droppedEntityIds ++ [id]
      inFlight := self.inFlight.eraseIdx thread }

/-- What an attempt to upgrade leaves: a new handle, nothing, or the thread with the
count that it has read. -/
def attempted (self : EntityMap EntityId Value) (id : EntityId) :
    Attempt → EntityMap EntityId Value
  | .upgraded =>
    { self with
        counts := Function.update self.counts id ((self.counts id).map (· + 1))
        handles := id :: self.handles }
  | .failed => self
  | .retry loaded => { self with inFlight := self.inFlight ++ [.upgrading id loaded] }

/-- `upgrade` of a weak handle, up to the load. -/
def upgrade (self : EntityMap EntityId Value) (id : EntityId) : EntityMap EntityId Value :=
  match self.counts id with
  | none => self
  | some count => self.attempted id (loadedCount count)

/-- The exchange of a count. -/
def exchange (self : EntityMap EntityId Value) (thread : ℕ) (id : EntityId)
    (count loaded : ℕ) (spurious : Bool) : EntityMap EntityId Value :=
  attempted { self with inFlight := self.inFlight.eraseIdx thread } id
    (compareExchangeWeak count loaded spurious)

/-- `lease`. -/
def lease (self : EntityMap EntityId Value) (id : EntityId) :
    Except EntityPanic (EntityMap EntityId Value) :=
  match self.entities id with
  | none => .error (.doubleLease "update")
  | some entity => .ok
    { self with
        accessedEntities := Function.update self.accessedEntities id true
        entities := Function.update self.entities id none
        leases := (id, entity) :: self.leases }

/-- `end_lease`, of an entity that was changed while it was leased. -/
def endLease (self : EntityMap EntityId Value) (lease : EntityId × Value) (entity : Value) :
    EntityMap EntityId Value :=
  { self with
      entities := Function.update self.entities lease.1 (some entity)
      leases := self.leases.eraseP fun other => other.1 = lease.1 }

/-- The body of `filter_map` in `take_dropped`. -/
def takeOne (self : EntityMap EntityId Value) (entityId : EntityId) :
    Except EntityPanic (EntityMap EntityId Value) :=
  match self.counts entityId with
  | none => .error .unwrapNone
  | some count =>
    if count ≠ 0 then .error (.failed "dropped an entity that was referenced")
    else .ok
      { self with
          counts := Function.update self.counts entityId none
          accessedEntities := Function.update self.accessedEntities entityId false
          entities := Function.update self.entities entityId none
          returned := self.returned ++
            ((self.entities entityId).map fun entity => (entityId, entity)).toList }

/-- `take_dropped`, which returns what it adds to `returned`. -/
def takeDropped (self : EntityMap EntityId Value) :
    Except EntityPanic (EntityMap EntityId Value) :=
  self.droppedEntityIds.foldlM takeOne { self with droppedEntityIds := [] }

/-- One step: `none` when it is not possible, because there is no such handle, slot,
lease or thread, or another thread holds a lock. -/
def step (self : EntityMap EntityId Value) :
    EntityOp EntityId Value → Option (Except EntityPanic (EntityMap EntityId Value))
  | .reserve id =>
    if self.inFlight = [] ∧ id ∉ self.allocated then some (.ok (self.reserve id)) else none
  | .insert id entity => if id ∈ self.slots then some (.ok (self.insert id entity)) else none
  | .clone id => if id ∈ self.handles then some (self.clone id) else none
  | .drop id =>
    if self.slots.count id < self.handles.count id ∧ ∀ t ∈ self.inFlight, ¬ t.isReleasing then
      some (self.drop id)
    else none
  | .dropSlot id =>
    if id ∈ self.slots ∧ ∀ t ∈ self.inFlight, ¬ t.isReleasing then
      some (drop { self with slots := self.slots.erase id } id)
    else none
  | .release thread =>
    match self.inFlight[thread]? with
    | some (.releasing id) =>
      if ∀ t ∈ self.inFlight, t.isReleasing then some (.ok (self.release thread id)) else none
    | _ => none
  | .upgrade id => some (.ok (self.upgrade id))
  | .exchange thread spurious =>
    match self.inFlight[thread]? with
    | some (.upgrading id loaded) =>
      (self.counts id).map fun count => .ok (self.exchange thread id count loaded spurious)
    | _ => none
  | .lease id => if id ∈ self.handles then some (self.lease id) else none
  | .endLease id entity =>
    (self.leases.find? fun lease => lease.1 = id).map fun lease =>
      .ok (self.endLease lease entity)
  | .takeDropped => if self.inFlight = [] then some self.takeDropped else none

/-- `drop` of a strong handle, up to its end. -/
def dropNow (self : EntityMap EntityId Value) (id : EntityId) :
    Except EntityPanic (EntityMap EntityId Value) := do
  let self ← self.drop id
  return if self.inFlight = [] then self else self.release 0 id

/-- The map with one handle more. -/
def gained (s : EntityMap EntityId Value) (id : EntityId) : EntityMap EntityId Value :=
  s.attempted id .upgraded

end EntityMap

end Zui.Gpui
