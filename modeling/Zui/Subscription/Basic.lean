/-
Sets of subscribers.

For each emitter a `SubscriberSet` has the callbacks that are subscribed to it, in the
order of their ids.  The calls are those of the code; a call of `retain` is in two
parts, `take` in front of its loop and `restore` behind it, because the callbacks that
the loop calls come back to the set while the subscribers are moved out.

Design notes:

* a `BTreeMap` of the subscribers of an emitter is the sorted list of its entries;
* the cells `active` and `dropped`, which a subscriber shares with its handles, are
  functions of its id.
-/
import Zui.Library.SortedMap

namespace Zui.Gpui

/-- The subscribers of an emitter, `BTreeMap<usize, Subscriber<Callback>>`. -/
abbrev Subscribers (Callback : Type) : Type := List (ℕ × Callback)

/-- The ids of the subscribers. -/
abbrev Subscribers.ids {Callback : Type} (subscribers : Subscribers Callback) : List ℕ :=
  subscribers.map Prod.fst

/-- What a `Subscription` unsubscribes when it is dropped. -/
structure Subscription (EmitterKey : Type) where
  emitterKey : EmitterKey
  subscriberId : ℕ
  deriving DecidableEq, Repr

/-- `SubscriberSetState`, with the cells of its subscribers. -/
structure SubscriberSet (EmitterKey Callback : Type) where
  subscribers : EmitterKey → Option (Option (Subscribers Callback))
  nextSubscriberId : ℕ
  active : ℕ → Bool
  dropped : ℕ → Bool

namespace SubscriberSet

variable {EmitterKey Callback : Type} [DecidableEq EmitterKey]

/-- `SubscriberSet::new`. -/
def new : SubscriberSet EmitterKey Callback where
  subscribers := fun _ => none
  nextSubscriberId := 0
  active := fun _ => false
  dropped := fun _ => false

/-- Puts a value under an emitter of `subscribers`, or takes it out. -/
def setSubscribers (self : SubscriberSet EmitterKey Callback) (emitterKey : EmitterKey)
    (value : Option (Option (Subscribers Callback))) : SubscriberSet EmitterKey Callback :=
  { self with subscribers := Function.update self.subscribers emitterKey value }

/-- An emitter without subscribers is not there. -/
def occupied (subscribers : Subscribers Callback) : Option (Option (Subscribers Callback)) :=
  if subscribers.isEmpty then none else some (some subscribers)

/-- The subscribers of an emitter that are in the set, not moved out. -/
def present (self : SubscriberSet EmitterKey Callback) (emitterKey : EmitterKey) :
    Subscribers Callback :=
  ((self.subscribers emitterKey).getD none).getD []

/-- `insert`: the set and the subscription. -/
def insert (self : SubscriberSet EmitterKey Callback) (emitterKey : EmitterKey)
    (callback : Callback) : SubscriberSet EmitterKey Callback × Subscription EmitterKey :=
  let subscriberId := self.nextSubscriberId
  let subscribers := insertEntry (subscriberId, callback) (self.present emitterKey)
  ({ self.setSubscribers emitterKey (some (some subscribers)) with
      nextSubscriberId := subscriberId + 1
      active := Function.update self.active subscriberId false
      dropped := Function.update self.dropped subscriberId false },
    ⟨emitterKey, subscriberId⟩)

/-- The closure that `insert` returns, which activates the subscriber. -/
def activate (self : SubscriberSet EmitterKey Callback) (subscriberId : ℕ) :
    SubscriberSet EmitterKey Callback :=
  { self with active := Function.update self.active subscriberId true }

/-- The closure that a dropped subscription runs. -/
def unsubscribe (self : SubscriberSet EmitterKey Callback)
    (subscription : Subscription EmitterKey) : SubscriberSet EmitterKey Callback :=
  let self := { self with dropped := Function.update self.dropped subscription.subscriberId true }
  match self.subscribers subscription.emitterKey with
  | some (some subscribers) =>
    self.setSubscribers subscription.emitterKey
      (occupied (subscribers.filter fun entry => entry.1 ≠ subscription.subscriberId))
  | _ => self

/-- `remove`: the set, and the subscribers that the returned iterator goes through. -/
def remove (self : SubscriberSet EmitterKey Callback) (emitter : EmitterKey) :
    SubscriberSet EmitterKey Callback × Subscribers Callback :=
  (self.setSubscribers emitter none, self.present emitter)

/-- The iterator that `remove` returns: the next callback, of an active subscriber, and
what is left to go through. -/
def nextCallback (self : SubscriberSet EmitterKey Callback) :
    Subscribers Callback → Option ((ℕ × Callback) × Subscribers Callback)
  | [] => none
  | subscriber :: rest =>
    if self.active subscriber.1 then some (subscriber, rest) else self.nextCallback rest

/-- `retain` in front of its loop: the subscribers of the emitter are moved out. -/
def take (self : SubscriberSet EmitterKey Callback) (emitter : EmitterKey) :
    Option (SubscriberSet EmitterKey Callback × Subscribers Callback) :=
  match self.subscribers emitter with
  | some (some subscribers) => some (self.setSubscribers emitter (some none), subscribers)
  | _ => none

/-- What the loop of `retain` does with a subscriber. -/
inductive Turn
  | keep
  | remove
  | call
  deriving DecidableEq, Repr

/-- The body of the loop in front of the call. -/
def turn (self : SubscriberSet EmitterKey Callback) (subscriberId : ℕ) : Turn :=
  if !self.active subscriberId then .keep
  else if self.dropped subscriberId then .remove
  else .call

omit [DecidableEq EmitterKey] in
theorem turn_eq_keep {self : SubscriberSet EmitterKey Callback} {i : ℕ} :
    self.turn i = .keep ↔ self.active i = false := by
  rw [turn]
  cases self.active i <;> cases self.dropped i <;> decide

omit [DecidableEq EmitterKey] in
theorem turn_eq_remove {self : SubscriberSet EmitterKey Callback} {i : ℕ} :
    self.turn i = .remove ↔ self.active i = true ∧ self.dropped i = true := by
  rw [turn]
  cases self.active i <;> cases self.dropped i <;> decide

omit [DecidableEq EmitterKey] in
theorem turn_eq_call {self : SubscriberSet EmitterKey Callback} {i : ℕ} :
    self.turn i = .call ↔ self.active i = true ∧ self.dropped i = false := by
  rw [turn]
  cases self.active i <;> cases self.dropped i <;> decide

/-- `retain` behind its loop: the subscribers come back to those that were added. -/
def restore (self : SubscriberSet EmitterKey Callback) (emitter : EmitterKey)
    (subscribers : Subscribers Callback) : SubscriberSet EmitterKey Callback :=
  self.setSubscribers emitter (occupied (extendEntries subscribers (self.present emitter)))

/-! ### What the calls leave present -/

variable {self : SubscriberSet EmitterKey Callback} {k j : EmitterKey} {i : ℕ}

theorem present_setSubscribers {value : Option (Option (Subscribers Callback))} :
    (self.setSubscribers k value).present j =
      if j = k then (value.getD none).getD [] else self.present j := by
  show ((Function.update self.subscribers k value j).getD none).getD [] = _
  rw [Function.update_apply]
  by_cases hj : j = k
  · rw [if_pos hj, if_pos hj]
  · rw [if_neg hj, if_neg hj]
    rfl

theorem occupied_getD {subscribers : Subscribers Callback} :
    ((occupied subscribers).getD none).getD [] = subscribers := by
  rw [occupied]
  by_cases hempty : subscribers.isEmpty = true
  · rw [if_pos hempty]
    exact (List.isEmpty_iff.mp hempty).symm
  · rw [if_neg hempty]
    rfl

theorem ids_insert {c : Callback} :
    i ∈ ((self.insert k c).1.present j).ids ↔
      (j = k ∧ i = self.nextSubscriberId) ∨ i ∈ (self.present j).ids := by
  show i ∈ (((self.setSubscribers k _).present j).ids) ↔ _
  rw [present_setSubscribers]
  by_cases hj : j = k
  · subst hj
    simp [Subscribers.ids, mem_keys_insertEntry]
  · simp [hj]

theorem present_unsubscribe {subscription : Subscription EmitterKey} :
    (self.unsubscribe subscription).present j =
      if j = subscription.emitterKey then
        (self.present j).filter fun entry => entry.1 ≠ subscription.subscriberId
      else self.present j := by
  have hpresent : ∀ dropped, present { self with dropped := dropped } j = self.present j :=
    fun _ => rfl
  rw [unsubscribe]
  split
  case h_1 subscribers hsome =>
    have hk : self.present subscription.emitterKey = subscribers := by
      rw [present, show self.subscribers _ = _ from hsome]
      rfl
    rw [present_setSubscribers, occupied_getD, hpresent]
    by_cases hj : j = subscription.emitterKey
    · rw [if_pos hj, if_pos hj, hj, hk]
    · rw [if_neg hj, if_neg hj]
  case h_2 hnone =>
    -- Nothing is there, or what was there is moved out.
    rw [hpresent]
    by_cases hj : j = subscription.emitterKey
    · have hnil : self.present j = [] := by
        subst hj
        rw [present]
        cases hsub : self.subscribers subscription.emitterKey with
        | none => rfl
        | some moved =>
          cases moved with
          | none => rfl
          | some subscribers => exact absurd hsub (hnone subscribers)
      rw [hnil, List.filter_nil, ite_self]
    · rw [if_neg hj]

theorem nextSubscriberId_unsubscribe {subscription : Subscription EmitterKey} :
    (self.unsubscribe subscription).nextSubscriberId = self.nextSubscriberId := by
  rw [unsubscribe]
  split <;> rfl

theorem active_unsubscribe {subscription : Subscription EmitterKey} :
    (self.unsubscribe subscription).active = self.active := by
  rw [unsubscribe]
  split <;> rfl

theorem dropped_unsubscribe {subscription : Subscription EmitterKey} :
    (self.unsubscribe subscription).dropped i =
      (decide (i = subscription.subscriberId) || self.dropped i) := by
  have hdropped : (self.unsubscribe subscription).dropped =
      Function.update self.dropped subscription.subscriberId true := by
    rw [unsubscribe]
    split <;> rfl
  rw [hdropped, Function.update_apply]
  by_cases hi : i = subscription.subscriberId <;> simp [hi]

theorem ids_unsubscribe {subscription : Subscription EmitterKey} :
    i ∈ ((self.unsubscribe subscription).present j).ids ↔
      i ∈ (self.present j).ids ∧ ¬ (j = subscription.emitterKey ∧
        i = subscription.subscriberId) := by
  rw [present_unsubscribe]
  by_cases hj : j = subscription.emitterKey
  · rw [if_pos hj]
    simp only [Subscribers.ids, List.mem_map, List.mem_filter, decide_eq_true_eq, hj, true_and]
    constructor
    · rintro ⟨entry, ⟨hmem, hne⟩, rfl⟩
      exact ⟨⟨entry, hmem, rfl⟩, hne⟩
    · rintro ⟨⟨entry, hmem, rfl⟩, hne⟩
      exact ⟨entry, ⟨hmem, hne⟩, rfl⟩
  · simp [hj]

theorem present_remove : (self.remove k).1.present j = if j = k then [] else self.present j :=
  present_setSubscribers

theorem take_eq_some {moved : SubscriberSet EmitterKey Callback}
    {subscribers : Subscribers Callback}
    (h : self.take k = some (moved, subscribers)) :
    subscribers = self.present k ∧ moved = self.setSubscribers k (some none) := by
  rw [take] at h
  split at h
  case h_1 subscribers' hsome =>
    obtain ⟨rfl, rfl⟩ := Prod.mk.inj (Option.some.inj h)
    refine ⟨?_, rfl⟩
    rw [present, hsome]
    rfl
  case h_2 => cases h

theorem present_of_take_eq_none (h : self.take k = none) : self.present k = [] := by
  rw [present]
  cases hsub : self.subscribers k with
  | none => rfl
  | some moved =>
    cases moved with
    | none => rfl
    | some subscribers => simp [take, hsub] at h

theorem present_restore {subscribers : Subscribers Callback} :
    (self.restore k subscribers).present j =
      if j = k then extendEntries subscribers (self.present k) else self.present j := by
  rw [restore, present_setSubscribers, occupied_getD]

end SubscriberSet

end Zui.Gpui
