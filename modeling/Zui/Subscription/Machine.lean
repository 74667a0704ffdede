/-
Runs of a set of subscribers whose callbacks come back to it.

A step is one call on the set or on a handle, one turn of the loop of a `retain`, or the
return of a callback.  A `retain` in progress is a frame of a stack: while a callback
runs, everything may be called, also `retain` on any emitter; between two callbacks the
loop of the topmost frame goes on.  The log says what has happened, for the statements.

* `Stepped` — the cases of a step;
* `Reachable` — the states that are reached when each step is one that is allowed.
-/
import Zui.Subscription.Basic

namespace Zui.Gpui

/-- A call of `retain` in progress. -/
structure Frame (EmitterKey Callback : Type) where
  emitter : EmitterKey
  /-- The subscribers that the loop has kept. -/
  kept : Subscribers Callback
  /-- The subscriber whose callback is running. -/
  current : Option (ℕ × Callback)
  /-- The subscribers whose turn is still to come. -/
  rest : Subscribers Callback

/-- What happens to subscribers. -/
inductive Event (EmitterKey : Type)
  | inserted (emitter : EmitterKey) (id : ℕ)
  | dropped (id : ℕ)
  /-- A loop of `retain` comes to the subscriber. -/
  | turn (emitter : EmitterKey) (id : ℕ)
  | called (emitter : EmitterKey) (id : ℕ)
  | returned (emitter : EmitterKey) (id : ℕ) (keep : Bool)
  /-- A call of `remove` takes the subscriber out of the set. -/
  | removed (emitter : EmitterKey) (id : ℕ)
  | handedOut (id : ℕ)
  deriving DecidableEq, Repr

/-- A set with the handles that are around and the calls that are in progress. -/
structure SetState (EmitterKey Callback : Type) where
  set : SubscriberSet EmitterKey Callback
  /-- The subscriptions that were neither dropped nor detached. -/
  held : List (Subscription EmitterKey)
  /-- The subscribers whose activation was not called. -/
  inert : List ℕ
  /-- The iterators that `remove` returned. -/
  iterators : List (Subscribers Callback)
  /-- The calls of `retain` in progress, the innermost first. -/
  frames : List (Frame EmitterKey Callback)
  log : List (Event EmitterKey)

/-- The steps. -/
inductive Op (EmitterKey Callback : Type)
  | insert (emitter : EmitterKey) (callback : Callback)
  | activate (id : ℕ)
  | drop (subscription : Subscription EmitterKey)
  | detach (subscription : Subscription EmitterKey)
  | remove (emitter : EmitterKey)
  /-- `next` of an iterator. -/
  | next (iterator : ℕ)
  | retain (emitter : EmitterKey)
  /-- The loop of the innermost `retain` goes on. -/
  | turn
  /-- The running callback returns, after it has changed itself. -/
  | finish (keep : Bool) (callback : Callback)

namespace SetState

variable {EmitterKey Callback : Type} [DecidableEq EmitterKey]

/-- The state of a new set. -/
def new : SetState EmitterKey Callback :=
  ⟨SubscriberSet.new, [], [], [], [], []⟩

/-- Calls come from outside of every `retain` or from a callback. -/
def Calls (s : SetState EmitterKey Callback) : Prop :=
  ∀ frame ∈ s.frames.head?, frame.current.isSome

instance (s : SetState EmitterKey Callback) : Decidable s.Calls :=
  inferInstanceAs (Decidable (∀ frame ∈ s.frames.head?, frame.current.isSome))

/-- A call, which needs the control. -/
def call (s s' : SetState EmitterKey Callback) : Option (SetState EmitterKey Callback) :=
  if s.Calls then some s' else none

/-- `insert` keeps the subscription and the activation. -/
def insert (s : SetState EmitterKey Callback) (emitter : EmitterKey) (callback : Callback) :
    SetState EmitterKey Callback :=
  let (set, subscription) := s.set.insert emitter callback
  { s with
      set := set
      held := subscription :: s.held
      inert := subscription.subscriberId :: s.inert
      log := s.log ++ [.inserted emitter subscription.subscriberId] }

/-- A subscription is dropped. -/
def drop (s : SetState EmitterKey Callback) (subscription : Subscription EmitterKey) :
    SetState EmitterKey Callback :=
  { s with
      set := s.set.unsubscribe subscription
      held := s.held.erase subscription
      log := s.log ++ [.dropped subscription.subscriberId] }

/-- `remove` returns an iterator. -/
def remove (s : SetState EmitterKey Callback) (emitter : EmitterKey) :
    SetState EmitterKey Callback :=
  let (set, subscribers) := s.set.remove emitter
  { s with
      set := set
      iterators := s.iterators ++ [subscribers]
      log := s.log ++ subscribers.ids.map (.removed emitter) }

/-- An iterator hands out its next callback, if it has one. -/
def next (s : SetState EmitterKey Callback) (iterator : ℕ) (subscribers : Subscribers Callback) :
    SetState EmitterKey Callback :=
  match s.set.nextCallback subscribers with
  | some (subscriber, rest) =>
    { s with
        iterators := s.iterators.set iterator rest
        log := s.log ++ [.handedOut subscriber.1] }
  | none => { s with iterators := s.iterators.set iterator [] }

/-- `retain` begins, unless it returns at once. -/
def retain (s : SetState EmitterKey Callback) (emitter : EmitterKey) :
    SetState EmitterKey Callback :=
  match s.set.take emitter with
  | some (set, subscribers) =>
    { s with set := set, frames := ⟨emitter, [], none, subscribers⟩ :: s.frames }
  | none => s

/-- The loop comes to the next subscriber. -/
def visit (s : SetState EmitterKey Callback) (frame : Frame EmitterKey Callback)
    (frames : List (Frame EmitterKey Callback)) (subscriber : ℕ × Callback)
    (rest : Subscribers Callback) : SetState EmitterKey Callback :=
  match s.set.turn subscriber.1 with
  | .keep =>
    { s with
        frames := { frame with kept := frame.kept ++ [subscriber], rest := rest } :: frames
        log := s.log ++ [.turn frame.emitter subscriber.1] }
  | .remove =>
    { s with
        frames := { frame with rest := rest } :: frames
        log := s.log ++ [.turn frame.emitter subscriber.1] }
  | .call =>
    { s with
        frames := { frame with current := some subscriber, rest := rest } :: frames
        log := s.log ++ [.turn frame.emitter subscriber.1, .called frame.emitter subscriber.1] }

/-- `retain` ends. -/
def endRetain (s : SetState EmitterKey Callback) (frame : Frame EmitterKey Callback)
    (frames : List (Frame EmitterKey Callback)) : SetState EmitterKey Callback :=
  { s with set := s.set.restore frame.emitter frame.kept, frames := frames }

/-- The callback of a subscriber returns. -/
def finish (s : SetState EmitterKey Callback) (frame : Frame EmitterKey Callback)
    (frames : List (Frame EmitterKey Callback)) (id : ℕ) (keep : Bool) (callback : Callback) :
    SetState EmitterKey Callback :=
  let kept := if keep && !s.set.dropped id then frame.kept ++ [(id, callback)] else frame.kept
  { s with
      frames := { frame with kept := kept, current := none } :: frames
      log := s.log ++ [.returned frame.emitter id keep] }

/-- One step, if it is possible. -/
def step (s : SetState EmitterKey Callback) :
    Op EmitterKey Callback → Option (SetState EmitterKey Callback)
  | .insert emitter callback => s.call (s.insert emitter callback)
  | .activate id =>
    if id ∈ s.inert then
      s.call { s with set := s.set.activate id, inert := s.inert.erase id }
    else none
  | .drop subscription =>
    if subscription ∈ s.held then s.call (s.drop subscription) else none
  | .detach subscription =>
    if subscription ∈ s.held then s.call { s with held := s.held.erase subscription } else none
  | .remove emitter => s.call (s.remove emitter)
  | .next iterator =>
    match s.iterators[iterator]? with
    | some subscribers => s.call (s.next iterator subscribers)
    | none => none
  | .retain emitter => s.call (s.retain emitter)
  | .turn =>
    match s.frames with
    | frame :: frames =>
      match frame.current, frame.rest with
      | none, subscriber :: rest => some (s.visit frame frames subscriber rest)
      | none, [] => some (s.endRetain frame frames)
      | some _, _ => none
    | [] => none
  | .finish keep callback =>
    match s.frames with
    | frame :: frames =>
      match frame.current with
      | some (id, _) => some (s.finish frame frames id keep callback)
      | none => none
    | [] => none

/-- The states that steps which are allowed lead to. -/
inductive Reachable (allowed : SetState EmitterKey Callback → Op EmitterKey Callback → Prop) :
    SetState EmitterKey Callback → Prop
  | new : Reachable allowed SetState.new
  | step {s s' : SetState EmitterKey Callback} {op : Op EmitterKey Callback}
      (hs : Reachable allowed s) (hop : allowed s op) (hstep : s.step op = some s') :
      Reachable allowed s'

/-- Takes steps one after another, as long as they are allowed. -/
def run (allowed : SetState EmitterKey Callback → Op EmitterKey Callback → Prop)
    [∀ s op, Decidable (allowed s op)] (s : SetState EmitterKey Callback) :
    List (Op EmitterKey Callback) → Option (SetState EmitterKey Callback)
  | [] => some s
  | op :: ops =>
    if allowed s op then
      match s.step op with
      | some s' => s'.run allowed ops
      | none => none
    else none

theorem Reachable.run {allowed : SetState EmitterKey Callback → Op EmitterKey Callback → Prop}
    [∀ s op, Decidable (allowed s op)] {s' : SetState EmitterKey Callback} :
    ∀ {s : SetState EmitterKey Callback} {ops : List (Op EmitterKey Callback)},
      Reachable allowed s → s.run allowed ops = some s' → Reachable allowed s' := by
  intro s ops
  induction ops generalizing s with
  | nil =>
    intro hs hrun
    exact Option.some.inj hrun ▸ hs
  | cons op ops ih =>
    intro hs hrun
    rw [SetState.run] at hrun
    split at hrun
    · split at hrun
      · exact ih (.step hs ‹_› ‹_›) hrun
      · cases hrun
    · cases hrun

/-! ### The cases of a step -/

variable {s s' : SetState EmitterKey Callback} {op : Op EmitterKey Callback}

omit [DecidableEq EmitterKey] in
theorem call_eq_some {t : SetState EmitterKey Callback} (h : s.call t = some s') :
    s.Calls ∧ s' = t := by
  rw [call] at h
  by_cases hcalls : s.Calls
  · rw [if_pos hcalls] at h
    exact ⟨hcalls, (Option.some.inj h).symm⟩
  · rw [if_neg hcalls] at h
    cases h

/-- What a step does. -/
inductive Stepped (s : SetState EmitterKey Callback) :
    Op EmitterKey Callback → SetState EmitterKey Callback → Prop
  | insert {emitter : EmitterKey} {callback : Callback} (hcalls : s.Calls) :
      Stepped s (.insert emitter callback) (s.insert emitter callback)
  | activate {id : ℕ} (hcalls : s.Calls) (hinert : id ∈ s.inert) :
      Stepped s (.activate id) { s with set := s.set.activate id, inert := s.inert.erase id }
  | drop {subscription : Subscription EmitterKey} (hcalls : s.Calls)
      (hheld : subscription ∈ s.held) : Stepped s (.drop subscription) (s.drop subscription)
  | detach {subscription : Subscription EmitterKey} (hcalls : s.Calls)
      (hheld : subscription ∈ s.held) :
      Stepped s (.detach subscription) { s with held := s.held.erase subscription }
  | remove {emitter : EmitterKey} (hcalls : s.Calls) :
      Stepped s (.remove emitter) (s.remove emitter)
  | next {iterator : ℕ} {subscribers : Subscribers Callback} (hcalls : s.Calls)
      (hget : s.iterators[iterator]? = some subscribers) :
      Stepped s (.next iterator) (s.next iterator subscribers)
  | retain {emitter : EmitterKey} (hcalls : s.Calls) :
      Stepped s (.retain emitter) (s.retain emitter)
  | visit {frame : Frame EmitterKey Callback} {frames : List (Frame EmitterKey Callback)}
      {subscriber : ℕ × Callback} {rest : Subscribers Callback}
      (hframes : s.frames = frame :: frames) (hcurrent : frame.current = none)
      (hrest : frame.rest = subscriber :: rest) :
      Stepped s .turn (s.visit frame frames subscriber rest)
  | endRetain {frame : Frame EmitterKey Callback} {frames : List (Frame EmitterKey Callback)}
      (hframes : s.frames = frame :: frames) (hcurrent : frame.current = none)
      (hrest : frame.rest = []) : Stepped s .turn (s.endRetain frame frames)
  | finish {frame : Frame EmitterKey Callback} {frames : List (Frame EmitterKey Callback)}
      {id : ℕ} {old : Callback} {keep : Bool} {callback : Callback}
      (hframes : s.frames = frame :: frames) (hcurrent : frame.current = some (id, old)) :
      Stepped s (.finish keep callback) (s.finish frame frames id keep callback)

theorem step_cases (h : s.step op = some s') : s.Stepped op s' := by
  cases op with
  | insert emitter callback =>
    obtain ⟨hcalls, rfl⟩ := call_eq_some h
    exact .insert hcalls
  | activate id =>
    rw [step] at h
    split at h
    · obtain ⟨hcalls, rfl⟩ := call_eq_some h
      exact .activate hcalls ‹_›
    · cases h
  | drop subscription =>
    rw [step] at h
    split at h
    · obtain ⟨hcalls, rfl⟩ := call_eq_some h
      exact .drop hcalls ‹_›
    · cases h
  | detach subscription =>
    rw [step] at h
    split at h
    · obtain ⟨hcalls, rfl⟩ := call_eq_some h
      exact .detach hcalls ‹_›
    · cases h
  | remove emitter =>
    obtain ⟨hcalls, rfl⟩ := call_eq_some h
    exact .remove hcalls
  | next iterator =>
    rw [step] at h
    split at h
    · obtain ⟨hcalls, rfl⟩ := call_eq_some h
      exact .next hcalls ‹_›
    · cases h
  | retain emitter =>
    obtain ⟨hcalls, rfl⟩ := call_eq_some h
    exact .retain hcalls
  | turn =>
    rw [step] at h
    split at h
    · split at h
      · obtain rfl := Option.some.inj h
        exact .visit ‹_› ‹_› ‹_›
      · obtain rfl := Option.some.inj h
        exact .endRetain ‹_› ‹_› ‹_›
      · cases h
    · cases h
  | finish keep callback =>
    rw [step] at h
    split at h
    · split at h
      · obtain rfl := Option.some.inj h
        exact .finish ‹_› ‹_›
      · cases h
    · cases h

end SetState

end Zui.Gpui
