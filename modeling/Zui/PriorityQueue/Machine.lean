/-
The senders and receivers of a queue with priorities.

A step is what a thread does between two points where another one may come in: it gets the
lock, reads a count, waits on the condition variable (which gives the lock back at once),
wakes a waiting receiver, or changes the queues under the lock.  A call that spins for the
lock takes the same steps as one that blocks.

Design notes:

* a sender is shared by any number of threads, which all call `send` of it, and is dropped
  when none of them does any more; there is no second sender, for a sender has no `Clone`;
* nothing wakes a receiver but `notify_one`, as `parking_lot` promises.

Main definitions:

* `QueueState.step`, `QueueState.Stepped` — a step, and the cases of it;
* `QueueState.Reachable` — the states that allowed steps lead to.
-/
import Zui.PriorityQueue.Basic

namespace Zui.PriorityQueue

/-- Where a thread is in a call of `send`. -/
inductive Sending (T : Type)
  /-- It has found a receiver, and waits for the lock. -/
  | entering (priority : Priority) (item : T)
  | locked (priority : Priority) (item : T)
  /-- It has pushed the element, and will notify. -/
  | pushed
  /-- It has notified, and will give the lock back. -/
  | notified
  | done
  deriving DecidableEq, Repr

/-- Where a receiver is; a call of `pop` blocks, one of `try_pop` does not. -/
inductive Receiving
  | idle
  /-- It waits for the lock. -/
  | entering (block : Bool)
  | locked (block : Bool)
  /-- It has the lock, and has read `sender_count`. -/
  | loaded (block : Bool) (senderCount : ℕ)
  /-- It waits on the condition variable. -/
  | waiting
  /-- It was notified, and waits for the lock. -/
  | notified
  /-- It has the lock again, and is back in front of the loop condition. -/
  | relocked
  | dropped
  deriving DecidableEq, Repr

/-- A thread that has the lock. -/
inductive Thread
  | sender (index : ℕ)
  | receiver (index : ℕ)
  deriving DecidableEq, Repr

/-- What happens to elements, and how the calls return that get none. -/
inductive QueueEvent (T : Type)
  | sent (priority : Priority) (item : T)
  | received (priority : Priority) (item : T)
  /-- `send` returns an error. -/
  | rejected (priority : Priority) (item : T)
  /-- A receiver returns an error. -/
  | disconnected
  | returnedNone
  deriving DecidableEq, Repr

/-- `PriorityQueueState` with the threads that use it. -/
structure QueueState (T : Type) where
  queues : PriorityQueues T
  receiverCount : ℕ
  senderCount : ℕ
  lock : Option Thread
  /-- The calls of `send`. -/
  senders : List (Sending T)
  receivers : List Receiving
  log : List (QueueEvent T)
  deriving DecidableEq

/-- The steps. -/
inductive QueueOp (T : Type)
  /-- A thread calls `send` and reads `receiver_count`. -/
  | send (priority : Priority) (item : T)
  | lockSender (index : ℕ)
  | push (index : ℕ)
  /-- `notify_one`, with the receiver that it wakes. -/
  | notifyOne (index : ℕ) (woken : Option ℕ)
  | unlockSender (index : ℕ)
  | dropSender
  /-- A receiver is called. -/
  | recv (index : ℕ) (block : Bool)
  | lockReceiver (index : ℕ)
  /-- It reads `sender_count`. -/
  | loadSenderCount (index : ℕ)
  /-- It goes on with what it has found, and with what the random numbers are then. -/
  | proceed (index : ℕ) (draws : Draws)
  | cloneReceiver (index : ℕ)
  | dropReceiver (index : ℕ)
  deriving DecidableEq

namespace QueueState

variable {T : Type}

/-- `PriorityQueueReceiver::new`. -/
def new : QueueState T where
  queues := .new
  receiverCount := 1
  senderCount := 1
  lock := none
  senders := []
  receivers := [.idle]
  log := []

/-- A call of `send` goes on to `next`. -/
def setSender (s : QueueState T) (index : ℕ) (next : Sending T) : QueueState T :=
  { s with senders := s.senders.set index next }

/-- A receiver goes on to `next`. -/
def setReceiver (s : QueueState T) (index : ℕ) (next : Receiving) : QueueState T :=
  { s with receivers := s.receivers.set index next }

/-- A receiver gives the lock back, and is in `next` then. -/
def leave (s : QueueState T) (index : ℕ) (next : Receiving) : QueueState T :=
  { s.setReceiver index next with lock := none }

/-- The call of a receiver returns. -/
def finish (s : QueueState T) (index : ℕ) (event : QueueEvent T) : QueueState T :=
  { s.leave index .idle with log := s.log ++ [event] }

/-- The queue that a pop has taken an element from. -/
def poppedFrom (queues left : PriorityQueues T) : Priority :=
  if left.highPriority.length < queues.highPriority.length then .high
  else if left.mediumPriority.length < queues.mediumPriority.length then .medium
  else .low

/-- A receiver that has the lock pops, unless that panics. -/
def pop (s : QueueState T) (index : ℕ) (draws : Draws) : Option (QueueState T) :=
  match s.queues.pop draws with
  | .ok (some item, left) =>
    some (finish { s with queues := left } index (.received (poppedFrom s.queues left) item))
  | .ok (none, left) => some (finish { s with queues := left } index .returnedNone)
  | .error _ => none

/-- What a receiver does that has the lock: `recv` behind the load, or `try_recv`. -/
def proceed (s : QueueState T) (index : ℕ) (draws : Draws) :
    Receiving → Option (QueueState T)
  | .loaded block senderCount =>
    if s.queues.isEmpty && senderCount == 0 then some (s.finish index .disconnected)
    else if s.queues.isEmpty then
      if block then some (s.leave index .waiting) else some (s.finish index .returnedNone)
    else s.pop index draws
  | .relocked => if s.queues.isEmpty then some (s.leave index .waiting) else s.pop index draws
  | _ => none

/-- `notify_one` wakes one of the receivers that wait, if there is one. -/
def wakes (s : QueueState T) : Option ℕ → Bool
  | some woken => s.receivers[woken]? == some .waiting
  | none => s.receivers.all fun receiver => receiver != .waiting

/-- The receivers behind a `notify_one`. -/
def wake (s : QueueState T) : Option ℕ → QueueState T
  | some woken => s.setReceiver woken .notified
  | none => s

/-- A call of `send` takes a step. -/
def stepSender (s : QueueState T) : QueueOp T → Sending T → Option (QueueState T)
  | .lockSender index, .entering priority item =>
    if s.lock = none then
      some { s.setSender index (.locked priority item) with lock := some (.sender index) }
    else none
  | .push index, .locked priority item =>
    match s.queues.push item priority with
    | .ok queues =>
      some { s.setSender index .pushed with
        queues := queues, log := s.log ++ [.sent priority item] }
    | .error _ => none
  | .notifyOne index woken, .pushed =>
    if s.wakes woken then some ((s.wake woken).setSender index .notified) else none
  | .unlockSender index, .notified => some { s.setSender index .done with lock := none }
  | _, _ => none

/-- A receiver takes a step. -/
def stepReceiver (s : QueueState T) : QueueOp T → Receiving → Option (QueueState T)
  | .recv index block, .idle => some (s.setReceiver index (.entering block))
  | .lockReceiver index, .entering block =>
    if s.lock = none then
      some { s.setReceiver index (.locked block) with lock := some (.receiver index) }
    else none
  | .lockReceiver index, .notified =>
    if s.lock = none then
      some { s.setReceiver index .relocked with lock := some (.receiver index) }
    else none
  | .loadSenderCount index, .locked block =>
    some (s.setReceiver index (.loaded block s.senderCount))
  | .proceed index draws, receiving => s.proceed index draws receiving
  | .cloneReceiver _, .idle =>
    some { s with receiverCount := s.receiverCount + 1, receivers := s.receivers ++ [.idle] }
  | .dropReceiver index, .idle =>
    some { s.setReceiver index .dropped with receiverCount := s.receiverCount - 1 }
  | _, _ => none

/-- The receiver that takes the step. -/
def QueueOp.receiver : QueueOp T → Option ℕ
  | .recv index _ => some index
  | .lockReceiver index => some index
  | .loadSenderCount index => some index
  | .proceed index _ => some index
  | .cloneReceiver index => some index
  | .dropReceiver index => some index
  | _ => none

/-- The call of `send` that takes the step. -/
def QueueOp.sender : QueueOp T → Option ℕ
  | .lockSender index => some index
  | .push index => some index
  | .notifyOne index _ => some index
  | .unlockSender index => some index
  | _ => none

/-- One step, if it is possible. -/
def step [DecidableEq T] (s : QueueState T) : QueueOp T → Option (QueueState T)
  | .send priority item =>
    if s.senderCount = 0 then none
    else if s.receiverCount = 0 then
      some { s with log := s.log ++ [.rejected priority item] }
    else some { s with senders := s.senders ++ [.entering priority item] }
  | .dropSender =>
    if s.senderCount ≠ 0 ∧ ∀ sending ∈ s.senders, sending = .done then
      some { s with senderCount := s.senderCount - 1 }
    else none
  | op =>
    match QueueOp.sender op, QueueOp.receiver op with
    | some index, _ => s.senders[index]?.bind (s.stepSender op)
    | _, some index => s.receivers[index]?.bind (s.stepReceiver op)
    | none, none => none

/-- The states that steps which are allowed lead to. -/
inductive Reachable [DecidableEq T] (allowed : QueueState T → QueueOp T → Prop) :
    QueueState T → Prop
  | new : Reachable allowed QueueState.new
  | step {s s' : QueueState T} {op : QueueOp T} (hs : Reachable allowed s) (hop : allowed s op)
      (hstep : s.step op = some s') : Reachable allowed s'

/-- Takes steps one after another, as long as they are allowed. -/
def run [DecidableEq T] (allowed : QueueState T → QueueOp T → Prop)
    [∀ s op, Decidable (allowed s op)] (s : QueueState T) :
    List (QueueOp T) → Option (QueueState T)
  | [] => some s
  | op :: ops =>
    if allowed s op then
      match s.step op with
      | some s' => s'.run allowed ops
      | none => none
    else none

theorem Reachable.run [DecidableEq T] {allowed : QueueState T → QueueOp T → Prop}
    [∀ s op, Decidable (allowed s op)] {s' : QueueState T} :
    ∀ {s : QueueState T} {ops : List (QueueOp T)}, Reachable allowed s →
      s.run allowed ops = some s' → Reachable allowed s' := by
  intro s ops
  induction ops generalizing s with
  | nil =>
    intro hs hrun
    exact Option.some.inj hrun ▸ hs
  | cons op ops ih =>
    intro hs hrun
    rw [QueueState.run] at hrun
    split at hrun
    · split at hrun
      · exact ih (.step hs ‹_› ‹_›) hrun
      · cases hrun
    · cases hrun

/-! ### The cases of a step -/

/-- What a step does. -/
inductive Stepped (s : QueueState T) : QueueOp T → QueueState T → Prop
  | send {priority : Priority} {item : T} (hsender : s.senderCount ≠ 0) :
      Stepped s (.send priority item)
        { s with senders := s.senders ++ [.entering priority item] }
  | reject {priority : Priority} {item : T} (hsender : s.senderCount ≠ 0)
      (hreceiver : s.receiverCount = 0) :
      Stepped s (.send priority item) { s with log := s.log ++ [.rejected priority item] }
  | lockSender {index : ℕ} {next : Sending T} (hlock : s.lock = none) :
      Stepped s (.lockSender index) { s.setSender index next with lock := some (.sender index) }
  | push {index : ℕ} {priority : Priority} {item : T} {queues : PriorityQueues T}
      (hget : s.senders[index]? = some (.locked priority item))
      (hpush : s.queues.push item priority = .ok queues) :
      Stepped s (.push index)
        { s.setSender index .pushed with
          queues := queues, log := s.log ++ [.sent priority item] }
  | notifyOne {index : ℕ} {woken : Option ℕ} (hwakes : s.wakes woken = true) :
      Stepped s (.notifyOne index woken) ((s.wake woken).setSender index .notified)
  | unlockSender {index : ℕ} :
      Stepped s (.unlockSender index) { s.setSender index .done with lock := none }
  | dropSender (hsender : s.senderCount ≠ 0) (hdone : ∀ sending ∈ s.senders, sending = .done) :
      Stepped s .dropSender { s with senderCount := s.senderCount - 1 }
  | recv {index : ℕ} {block : Bool} (hget : s.receivers[index]? = some .idle) :
      Stepped s (.recv index block) (s.setReceiver index (.entering block))
  | lockReceiver {index : ℕ} {receiving next : Receiving} (hlock : s.lock = none)
      (hget : s.receivers[index]? = some receiving) (hwaiting : receiving ≠ .waiting)
      (hnext : next ≠ .waiting) :
      Stepped s (.lockReceiver index)
        { s.setReceiver index next with lock := some (.receiver index) }
  | loadSenderCount {index : ℕ} {block : Bool} (hget : s.receivers[index]? = some (.locked block)) :
      Stepped s (.loadSenderCount index) (s.setReceiver index (.loaded block s.senderCount))
  | disconnected {index : ℕ} {draws : Draws} {block : Bool}
      (hget : s.receivers[index]? = some (.loaded block 0)) (hempty : s.queues.isEmpty = true) :
      Stepped s (.proceed index draws) (s.finish index .disconnected)
  | returnNone {index senderCount : ℕ} {draws : Draws}
      (hget : s.receivers[index]? = some (.loaded false senderCount))
      (hsenders : senderCount ≠ 0) (hempty : s.queues.isEmpty = true) :
      Stepped s (.proceed index draws) (s.finish index .returnedNone)
  | wait {index : ℕ} {draws : Draws} {receiving : Receiving}
      (hget : s.receivers[index]? = some receiving)
      (hreceiving : receiving = .relocked ∨
        ∃ senderCount, senderCount ≠ 0 ∧ receiving = .loaded true senderCount)
      (hempty : s.queues.isEmpty = true) :
      Stepped s (.proceed index draws) (s.leave index .waiting)
  | pop {index : ℕ} {draws : Draws} {receiving : Receiving} {t : QueueState T}
      (hget : s.receivers[index]? = some receiving)
      (hreceiving : receiving = .relocked ∨
        ∃ block senderCount, receiving = .loaded block senderCount)
      (hempty : s.queues.isEmpty = false) (hpop : s.pop index draws = some t) :
      Stepped s (.proceed index draws) t
  | cloneReceiver {index : ℕ} :
      Stepped s (.cloneReceiver index)
        { s with receiverCount := s.receiverCount + 1, receivers := s.receivers ++ [.idle] }
  | dropReceiver {index : ℕ} (hget : s.receivers[index]? = some .idle) :
      Stepped s (.dropReceiver index)
        { s.setReceiver index .dropped with receiverCount := s.receiverCount - 1 }

variable {s s' : QueueState T} {index : ℕ} {draws : Draws}

theorem proceed_cases {receiving : Receiving} (hget : s.receivers[index]? = some receiving)
    (h : s.proceed index draws receiving = some s') : s.Stepped (.proceed index draws) s' := by
  cases receiving with
  | loaded block senderCount =>
    rw [proceed] at h
    by_cases hempty : s.queues.isEmpty = true
    · by_cases hzero : senderCount = 0
      · subst hzero
        rw [if_pos (by simp [hempty])] at h
        exact Option.some.inj h ▸ .disconnected hget hempty
      · rw [if_neg (by simp [hzero]), if_pos hempty] at h
        cases block with
        | true =>
          exact Option.some.inj h ▸ .wait hget (.inr ⟨senderCount, hzero, rfl⟩) hempty
        | false => exact Option.some.inj h ▸ .returnNone hget hzero hempty
    · rw [if_neg (by simp [hempty]), if_neg hempty] at h
      exact .pop hget (.inr ⟨block, senderCount, rfl⟩) (by simpa using hempty) h
  | relocked =>
    rw [proceed] at h
    by_cases hempty : s.queues.isEmpty = true
    · rw [if_pos hempty] at h
      exact Option.some.inj h ▸ .wait hget (.inl rfl) hempty
    · rw [if_neg hempty] at h
      exact .pop hget (.inl rfl) (by simpa using hempty) h
  | _ => cases h

theorem step_cases [DecidableEq T] {op : QueueOp T} (h : s.step op = some s') :
    s.Stepped op s' := by
  cases op with
  | send priority item =>
    obtain ⟨hsender, h⟩ := Option.ite_none_left_eq_some.mp h
    -- a send without receivers gives its item back
    by_cases hreceiver : s.receiverCount = 0
    · rw [if_pos hreceiver] at h
      exact Option.some.inj h ▸ .reject hsender hreceiver
    · rw [if_neg hreceiver] at h
      exact Option.some.inj h ▸ .send hsender
  | lockSender index =>
    obtain ⟨sending, hget, h⟩ := Option.bind_eq_some_iff.mp h
    cases sending with
    | entering priority item =>
      obtain ⟨hlock, h⟩ := Option.ite_none_right_eq_some.mp h
      exact Option.some.inj h ▸ .lockSender hlock
    | _ => cases h
  | push index =>
    obtain ⟨sending, hget, h⟩ := Option.bind_eq_some_iff.mp h
    cases sending with
    -- there is no queue for the priority of real-time audio
    | locked priority item =>
      rw [stepSender] at h
      split at h
      · exact Option.some.inj h ▸ .push hget ‹_›
      · cases h
    | _ => cases h
  | notifyOne index woken =>
    obtain ⟨sending, hget, h⟩ := Option.bind_eq_some_iff.mp h
    cases sending with
    | pushed =>
      obtain ⟨hwakes, h⟩ := Option.ite_none_right_eq_some.mp h
      exact Option.some.inj h ▸ .notifyOne hwakes
    | _ => cases h
  | unlockSender index =>
    obtain ⟨sending, hget, h⟩ := Option.bind_eq_some_iff.mp h
    cases sending with
    | notified => exact Option.some.inj h ▸ .unlockSender
    | _ => cases h
  | dropSender =>
    obtain ⟨⟨hsender, hdone⟩, h⟩ := Option.ite_none_right_eq_some.mp h
    exact Option.some.inj h ▸ .dropSender hsender hdone
  | recv index block =>
    obtain ⟨receiving, hget, h⟩ := Option.bind_eq_some_iff.mp h
    cases receiving with
    | idle => exact Option.some.inj h ▸ .recv hget
    | _ => cases h
  | lockReceiver index =>
    obtain ⟨receiving, hget, h⟩ := Option.bind_eq_some_iff.mp h
    cases receiving with
    | entering block =>
      obtain ⟨hlock, h⟩ := Option.ite_none_right_eq_some.mp h
      exact Option.some.inj h ▸ .lockReceiver hlock hget (by simp) (by simp)
    -- a receiver that was woken takes the lock as one that enters
    | notified =>
      obtain ⟨hlock, h⟩ := Option.ite_none_right_eq_some.mp h
      exact Option.some.inj h ▸ .lockReceiver hlock hget (by decide) (by decide)
    | _ => cases h
  | loadSenderCount index =>
    obtain ⟨receiving, hget, h⟩ := Option.bind_eq_some_iff.mp h
    cases receiving with
    | locked block => exact Option.some.inj h ▸ .loadSenderCount hget
    | _ => cases h
  | proceed index draws =>
    obtain ⟨receiving, hget, h⟩ := Option.bind_eq_some_iff.mp h
    exact proceed_cases hget h
  | cloneReceiver index =>
    obtain ⟨receiving, hget, h⟩ := Option.bind_eq_some_iff.mp h
    cases receiving with
    | idle => exact Option.some.inj h ▸ .cloneReceiver
    | _ => cases h
  | dropReceiver index =>
    obtain ⟨receiving, hget, h⟩ := Option.bind_eq_some_iff.mp h
    cases receiving with
    | idle => exact Option.some.inj h ▸ .dropReceiver hget
    | _ => cases h

end QueueState

end Zui.PriorityQueue
