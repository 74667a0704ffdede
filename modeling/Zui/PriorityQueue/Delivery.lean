/-
The elements of a queue reach the receivers.

Main statements:

* `Delivered.step` — what was sent with a priority is what was received of it, and then what
  waits in its queue;
* `queue_delivers` — in every run the receivers get the elements of each priority in the order
  in which they were sent, none of them twice, and all of them once the queues are empty.
-/
import Zui.PriorityQueue.Machine

namespace Zui.PriorityQueue

variable {T : Type}

namespace QueueEvent

/-- The element that is sent with a priority. -/
def sentAs (priority : Priority) : QueueEvent T → Option T
  | .sent priority' item => if priority' = priority then some item else none
  | _ => none

/-- The element that is received out of the queue of a priority. -/
def receivedAs (priority : Priority) : QueueEvent T → Option T
  | .received priority' item => if priority' = priority then some item else none
  | _ => none

end QueueEvent

namespace QueueState

/-- The elements that were sent with a priority. -/
def sent (s : QueueState T) (priority : Priority) : List T :=
  s.log.filterMap (QueueEvent.sentAs priority)

/-- The elements that were received out of the queue of a priority. -/
def received (s : QueueState T) (priority : Priority) : List T :=
  s.log.filterMap (QueueEvent.receivedAs priority)

/-- What was sent and not received is in the queues. -/
def Delivered (s : QueueState T) : Prop :=
  ∀ priority, s.sent priority = s.received priority ++ s.queues.get priority

variable {s s' : QueueState T} {index : ℕ} {draws : Draws}

theorem poppedFrom_eq {queues left : PriorityQueues T} {priority : Priority} {item : T}
    {rest : List T} (hget : queues.get priority = item :: rest)
    (hleft : left.get priority = rest)
    (hother : ∀ other ≠ priority, left.get other = queues.get other) :
    poppedFrom queues left = priority := by
  have hlt : (left.get priority).length < (queues.get priority).length := by
    rw [hget, hleft]
    exact Nat.lt_succ_self _
  have hle : ∀ other ≠ priority, ¬ (left.get other).length < (queues.get other).length := by
    intro other hne
    rw [hother other hne]
    exact lt_irrefl _
  cases priority with
  | realtimeAudio => cases hget
  | high => exact if_pos hlt
  | medium => exact (if_neg (hle .high (by decide))).trans (if_pos hlt)
  | low => exact (if_neg (hle .high (by decide))).trans (if_neg (hle .medium (by decide)))

/-- A receiver that finds the queues not empty takes the first element of one of them. -/
theorem pop_eq (index : ℕ) (draws : Draws) (hempty : s.queues.isEmpty = false) :
    ∃ priority item rest left, s.queues.get priority = item :: rest ∧ left.get priority = rest ∧
      (∀ other ≠ priority, left.get other = s.queues.get other) ∧
      s.pop index draws =
        some (finish { s with queues := left } index (.received priority item)) := by
  rcases s.queues.pop_spec draws with ⟨h, -⟩ | ⟨priority, item, rest, left, hpop, hget,
    hleft, hother⟩
  · rw [hempty] at h
    cases h
  · refine ⟨priority, item, rest, left, hget, hleft, hother, ?_⟩
    rw [pop, hpop, ← poppedFrom_eq hget hleft hother]

theorem get_push {queues pushed : PriorityQueues T} {priority : Priority} {item : T}
    (hpush : queues.push item priority = .ok pushed) (other : Priority) :
    pushed.get other = queues.get other ++ (if priority = other then [item] else []) := by
  cases priority with
  | realtimeAudio => cases hpush
  | _ =>
    cases hpush
    cases other <;> simp [PriorityQueues.get]

/-- A step that logs neither a sent nor a received element, and leaves the queues alone. -/
theorem Delivered.of_eq (hs : s.Delivered) (events : List (QueueEvent T))
    (hqueues : s'.queues = s.queues) (hlog : s'.log = s.log ++ events)
    (hsent : ∀ priority, events.filterMap (QueueEvent.sentAs priority) = [])
    (hreceived : ∀ priority, events.filterMap (QueueEvent.receivedAs priority) = []) :
    s'.Delivered := by
  intro priority
  have h := hs priority
  rw [sent, received] at h
  rw [sent, received, hlog, hqueues, List.filterMap_append, List.filterMap_append,
    hsent, hreceived, List.append_nil, List.append_nil, h]

theorem Delivered.of_log_eq (hs : s.Delivered) (hqueues : s'.queues = s.queues)
    (hlog : s'.log = s.log) : s'.Delivered :=
  hs.of_eq [] hqueues (by rw [hlog, List.append_nil]) (fun _ => rfl) fun _ => rfl

theorem Delivered.step {op : QueueOp T} (hs : s.Delivered) (h : s.Stepped op s') :
    s'.Delivered := by
  cases h with
  | reject => exact hs.of_eq _ rfl rfl (fun _ => rfl) fun _ => rfl
  | push hget hpush =>
    rename_i index priority item queues
    intro other
    have h := hs other
    rw [sent, received] at h
    rw [sent, received, List.filterMap_append, List.filterMap_append, h, get_push hpush,
      List.append_assoc, List.append_assoc]
    by_cases hother : priority = other
    · simp [QueueEvent.sentAs, QueueEvent.receivedAs, hother]
    · simp [QueueEvent.sentAs, QueueEvent.receivedAs, hother]
  | notifyOne hwakes =>
    rename_i index woken
    cases woken with
    | none => exact hs.of_log_eq rfl rfl
    | some woken => exact hs.of_log_eq rfl rfl
  | disconnected => exact hs.of_eq _ rfl rfl (fun _ => rfl) fun _ => rfl
  | returnNone => exact hs.of_eq _ rfl rfl (fun _ => rfl) fun _ => rfl
  | pop hget hreceiving hempty hpop =>
    rename_i index draws receiving
    obtain ⟨priority, item, rest, left, hfront, hleft, hother, heq⟩ :=
      pop_eq index draws hempty
    cases heq.symm.trans hpop
    intro other
    have h := hs other
    rw [sent, received] at h
    show (s.log ++ [QueueEvent.received priority item]).filterMap _ =
      (s.log ++ [QueueEvent.received priority item]).filterMap _ ++ left.get other
    rw [List.filterMap_append, List.filterMap_append, h]
    by_cases hpriority : priority = other
    · subst hpriority
      simp [QueueEvent.sentAs, QueueEvent.receivedAs, hfront, hleft]
    · simp [QueueEvent.sentAs, QueueEvent.receivedAs, hpriority, hother other (Ne.symm hpriority)]
  | _ => exact hs.of_log_eq rfl rfl

theorem Reachable.delivered [DecidableEq T] {allowed : QueueState T → QueueOp T → Prop}
    (hs : Reachable allowed s) : s.Delivered := by
  induction hs with
  | new =>
    intro priority
    cases priority <;> rfl
  | step hs hop hstep ih => exact ih.step (step_cases hstep)

/-- A call returns without an element only if the queues are empty. -/
theorem Stepped.isEmpty_of_log {op : QueueOp T} (h : s.Stepped op s')
    (hlog : s'.log = s.log ++ [.disconnected] ∨ s'.log = s.log ++ [.returnedNone]) :
    s.queues.isEmpty = true := by
  have hne : ∀ event : QueueEvent T, s'.log = s.log ++ [event] →
      event = .disconnected ∨ event = .returnedNone := by
    intro event hevent
    rw [hevent] at hlog
    simpa using hlog
  have hsame : s'.log ≠ s.log := by
    intro hsame
    rw [hsame] at hlog
    simp at hlog
  cases h with
  | reject => simpa using hne _ rfl
  | push => simpa using hne _ rfl
  | notifyOne hwakes =>
    rename_i index woken
    cases woken <;> exact absurd rfl hsame
  | disconnected hget hempty => exact hempty
  | returnNone hget hsenders hempty => exact hempty
  | pop hget hreceiving hempty hpop =>
    rename_i index draws receiving
    obtain ⟨priority, item, rest, left, -, -, -, heq⟩ :=
      pop_eq index draws hempty
    cases heq.symm.trans hpop
    simpa using hne _ rfl
  | _ => exact absurd rfl hsame

theorem isSome_proceed [DecidableEq T] {receiving : Receiving}
    (hget : s.receivers[index]? = some receiving)
    (hreceiving : receiving = .relocked ∨ ∃ block senderCount,
      receiving = .loaded block senderCount) :
    (s.step (.proceed index draws)).isSome = true := by
  have hpop : s.queues.isEmpty = false → (s.pop index draws).isSome = true := by
    intro hempty
    obtain ⟨priority, item, rest, left, -, -, -, heq⟩ :=
      pop_eq index draws hempty
    rw [heq]
    rfl
  have hstep : s.step (.proceed index draws) = s.proceed index draws receiving := by
    show s.receivers[index]?.bind (s.stepReceiver (.proceed index draws)) = _
    rw [hget]
    rfl
  rw [hstep]
  cases hempty : s.queues.isEmpty with
  | true =>
    rcases hreceiving with rfl | ⟨block, senderCount, rfl⟩
    · simp [proceed, hempty]
    · cases block <;> by_cases hzero : senderCount = 0 <;> simp [proceed, hempty, hzero]
  | false =>
    rcases hreceiving with rfl | ⟨block, senderCount, rfl⟩
    · simpa [proceed, hempty] using hpop hempty
    · simpa [proceed, hempty] using hpop hempty

/-- However the flips come up and the threads interleave, a pop takes the first element of a
queue unless all of them are empty, a call returns without an element only if they are, and the
elements of each priority arrive in the order in which they were sent, each at most once, and
all of them as soon as the queues are empty. -/
theorem queue_delivers [DecidableEq T] {s : QueueState T} (hs : Reachable (fun _ _ => True) s) :
    (∀ draws : Draws, (s.queues.isEmpty = true ∧ s.queues.pop draws = .ok (none, s.queues)) ∨
      ∃ priority item rest left, s.queues.pop draws = .ok (some item, left) ∧
        s.queues.get priority = item :: rest ∧ left.get priority = rest ∧
        ∀ other ≠ priority, left.get other = s.queues.get other) ∧
    (∀ (index : ℕ) (draws : Draws) (receiving : Receiving),
      s.receivers[index]? = some receiving →
      (receiving = .relocked ∨ ∃ block senderCount, receiving = .loaded block senderCount) →
      (s.step (.proceed index draws)).isSome = true) ∧
    (∀ (op : QueueOp T) (s' : QueueState T), s.step op = some s' →
      s'.log = s.log ++ [.disconnected] ∨ s'.log = s.log ++ [.returnedNone] →
      s.queues.isEmpty = true) ∧
    (∀ priority, s.received priority <+: s.sent priority) ∧
    (s.queues.isEmpty = true → ∀ priority, s.received priority = s.sent priority) := by
  refine ⟨s.queues.pop_spec, fun index draws receiving => isSome_proceed,
    fun op s' hstep => (step_cases hstep).isEmpty_of_log, ?_, ?_⟩
  · intro priority
    exact ⟨_, (hs.delivered priority).symm⟩
  · intro hempty priority
    rw [hs.delivered priority, PriorityQueues.isEmpty_iff.mp hempty, List.append_nil]

/-- Two sends, and a receiver that takes the element of low priority. -/
def twoSends : List (QueueOp ℕ) :=
  [.send .low 1, .send .high 2, .lockSender 1, .push 1, .notifyOne 1 none, .unlockSender 1,
    .recv 0 true, .lockSender 0, .push 0, .notifyOne 0 none, .unlockSender 0, .lockReceiver 0,
    .loadSenderCount 0, .proceed 0 ⟨false, false, false⟩]

theorem queue_delivers_twoSends : ∃ s : QueueState ℕ,
    QueueState.new.run (fun _ _ => True) twoSends = some s ∧
      s.received .low = [1] ∧ s.received .low <+: s.sent .low ∧
      s.received .high = [] ∧ s.received .high <+: s.sent .high := by
  have hdelivers := fun (s : QueueState ℕ)
      (hs : QueueState.new.run (fun _ _ => True) twoSends = some s) =>
    (queue_delivers (Reachable.new.run hs)).2.2.2.1
  exact ⟨_, rfl, rfl, hdelivers _ rfl .low, rfl, hdelivers _ rfl .high⟩

end QueueState

end Zui.PriorityQueue
