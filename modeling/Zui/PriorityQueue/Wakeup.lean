/-
Receivers that wait when the sender is gone.

The drop of a sender lowers the count and notifies nobody, and a receiver does not read the
count again in its loop.  So a receiver may be left on the condition variable in three ways: it
waits when the sender is dropped, it begins to wait afterwards because it had read the count
before, or it waits while another one takes the last element.

Main statements:

* `noSleeper_iff_clean` — a step leaves a receiver behind exactly if it does so in one of
  these ways;
* `noSleeper_of_clean` — no receiver is left behind in a run without such steps.
-/
import Zui.PriorityQueue.Delivery

namespace Zui.PriorityQueue

variable {T : Type}

namespace PriorityQueues

/-- How many elements wait in the queues. -/
def length (self : PriorityQueues T) : ℕ :=
  self.highPriority.length + self.mediumPriority.length + self.lowPriority.length

theorem isEmpty_iff_length {self : PriorityQueues T} : self.isEmpty = true ↔ self.length = 0 := by
  simp [isEmpty, length, List.isEmpty_iff, List.length_eq_zero_iff, and_assoc]

theorem length_of_pop {self left : PriorityQueues T} {priority : Priority} {item : T}
    {rest : List T} (hget : self.get priority = item :: rest) (hleft : left.get priority = rest)
    (hother : ∀ other ≠ priority, left.get other = self.get other) :
    self.length = left.length + 1 := by
  have hlength : ∀ queues : PriorityQueues T, queues.length =
      (queues.get .high).length + (queues.get .medium).length + (queues.get .low).length :=
    fun _ => rfl
  have hsame : ∀ other ≠ priority, (left.get other).length = (self.get other).length :=
    fun other hne => congrArg List.length (hother other hne)
  have hone : (self.get priority).length = (left.get priority).length + 1 := by
    rw [hget, hleft, List.length_cons]
  rw [hlength, hlength]
  cases priority with
  | realtimeAudio => cases hget
  | high => rw [hone, hsame .medium (by decide), hsame .low (by decide)]; omega
  | medium => rw [hone, hsame .high (by decide), hsame .low (by decide)]; omega
  | low => rw [hone, hsame .high (by decide), hsame .medium (by decide)]; omega

end PriorityQueues

/-- A receiver that waits if it finds the queues empty. -/
def Receiving.wouldWait : Receiving → Bool
  | .relocked => true
  | .loaded true senderCount => senderCount != 0
  | _ => false

namespace QueueState

/-- No receiver waits on the condition variable. -/
def Awake (s : QueueState T) : Prop :=
  ∀ receiving ∈ s.receivers, receiving ≠ .waiting

/-- No receiver waits for a sender that is gone. -/
def NoSleeper (s : QueueState T) : Prop :=
  s.senderCount = 0 → s.queues.isEmpty = true → s.Awake

/-- A step that leaves no receiver behind. -/
def Clean (s : QueueState T) : QueueOp T → Prop
  | .dropSender => s.senderCount = 1 → s.queues.isEmpty = true → s.Awake
  | .proceed index _ => s.senderCount = 0 →
    (s.queues.length = 0 → (s.receivers[index]?.map Receiving.wouldWait) ≠ some true) ∧
      (s.queues.length = 1 → s.Awake)
  | _ => True

instance (s : QueueState T) : Decidable s.Awake :=
  inferInstanceAs (Decidable (∀ receiving ∈ s.receivers, receiving ≠ Receiving.waiting))

instance (s : QueueState T) (op : QueueOp T) : Decidable (s.Clean op) := by
  cases op <;> unfold Clean <;> infer_instance

variable {s s' : QueueState T} {index : ℕ}

/-- A receiver that does not wait goes on, and does not wait then either. -/
theorem awake_set {receiving : Receiving} (next : Receiving)
    (hget : s.receivers[index]? = some receiving)
    (hreceiving : receiving ≠ .waiting) (hnext : next ≠ .waiting) :
    (∀ other ∈ s.receivers.set index next, other ≠ .waiting) ↔ s.Awake := by
  constructor
  · intro h other hmem
    obtain ⟨position, hposition⟩ := List.mem_iff_getElem?.mp hmem
    by_cases heq : index = position
    · subst heq
      cases hget.symm.trans hposition
      exact hreceiving
    · refine h other (List.mem_iff_getElem?.mpr ⟨position, ?_⟩)
      rw [List.getElem?_set_ne heq, hposition]
  · intro h other hmem
    rcases List.mem_or_eq_of_mem_set hmem with hmem | rfl
    · exact h other hmem
    · exact hnext

theorem NoSleeper.of_awake_imp (hs : s.NoSleeper) (hsenders : s'.senderCount = s.senderCount)
    (hqueues : s'.queues = s.queues) (hawake : s.Awake → s'.Awake) : s'.NoSleeper := by
  intro hsender hempty
  rw [hsenders] at hsender
  rw [hqueues] at hempty
  exact hawake (hs hsender hempty)

theorem ne_waiting_of_lock {receiving : Receiving}
    (hreceiving : receiving = .relocked ∨ ∃ block senderCount,
      receiving = .loaded block senderCount) :
    receiving ≠ .waiting := by
  rcases hreceiving with rfl | ⟨block, senderCount, rfl⟩
  · exact Receiving.noConfusion
  · exact Receiving.noConfusion

/-- A step leaves a receiver behind exactly if it is not clean. -/
theorem noSleeper_iff_clean {op : QueueOp T} (hs : s.NoSleeper) (h : s.Stepped op s') :
    s'.NoSleeper ↔ s.Clean op := by
  cases h with
  | send => exact iff_of_true hs trivial
  | reject => exact iff_of_true hs trivial
  | lockSender => exact iff_of_true hs trivial
  | push hget hpush =>
    refine iff_of_true ?_ trivial
    rename_i index priority item queues
    intro _ hempty
    -- The pushed element is in its queue.
    have h := get_push hpush priority
    rw [PriorityQueues.isEmpty_iff.mp hempty priority, if_pos rfl] at h
    simp at h
  | notifyOne hwakes =>
    refine iff_of_true ?_ trivial
    rename_i index woken
    cases woken with
    | none => exact hs
    | some woken =>
      refine hs.of_awake_imp rfl rfl fun hawake other hmem => ?_
      rcases List.mem_or_eq_of_mem_set hmem with hmem | rfl
      · exact hawake other hmem
      · exact Receiving.noConfusion
  | unlockSender => exact iff_of_true hs trivial
  | dropSender hsender hdone =>
    constructor
    · intro hs' hone hempty
      exact hs' (by simp [hone]) hempty
    · intro hclean hzero hempty
      have hone : s.senderCount = 1 := by
        have : s.senderCount - 1 = 0 := hzero
        omega
      exact hclean hone hempty
  | recv hget =>
    exact iff_of_true
      (hs.of_awake_imp rfl rfl (awake_set _ hget Receiving.noConfusion Receiving.noConfusion).mpr)
      trivial
  | lockReceiver hlock hget hwaiting hnext =>
    exact iff_of_true (hs.of_awake_imp rfl rfl (awake_set _ hget hwaiting hnext).mpr) trivial
  | loadSenderCount hget =>
    exact iff_of_true
      (hs.of_awake_imp rfl rfl (awake_set _ hget Receiving.noConfusion Receiving.noConfusion).mpr)
      trivial
  | disconnected hget hempty =>
    rename_i index draws block
    have hset := awake_set .idle hget Receiving.noConfusion Receiving.noConfusion
    refine iff_of_true (hs.of_awake_imp rfl rfl hset.mpr) fun _ => ⟨fun _ => ?_, fun hone => ?_⟩
    · rw [hget]
      cases block <;> exact fun h => Bool.noConfusion (Option.some.inj h)
    · rw [PriorityQueues.isEmpty_iff_length.mp hempty] at hone
      exact Nat.noConfusion hone
  | returnNone hget hsenders hempty =>
    have hset := awake_set .idle hget Receiving.noConfusion Receiving.noConfusion
    refine iff_of_true (hs.of_awake_imp rfl rfl hset.mpr) fun _ => ⟨fun _ => ?_, fun hone => ?_⟩
    · rw [hget]
      exact fun h => Bool.noConfusion (Option.some.inj h)
    · rw [PriorityQueues.isEmpty_iff_length.mp hempty] at hone
      exact Nat.noConfusion hone
  | wait hget hreceiving hempty =>
    rename_i index draws receiving
    have hwould : receiving.wouldWait = true := by
      rcases hreceiving with rfl | ⟨senderCount, hne, rfl⟩
      · rfl
      · simpa [Receiving.wouldWait] using hne
    have hwaits : ¬ (s.leave index .waiting).Awake := fun h =>
      h .waiting (List.mem_iff_getElem?.mpr ⟨index, by
        rw [leave, setReceiver, List.getElem?_set_self (List.getElem?_eq_some_iff.mp hget).1]⟩) rfl
    constructor
    · intro hs' hzero
      exact absurd (hs' hzero hempty) hwaits
    · intro hclean hzero _
      refine absurd ?_ ((hclean hzero).1 (PriorityQueues.isEmpty_iff_length.mp hempty))
      rw [hget, Option.map_some, hwould]
  | pop hget hreceiving hempty hpop =>
    rename_i index draws receiving
    obtain ⟨priority, item, rest, left, hfront, hleft, hother, heq⟩ :=
      pop_eq index draws hempty
    cases heq.symm.trans hpop
    have hlength := PriorityQueues.length_of_pop hfront hleft hother
    have hset := awake_set .idle hget (ne_waiting_of_lock hreceiving) Receiving.noConfusion
    constructor
    · intro hs' hzero
      refine ⟨fun h => by omega, fun hone => hset.mp (hs' hzero ?_)⟩
      exact PriorityQueues.isEmpty_iff_length.mpr (show left.length = 0 by omega)
    · intro hclean hzero hleftEmpty
      have hnone : left.length = 0 := PriorityQueues.isEmpty_iff_length.mp hleftEmpty
      exact hset.mpr ((hclean hzero).2 (by omega))
  | cloneReceiver =>
    refine iff_of_true (hs.of_awake_imp rfl rfl fun hawake other hmem => ?_) trivial
    rcases List.mem_append.mp hmem with hmem | hmem
    · exact hawake other hmem
    · rw [List.mem_singleton.mp hmem]
      exact Receiving.noConfusion
  | dropReceiver hget =>
    exact iff_of_true
      (hs.of_awake_imp rfl rfl (awake_set _ hget Receiving.noConfusion Receiving.noConfusion).mpr)
      trivial

theorem Reachable.noSleeper [DecidableEq T] (hs : Reachable Clean s) : s.NoSleeper := by
  induction hs with
  | new => exact fun h => Nat.noConfusion h
  | step hs hop hstep ih => exact (noSleeper_iff_clean ih (step_cases hstep)).mpr hop

/-- In a run of clean steps no receiver waits for a sender that is gone, and the first step
that is not clean leaves one behind. -/
theorem noSleeper_of_clean [DecidableEq T] {s : QueueState T} (hs : Reachable Clean s) :
    s.NoSleeper ∧
      ∀ (op : QueueOp T) (s' : QueueState T), s.step op = some s' → (s'.NoSleeper ↔ s.Clean op) :=
  ⟨hs.noSleeper, fun _ _ hstep => noSleeper_iff_clean hs.noSleeper (step_cases hstep)⟩

/-- A receiver that takes the element of a sender, and then returns the error. -/
def takeAndDisconnect : List (QueueOp ℕ) :=
  [.recv 0 true, .lockReceiver 0, .loadSenderCount 0, .proceed 0 ⟨false, false, false⟩,
    .send .high 1, .lockSender 0, .push 0, .notifyOne 0 (some 0), .unlockSender 0, .dropSender,
    .lockReceiver 0, .proceed 0 ⟨true, false, false⟩, .recv 0 true, .lockReceiver 0,
    .loadSenderCount 0, .proceed 0 ⟨false, false, false⟩]

theorem noSleeper_of_takeAndDisconnect : ∃ s : QueueState ℕ,
    QueueState.new.run Clean takeAndDisconnect = some s ∧ s.NoSleeper ∧
      s.log = [.sent .high 1, .received .high 1, .disconnected] := by
  have hsleeper := fun (s : QueueState ℕ)
    (hs : QueueState.new.run Clean takeAndDisconnect = some s) =>
    (noSleeper_of_clean (Reachable.new.run hs)).1
  exact ⟨_, rfl, hsleeper _ rfl, rfl⟩

/-- The sender is dropped while the receiver waits. -/
def dropWhileWaiting : List (QueueOp ℕ) :=
  [.recv 0 true, .lockReceiver 0, .loadSenderCount 0, .proceed 0 ⟨false, false, false⟩, .dropSender]

theorem dropWhileWaiting_sleeps :
    ¬ ∀ s : QueueState ℕ, Reachable (fun _ _ => True) s → s.NoSleeper := by
  intro h
  have hrun : ∃ s : QueueState ℕ,
      QueueState.new.run (fun _ _ => True) dropWhileWaiting = some s ∧ ¬ s.NoSleeper :=
    ⟨_, rfl, fun hs => hs rfl rfl .waiting (List.mem_singleton_self _) rfl⟩
  obtain ⟨s, hs, hsleeper⟩ := hrun
  exact hsleeper (h s (Reachable.new.run hs))

end QueueState

end Zui.PriorityQueue
