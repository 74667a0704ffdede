/-
Queues with priorities.

An element waits in the queue of its priority.  A pop goes through the queues that are
not empty, from the high priority to the low one, and flips a coin for each of them whose
odds are the weight of the queue against the weights of those that are left.

Main statements:

* `choose_spec` — the flips do not panic, and they choose a queue that is not empty as soon
  as there is one.
-/
import Mathlib

namespace Zui.PriorityQueue

/-- `Priority`. -/
inductive Priority
  | realtimeAudio
  | high
  | medium
  | low
  deriving DecidableEq, Repr

namespace Priority

/-- `weight`. -/
def weight : Priority → ℕ
  | high => 60
  | medium => 30
  | low => 10
  | realtimeAudio => 0

end Priority

/-- The panics of the queue. -/
inductive QueuePanic
  /-- `random_ratio` with a ratio that is no probability. -/
  | invalidRatio
  /-- The remaining mass drops below zero. -/
  | overflow
  /-- An element of realtime priority is pushed. -/
  | unreachable
  deriving DecidableEq, Repr

/-- `PriorityQueues`. -/
structure PriorityQueues (T : Type) where
  highPriority : List T
  mediumPriority : List T
  lowPriority : List T
  deriving DecidableEq, Repr

/-- What the random number generator has in store for the flips of a pop. -/
structure Draws where
  high : Bool
  medium : Bool
  low : Bool
  deriving DecidableEq, Repr

/-- `random_ratio`: a coin that is certain is not flipped. -/
def randomRatio (numerator denominator : ℕ) (draw : Bool) : Except QueuePanic Bool :=
  if denominator = 0 ∨ denominator < numerator then .error .invalidRatio
  else .ok (decide (numerator = denominator) || (decide (numerator ≠ 0) && draw))

/-- A subtraction of machine numbers. -/
def checkedSub (minuend subtrahend : ℕ) : Except QueuePanic ℕ :=
  if subtrahend ≤ minuend then .ok (minuend - subtrahend) else .error .overflow

namespace PriorityQueues

variable {T : Type}

/-- The queues in front of the first push. -/
def new : PriorityQueues T :=
  ⟨[], [], []⟩

/-- `is_empty`. -/
def isEmpty (self : PriorityQueues T) : Bool :=
  self.highPriority.isEmpty && self.mediumPriority.isEmpty && self.lowPriority.isEmpty

/-- The queue of a priority. -/
def get (self : PriorityQueues T) : Priority → List T
  | .realtimeAudio => []
  | .high => self.highPriority
  | .medium => self.mediumPriority
  | .low => self.lowPriority

/-- `push`. -/
def push (self : PriorityQueues T) (item : T) : Priority → Except QueuePanic (PriorityQueues T)
  | .realtimeAudio => .error .unreachable
  | .high => .ok { self with highPriority := self.highPriority ++ [item] }
  | .medium => .ok { self with mediumPriority := self.mediumPriority ++ [item] }
  | .low => .ok { self with lowPriority := self.lowPriority ++ [item] }

/-- `pop_front` of the queue of a priority. -/
def popFront (self : PriorityQueues T) : Priority → Option T × PriorityQueues T
  | .realtimeAudio => (none, self)
  | .high => (self.highPriority.head?, { self with highPriority := self.highPriority.tail })
  | .medium => (self.mediumPriority.head?, { self with mediumPriority := self.mediumPriority.tail })
  | .low => (self.lowPriority.head?, { self with lowPriority := self.lowPriority.tail })

/-- The weight of a queue, which counts unless the queue is empty. -/
def mass (self : PriorityQueues T) (priority : Priority) : ℕ :=
  priority.weight * (if (self.get priority).isEmpty then 0 else 1)

/-- A queue is skipped if it is empty; otherwise a flip decides whether it is popped, or
the others are left with the rest of the mass. -/
def flip (self : PriorityQueues T) (priority : Priority) (draw : Bool) (mass : ℕ)
    (otherwise : ℕ → Except QueuePanic (Option Priority)) : Except QueuePanic (Option Priority) :=
  if (self.get priority).isEmpty then otherwise mass
  else do
    if ← randomRatio priority.weight mass draw then return some priority
    let mass ← checkedSub mass priority.weight
    otherwise mass

/-- The last queue, behind which there is no mass to be left. -/
def flipLast (self : PriorityQueues T) (priority : Priority) (draw : Bool) (mass : ℕ) :
    Except QueuePanic (Option Priority) :=
  if (self.get priority).isEmpty then return none
  else do
    if ← randomRatio priority.weight mass draw then return some priority
    return none

/-- The queue that `pop_inner` pops, and `spin_try_pop`. -/
def choose (self : PriorityQueues T) (draws : Draws) : Except QueuePanic (Option Priority) :=
  self.flip .high draws.high (self.mass .high + self.mass .medium + self.mass .low) fun mass =>
    self.flip .medium draws.medium mass fun mass =>
      self.flipLast .low draws.low mass

/-- What `pop_inner` returns when it has got the queues, and what it leaves of them. -/
def pop (self : PriorityQueues T) (draws : Draws) :
    Except QueuePanic (Option T × PriorityQueues T) := do
  match ← self.choose draws with
  | some priority => return self.popFront priority
  | none => return (none, self)

/-! ### The flips -/

variable {self : PriorityQueues T} {priority : Priority}

theorem isEmpty_iff : self.isEmpty = true ↔ ∀ priority, self.get priority = [] := by
  constructor
  · intro h priority
    simp only [isEmpty, Bool.and_eq_true, List.isEmpty_iff] at h
    obtain ⟨⟨hhigh, hmedium⟩, hlow⟩ := h
    cases priority with
    | realtimeAudio => rfl
    | high => exact hhigh
    | medium => exact hmedium
    | low => exact hlow
  · intro h
    have hhigh : self.highPriority = [] := h .high
    have hmedium : self.mediumPriority = [] := h .medium
    have hlow : self.lowPriority = [] := h .low
    simp [isEmpty, hhigh, hmedium, hlow]

theorem mass_eq (hpriority : self.get priority ≠ []) : self.mass priority = priority.weight := by
  simp [mass, hpriority]

theorem mass_of_empty (hpriority : self.get priority = []) : self.mass priority = 0 := by
  simp [mass, hpriority]

/-- The flips have chosen one of these queues, unless all of them are empty. -/
def Chooses (self : PriorityQueues T) (priorities : List Priority)
    (result : Except QueuePanic (Option Priority)) : Prop :=
  ((∀ priority ∈ priorities, self.get priority = []) ∧ result = .ok none) ∨
    ∃ priority ∈ priorities, self.get priority ≠ [] ∧ result = .ok (some priority)

theorem flipLast_spec (draw : Bool) (hweight : priority.weight ≠ 0) :
    self.Chooses [priority] (self.flipLast priority draw (self.mass priority)) := by
  by_cases hempty : self.get priority = []
  · refine Or.inl ⟨by simpa using hempty, ?_⟩
    rw [flipLast, hempty]
    rfl
  · refine Or.inr ⟨priority, List.mem_singleton_self _, hempty, ?_⟩
    -- Nothing else is left: the flip is certain.
    have hratio : randomRatio priority.weight priority.weight draw = .ok true := by
      rw [randomRatio, if_neg (by omega)]
      simp
    rw [flipLast, if_neg (by simpa using hempty), mass_eq hempty, hratio]
    rfl

/-- A flip in front of others, with the masses of all of them. -/
theorem flip_spec {draw : Bool} {rest : ℕ} {priorities : List Priority}
    {otherwise : ℕ → Except QueuePanic (Option Priority)} (hweight : priority.weight ≠ 0)
    (hrest : rest ≠ 0 ↔ ∃ other ∈ priorities, self.get other ≠ [])
    (hotherwise : self.Chooses priorities (otherwise rest)) :
    self.Chooses (priority :: priorities)
      (self.flip priority draw (self.mass priority + rest) otherwise) := by
  by_cases hempty : self.get priority = []
  · have hflip : self.flip priority draw (self.mass priority + rest) otherwise =
        otherwise rest := by
      rw [flip, hempty, mass_of_empty hempty, Nat.zero_add]
      rfl
    rw [hflip]
    rcases hotherwise with ⟨hall, h⟩ | ⟨other, hmem, hother, h⟩
    · exact Or.inl ⟨List.forall_mem_cons.mpr ⟨hempty, hall⟩, h⟩
    · exact Or.inr ⟨other, List.mem_cons_of_mem _ hmem, hother, h⟩
  · have hratio : randomRatio priority.weight (priority.weight + rest) draw =
        .ok (decide (rest = 0) || draw) := by
      rw [randomRatio, if_neg (by omega)]
      simp [hweight]
    have hsub : checkedSub (priority.weight + rest) priority.weight = .ok rest := by
      rw [checkedSub, if_pos (by omega), Nat.add_sub_cancel_left]
    have hflip : self.flip priority draw (self.mass priority + rest) otherwise =
        if (decide (rest = 0) || draw) = true then .ok (some priority) else otherwise rest := by
      rw [mass_eq hempty, flip, if_neg (by simpa using hempty), hratio]
      show (if (decide (rest = 0) || draw) = true then Except.ok (some priority)
        else checkedSub (priority.weight + rest) priority.weight >>= otherwise) = _
      rw [hsub]
      rfl
    rw [hflip]
    by_cases hcertain : (decide (rest = 0) || draw) = true
    · rw [if_pos hcertain]
      exact Or.inr ⟨priority, List.mem_cons_self, hempty, rfl⟩
    · -- The tail comes up, so there is a queue behind this one.
      rw [if_neg hcertain]
      have hne : rest ≠ 0 := by
        rintro rfl
        simp at hcertain
      obtain ⟨other, hmem, hother⟩ := hrest.mp hne
      rcases hotherwise with ⟨hall, -⟩ | ⟨other', hmem', hother', h⟩
      · exact absurd (hall other hmem) hother
      · exact Or.inr ⟨other', List.mem_cons_of_mem _ hmem', hother', h⟩

theorem mass_ne_zero_iff (hweight : priority.weight ≠ 0) :
    self.mass priority ≠ 0 ↔ self.get priority ≠ [] := by
  by_cases hempty : self.get priority = []
  · simp [mass_of_empty hempty, hempty]
  · simp [mass_eq hempty, hempty, hweight]

/-- The flips choose a queue that is not empty, if there is one. -/
theorem choose_spec (self : PriorityQueues T) (draws : Draws) :
    self.Chooses [.high, .medium, .low] (self.choose draws) := by
  have hlow : self.Chooses [.low] (self.flipLast .low draws.low (self.mass .low)) :=
    flipLast_spec _ (by decide)
  have hmediumMass : self.mass .medium ≠ 0 ↔ self.get .medium ≠ [] :=
    mass_ne_zero_iff (by decide)
  have hlowMass : self.mass .low ≠ 0 ↔ self.get .low ≠ [] := mass_ne_zero_iff (by decide)
  have hmedium : self.Chooses [.medium, .low]
      (self.flip .medium draws.medium (self.mass .medium + self.mass .low) fun mass =>
        self.flipLast .low draws.low mass) :=
    flip_spec (by decide) (by simpa using hlowMass) hlow
  rw [choose, Nat.add_assoc]
  refine flip_spec (by decide) ?_ hmedium
  simp only [List.mem_cons, List.not_mem_nil, or_false, exists_eq_or_imp, exists_eq_left,
    ← hmediumMass, ← hlowMass]
  omega

/-- A pop does not panic, and takes the first element of a queue, if there is one. -/
theorem pop_spec (self : PriorityQueues T) (draws : Draws) :
    (self.isEmpty = true ∧ self.pop draws = .ok (none, self)) ∨
      ∃ priority item rest left, self.pop draws = .ok (some item, left) ∧
        self.get priority = item :: rest ∧ left.get priority = rest ∧
        ∀ other ≠ priority, left.get other = self.get other := by
  rcases self.choose_spec draws with ⟨hall, h⟩ | ⟨priority, -, hpriority, h⟩
  · refine Or.inl ⟨isEmpty_iff.mpr fun priority => ?_, ?_⟩
    · cases priority with
      | realtimeAudio => rfl
      | high => exact hall _ (by simp)
      | medium => exact hall _ (by simp)
      | low => exact hall _ (by simp)
    · rw [pop, h]
      rfl
  · obtain ⟨item, rest, hitem⟩ := List.exists_cons_of_ne_nil hpriority
    have hpop : self.pop draws = .ok (self.popFront priority) := by
      rw [pop, h]
      rfl
    refine Or.inr ⟨priority, item, rest, (self.popFront priority).2, ?_, hitem, ?_, ?_⟩
    · rw [hpop]
      cases priority with
      | realtimeAudio => cases hitem
      | high => exact congrArg (fun o => Except.ok (o, _)) (congrArg List.head? hitem)
      | medium => exact congrArg (fun o => Except.ok (o, _)) (congrArg List.head? hitem)
      | low => exact congrArg (fun o => Except.ok (o, _)) (congrArg List.head? hitem)
    · cases priority with
      | realtimeAudio => cases hitem
      | high => exact congrArg List.tail hitem
      | medium => exact congrArg List.tail hitem
      | low => exact congrArg List.tail hitem
    · intro other hother
      cases priority <;> cases other <;> first | rfl | exact absurd rfl hother

end PriorityQueues

end Zui.PriorityQueue
