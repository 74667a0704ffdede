/-
State of elements across frames.

`with_element_state` passes an element the state that it stored when it was drawn last, and
stores the one that it returns.  A window holds the states in two frames: the one that it has
rendered, and the next one, which it draws.  An access moves a state from the former to the
latter; a cached view that is reused copies the records of its accesses only, and the states
follow when the frame is finished.

Design notes:

* `TypeId` stands for a type of states, which is `S typeId`; the box of a state has the type in
  it, and a downcast compares it;
* an access is in two halves, before and behind the call of its closure, so that the accesses
  inside it are operations of their own: `Config.stack` has the calls that have not returned;
* of a frame, only its states and the records of their accesses are here;
* a map is a function to options.
-/
import Zui.Library.Generations
import Zui.Library.Loop

namespace Zui.ElementState

/-- The ways in which the code panics. -/
inductive Panic
  /-- `unwrap` of a downcast to another type. -/
  | invalidType
  /-- The box is empty, as in a reentrant call. -/
  | reentrant
  /-- A slice past the end. -/
  | indexOutOfBounds
  deriving DecidableEq, Repr

/-- What a function that may panic returns. -/
abbrev Result (α : Type) : Type := Except Panic α

variable {GlobalElementId TypeId : Type} [DecidableEq GlobalElementId] [DecidableEq TypeId]
  {S : TypeId → Type}

/-- `ElementStateBox`, with the type of what is in it. -/
structure ElementStateBox (S : TypeId → Type) where
  typeId : TypeId
  inner : Option (S typeId)

/-- `inner.downcast::<Option<S>>()`. -/
def ElementStateBox.downcast (typeId : TypeId) (any : ElementStateBox S) :
    Option (Option (S typeId)) :=
  if h : any.typeId = typeId then some (h ▸ any.inner) else none

@[simp] theorem ElementStateBox.downcast_mk (typeId : TypeId) (inner : Option (S typeId)) :
    (ElementStateBox.mk typeId inner).downcast typeId = some inner := by
  simp [downcast]

/-! ### Frames -/

/-- `Frame`. -/
structure Frame (GlobalElementId : Type) (S : TypeId → Type) where
  elementStates : GlobalElementId × TypeId → Option (ElementStateBox S)
  accessedElementStates : List (GlobalElementId × TypeId)

namespace Frame

/-- `Frame::new`. -/
def new : Frame GlobalElementId S where
  elementStates _ := none
  accessedElementStates := []

/-- `clear`. -/
def clear (self : Frame GlobalElementId S) : Frame GlobalElementId S :=
  { self with
    elementStates := fun _ => none
    accessedElementStates := [] }

/-- `element_states.insert`. -/
def insert (key : GlobalElementId × TypeId) (state : ElementStateBox S)
    (self : Frame GlobalElementId S) : Frame GlobalElementId S :=
  { self with elementStates := Function.update self.elementStates key (some state) }

/-- `element_states.remove`, without what it returns. -/
def remove (key : GlobalElementId × TypeId) (self : Frame GlobalElementId S) :
    Frame GlobalElementId S :=
  { self with elementStates := Function.update self.elementStates key none }

/-- One pass of the loop in `finish`, over this frame and the previous one. -/
def finishKey (frames : Frame GlobalElementId S × Frame GlobalElementId S)
    (key : GlobalElementId × TypeId) : Frame GlobalElementId S × Frame GlobalElementId S :=
  match frames.2.elementStates key with
  | some state => (frames.1.insert key state, frames.2.remove key)
  | none => frames

/-- `finish`, with the previous frame that it takes states from. -/
def finish (self prevFrame : Frame GlobalElementId S) :
    Frame GlobalElementId S × Frame GlobalElementId S :=
  self.accessedElementStates.foldl finishKey (self, prevFrame)

end Frame

/-! ### The window -/

/-- `Window`. -/
structure Window (GlobalElementId : Type) (S : TypeId → Type) where
  renderedFrame : Frame GlobalElementId S
  nextFrame : Frame GlobalElementId S

/-- `xs[start..end]`. -/
def slice {α : Type} (xs : List α) (range : ℕ × ℕ) : Result (List α) :=
  if range.1 ≤ range.2 ∧ range.2 ≤ xs.length then
    .ok ((xs.take range.2).drop range.1)
  else .error .indexOutOfBounds

namespace Window

/-- A window that has not drawn a frame. -/
def new : Window GlobalElementId S := ⟨.new, .new⟩

/-- Remove the state from the next frame, or else from the rendered one. -/
def removeState (key : GlobalElementId × TypeId) (self : Window GlobalElementId S) :
    Option (ElementStateBox S) × Window GlobalElementId S :=
  match self.nextFrame.elementStates key with
  | some any => (some any, { self with nextFrame := self.nextFrame.remove key })
  | none =>
    (self.renderedFrame.elementStates key,
      { self with renderedFrame := self.renderedFrame.remove key })

/-- The key is recorded as accessed in the next frame. -/
def pushAccessed (keys : List (GlobalElementId × TypeId)) (self : Window GlobalElementId S) :
    Window GlobalElementId S :=
  { self with
    nextFrame := { self.nextFrame with
      accessedElementStates := self.nextFrame.accessedElementStates ++ keys } }

/-- `with_element_state` before the call of the closure, and the state that it is called with. -/
def beginAccess (key : GlobalElementId × TypeId) (self : Window GlobalElementId S) :
    Result (Option (S key.2) × Window GlobalElementId S) :=
  match (self.pushAccessed [key]).removeState key with
  | (some any, self) =>
    match any.downcast key.2 with
    | some (some state) => .ok (some state, self)
    | some none => .error .reentrant
    | none => .error .invalidType
  | (none, self) => .ok (none, self)

/-- `with_element_state` behind the call of the closure, which has returned `state`. -/
def endAccess (key : GlobalElementId × TypeId) (state : S key.2)
    (self : Window GlobalElementId S) : Window GlobalElementId S :=
  { self with nextFrame := self.nextFrame.insert key ⟨key.2, some state⟩ }

/-- `with_element_state`. -/
def withElementState {R : Type} (key : GlobalElementId × TypeId)
    (f : Option (S key.2) → Window GlobalElementId S →
      Result ((R × S key.2) × Window GlobalElementId S))
    (self : Window GlobalElementId S) : Result (R × Window GlobalElementId S) := do
  let (state, self) ← self.beginAccess key
  let ((result, state), self) ← f state self
  return (result, self.endAccess key state)

/-- `accessed_element_states_index` of `prepaint_index` and of `paint_index`. -/
def accessedElementStatesIndex (self : Window GlobalElementId S) : ℕ :=
  self.nextFrame.accessedElementStates.length

/-- `reuse_prepaint`, of a range of accessed states. -/
def reusePrepaint (range : ℕ × ℕ) (self : Window GlobalElementId S) :
    Result (Window GlobalElementId S) := do
  let keys ← slice self.renderedFrame.accessedElementStates range
  return self.pushAccessed keys

/-- `reuse_paint`, of a range of accessed states. -/
def reusePaint (range : ℕ × ℕ) (self : Window GlobalElementId S) :
    Result (Window GlobalElementId S) := do
  let keys ← slice self.renderedFrame.accessedElementStates range
  return self.pushAccessed keys

/-- `draw` behind the drawing of the roots: the next frame is finished, takes the place of the
rendered one, and a cleared frame is next. -/
def finishFrame (self : Window GlobalElementId S) : Window GlobalElementId S :=
  let (nextFrame, renderedFrame) := self.nextFrame.finish self.renderedFrame
  { renderedFrame := nextFrame, nextFrame := renderedFrame.clear }

end Window

/-! ### Runs -/

/-- What happens while frames are drawn. -/
inductive Event (GlobalElementId : Type) (S : TypeId → Type)
  /-- A closure is called with this state. -/
  | enter (key : GlobalElementId × TypeId) (state : Option (S key.2))
  /-- The closure of the key has returned this state. -/
  | leave (key : GlobalElementId × TypeId) (state : S key.2)
  /-- A range with the records of these keys is reused. -/
  | reuse (keys : List (GlobalElementId × TypeId))
  /-- The frame is finished. -/
  | finish

/-- What an event means for the states that are kept. -/
def Event.keeping : Event GlobalElementId S →
    List (Keeping (GlobalElementId × TypeId) fun key => S key.2)
  | enter key _ => [.use key]
  | leave key state => [.store key state]
  | reuse keys => keys.map .use
  | finish => [.turn]

/-- The uses and stores of a log. -/
def history (log : List (Event GlobalElementId S)) :
    List (Keeping (GlobalElementId × TypeId) fun key => S key.2) :=
  log.flatMap Event.keeping

/-- Drawing code, at one moment. -/
structure Config (GlobalElementId : Type) (S : TypeId → Type) where
  window : Window GlobalElementId S
  /-- The keys of the calls of `with_element_state` that have not returned, innermost first. -/
  stack : List (GlobalElementId × TypeId)
  log : List (Event GlobalElementId S)

/-- What drawing code does next. -/
inductive Operation (GlobalElementId : Type) (S : TypeId → Type)
  | enter (key : GlobalElementId × TypeId)
  | leave (key : GlobalElementId × TypeId) (state : S key.2)
  | reusePrepaint (range : ℕ × ℕ)
  | reusePaint (range : ℕ × ℕ)
  | finish

namespace Config

/-- Before the first frame. -/
def new : Config GlobalElementId S := ⟨.new, [], []⟩

/-- Drawing code may do the operation: a call is not reentrant for its key and returns before
those around it, a range is one of the rendered frame, and calls return within the frame. -/
def Allows (self : Config GlobalElementId S) : Operation GlobalElementId S → Prop
  | .enter key => key ∉ self.stack
  | .leave key _ => self.stack.head? = some key
  | .reusePrepaint range | .reusePaint range =>
    range.1 ≤ range.2 ∧ range.2 ≤ self.window.renderedFrame.accessedElementStates.length
  | .finish => self.stack = []

/-- The event of reusing a range. -/
def reused (range : ℕ × ℕ) (self : Config GlobalElementId S) : Event GlobalElementId S :=
  .reuse ((self.window.renderedFrame.accessedElementStates.take range.2).drop range.1)

/-- The operation is done. -/
def step (self : Config GlobalElementId S) :
    Operation GlobalElementId S → Result (Config GlobalElementId S)
  | .enter key => do
    let (state, window) ← self.window.beginAccess key
    return ⟨window, key :: self.stack, self.log ++ [.enter key state]⟩
  | .leave key state =>
    .ok ⟨self.window.endAccess key state, self.stack.tail, self.log ++ [.leave key state]⟩
  | .reusePrepaint range => do
    let window ← self.window.reusePrepaint range
    return { self with window := window, log := self.log ++ [self.reused range] }
  | .reusePaint range => do
    let window ← self.window.reusePaint range
    return { self with window := window, log := self.log ++ [self.reused range] }
  | .finish =>
    .ok { self with window := self.window.finishFrame, log := self.log ++ [.finish] }

/-- From one moment to another one. -/
inductive Run (start : Config GlobalElementId S) : Config GlobalElementId S → Prop
  | refl : Run start start
  | step {config config' : Config GlobalElementId S} (operation : Operation GlobalElementId S)
      (run : Run start config) (allows : config.Allows operation)
      (hstep : config.step operation = .ok config') : Run start config'

/-- A moment of any sequence of frames. -/
def Reachable (config : Config GlobalElementId S) : Prop := Run new config

end Config

end Zui.ElementState
