/-
The keymap: which bindings a sequence of keystrokes has.

`bindingsForInput` returns the bindings whose keystrokes are the input, in order of
precedence and without those that a `NoAction` or an `Unbind` disables, and a flag
that says whether a longer input could have bindings.

Design notes:

* the code is that of the builds for other systems than Windows, where a keystroke of
  the keymap holds nothing but a `Keystroke`;
* an action is a `NoAction`, an `Unbind` with the name that it unbinds, or another one
  with its name and its fields, which are kept as a text: `partial_eq` is equality;
* `pending` is a set of keystroke sequences: a list without repetitions.
-/
import Zui.Keys.Context

namespace Zui.Keys

/-- `Modifiers`. -/
structure Modifiers where
  control : Bool
  alt : Bool
  shift : Bool
  platform : Bool
  function : Bool
  deriving DecidableEq, Repr

/-- `Keystroke`. -/
structure Keystroke where
  modifiers : Modifiers
  key : String
  keyChar : Option String
  deriving DecidableEq, Repr

/-- `KeybindingKeystroke`. -/
structure KeybindingKeystroke where
  inner : Keystroke
  deriving DecidableEq, Repr

namespace Keystroke

/-- The modifiers that are left when the key was typed through an input method. -/
def imeModifiers (self : Keystroke) : Modifiers where
  control := self.modifiers.control
  alt := false
  shift := false
  platform := self.modifiers.platform
  function := false

/-- Whether the typed character is that of the target. -/
def charMatch (self : Keystroke) (target : KeybindingKeystroke) : Bool :=
  match self.keyChar.filter fun keyChar => keyChar ≠ self.key with
  | some keyChar => target.inner.key = keyChar && target.inner.modifiers = self.imeModifiers
  | none => false

/-- `should_match`. -/
def shouldMatch (self : Keystroke) (target : KeybindingKeystroke) : Bool :=
  self.charMatch target ||
    (target.inner.modifiers = self.modifiers && target.inner.key = self.key)

end Keystroke

/-- The actions that bindings dispatch. -/
inductive Action
  | noAction
  | unbind (name : String)
  | named (name : String) (fields : String := "")
  deriving DecidableEq, Repr

namespace Action

/-- `Action::name`. -/
def name : Action → String
  | noAction => "zed::NoAction"
  | unbind _ => "zed::Unbind"
  | named name _ => name

/-- `is_no_action`. -/
def isNoAction : Action → Bool
  | noAction => true
  | _ => false

/-- `is_unbind`. -/
def isUnbind : Action → Bool
  | unbind _ => true
  | _ => false

end Action

/-- `KeyBinding`. -/
structure KeyBinding where
  action : Action
  keystrokes : List KeybindingKeystroke
  contextPredicate : Option KeyBindingContextPredicate
  metaIndex : Option ℕ
  deriving DecidableEq, Repr

namespace KeyBinding

/-- `match_keystrokes`. -/
def matchKeystrokes (self : KeyBinding) (typed : List Keystroke) : Option Bool :=
  if self.keystrokes.length < typed.length then none
  else if (self.keystrokes.zip typed).any fun (target, typed) => !typed.shouldMatch target then none
  else some (self.keystrokes.length > typed.length)

end KeyBinding

/-- `binding_is_unbound`. -/
def bindingIsUnbound (disabledBinding binding : KeyBinding) : Bool :=
  disabledBinding.keystrokes = binding.keystrokes &&
    match disabledBinding.action with
    | .unbind name => name = binding.action.name
    | _ => false

/-- `Keymap`. -/
structure Keymap where
  bindings : List KeyBinding

namespace Keymap

/-- `binding_enabled`. -/
def bindingEnabled (binding : KeyBinding) (contexts : List KeyContext) : Option ℕ :=
  match binding.contextPredicate with
  | some predicate => predicate.depthOf contexts
  | none => some contexts.length

/-- A binding with its depth and its index in the keymap. -/
structure Match where
  depth : ℕ
  ix : ℕ
  binding : KeyBinding

/-- The bindings that the first loop of `bindings_for_input` goes on with, in its
order, with whether they are pending. -/
def candidates (self : Keymap) (input : List Keystroke) (contextStack : List KeyContext) :
    List (Match × Bool) :=
  self.bindings.zipIdx.reverse.filterMap fun (binding, ix) => do
    let depth ← bindingEnabled binding contextStack
    let pending ← binding.matchKeystrokes input
    some (⟨depth, ix, binding⟩, pending)

/-- The order of precedence: by depth, and then by index. -/
def Match.Precedes (a b : Match) : Prop :=
  b.depth < a.depth ∨ (a.depth = b.depth ∧ b.ix ≤ a.ix)

instance : DecidableRel Match.Precedes := fun a b =>
  inferInstanceAs (Decidable (b.depth < a.depth ∨ (a.depth = b.depth ∧ b.ix ≤ a.ix)))

/-- Whether the loop over the matches ends at a `NoAction`: it is one of the user. -/
def KeyBinding.isUser (binding : KeyBinding) : Bool :=
  match binding.metaIndex with
  | some metaIndex => metaIndex = 0
  | none => true

/-- The loop over the sorted matches, with the `Unbind` bindings it has passed. -/
def collectBindings : List Match → List KeyBinding → List Match
  | [], _ => []
  | m :: matches_, unboundBindings =>
    if m.binding.action.isNoAction then
      if KeyBinding.isUser m.binding then [] else collectBindings matches_ unboundBindings
    else if m.binding.action.isUnbind then
      collectBindings matches_ (unboundBindings ++ [m.binding])
    else if unboundBindings.any fun disabled => bindingIsUnbound disabled m.binding then
      collectBindings matches_ unboundBindings
    else m :: collectBindings matches_ unboundBindings

/-- The body of the loop over the pending bindings. -/
def pendingStep (firstBindingIndex : Option ℕ) (pending : List (List KeybindingKeystroke))
    (m : Match) : List (List KeybindingKeystroke) :=
  if firstBindingIndex.any fun bindingIx => bindingIx > m.ix then pending
  else if m.binding.action.isNoAction || m.binding.action.isUnbind then
    pending.erase m.binding.keystrokes
  else pending.insert m.binding.keystrokes

/-- The sorted matches. -/
def sortedMatches (self : Keymap) (input : List Keystroke) (contextStack : List KeyContext) :
    List Match :=
  (((self.candidates input contextStack).filter fun c => !c.2).map Prod.fst).insertionSort
    Match.Precedes

/-- The pending bindings, in the order of the keymap. -/
def pendingBindings (self : Keymap) (input : List Keystroke) (contextStack : List KeyContext) :
    List Match :=
  (((self.candidates input contextStack).filter fun c => c.2).map Prod.fst).reverse

/-- `bindings_for_input`. -/
def bindingsForInput (self : Keymap) (input : List Keystroke) (contextStack : List KeyContext) :
    List KeyBinding × Bool :=
  let matched := collectBindings (self.sortedMatches input contextStack) []
  let firstBindingIndex := matched.head?.map Match.ix
  let pending := (self.pendingBindings input contextStack).foldl (pendingStep firstBindingIndex) []
  (matched.map Match.binding, !pending.isEmpty)

end Keymap

end Zui.Keys
