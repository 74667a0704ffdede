/-
Key contexts, and the predicates that bindings put on them.

A dispatch path gives a stack of contexts, from the root to the focused node.  The
depth of a predicate is the length of the longest part of the stack, taken from the
root, at whose end the predicate holds.
-/
import Mathlib

namespace Zui.Keys

/-- `ContextEntry`. -/
structure ContextEntry where
  key : String
  value : Option String
  deriving DecidableEq, Repr

/-- `KeyContext`. -/
structure KeyContext where
  entries : List ContextEntry
  deriving DecidableEq, Repr

namespace KeyContext

/-- `contains`. -/
def contains (self : KeyContext) (key : String) : Bool :=
  self.entries.any fun entry => entry.key = key

/-- `get`. -/
def get (self : KeyContext) (key : String) : Option String :=
  (self.entries.find? fun entry => entry.key = key).bind ContextEntry.value

end KeyContext

/-- `KeyBindingContextPredicate`. -/
inductive KeyBindingContextPredicate
  | identifier (name : String)
  | equal (left right : String)
  | notEqual (left right : String)
  | descendant (parent child : KeyBindingContextPredicate)
  | not (pred : KeyBindingContextPredicate)
  | and (left right : KeyBindingContextPredicate)
  | or (left right : KeyBindingContextPredicate)
  deriving DecidableEq, Repr

namespace KeyBindingContextPredicate

/-- `eval_inner`.  The last of the contexts is the one that is looked at. -/
def evalInner : KeyBindingContextPredicate → List KeyContext → List KeyContext → Bool
  | identifier name, contexts, _ => contexts.getLast?.any fun context => context.contains name
  | equal left right, contexts, _ =>
    contexts.getLast?.any fun context => (context.get left).any fun value => value = right
  | notEqual left right, contexts, _ =>
    contexts.getLast?.any fun context => (context.get left).all fun value => value ≠ right
  | not pred, contexts, allContexts =>
    contexts.getLast?.isSome &&
      (List.range allContexts.length).all fun i =>
        !pred.evalInner (allContexts.take (i + 1)) allContexts
  | descendant parent child, contexts, allContexts =>
    -- The loop returns at the first context that the parent matches.
    match (List.range (contexts.length - 1)).find? fun i =>
      parent.evalInner (contexts.take (i + 1)) allContexts with
    | some i => child.evalInner (contexts.drop (i + 1)) (contexts.drop (i + 1))
    | none => false
  | and left right, contexts, allContexts =>
    contexts.getLast?.isSome &&
      (left.evalInner contexts allContexts && right.evalInner contexts allContexts)
  | or left right, contexts, allContexts =>
    contexts.getLast?.isSome &&
      (left.evalInner contexts allContexts || right.evalInner contexts allContexts)

section EvalInner

variable (name left right : String) (parent child pred : KeyBindingContextPredicate)
  (contexts allContexts : List KeyContext)

theorem evalInner_identifier : (identifier name).evalInner contexts allContexts =
    contexts.getLast?.any fun context => context.contains name := rfl

theorem evalInner_equal : (equal left right).evalInner contexts allContexts =
    contexts.getLast?.any fun context => (context.get left).any fun value => value = right := rfl

theorem evalInner_notEqual : (notEqual left right).evalInner contexts allContexts =
    contexts.getLast?.any fun context => (context.get left).all fun value => value ≠ right := rfl

theorem evalInner_not : (not pred).evalInner contexts allContexts =
    (contexts.getLast?.isSome && (List.range allContexts.length).all fun i =>
      !pred.evalInner (allContexts.take (i + 1)) allContexts) := rfl

theorem evalInner_descendant : (descendant parent child).evalInner contexts allContexts =
    match (List.range (contexts.length - 1)).find? fun i =>
      parent.evalInner (contexts.take (i + 1)) allContexts with
    | some i => child.evalInner (contexts.drop (i + 1)) (contexts.drop (i + 1))
    | none => false := rfl

theorem evalInner_and : (and parent child).evalInner contexts allContexts =
    (contexts.getLast?.isSome &&
      (parent.evalInner contexts allContexts && child.evalInner contexts allContexts)) := rfl

theorem evalInner_or : (or parent child).evalInner contexts allContexts =
    (contexts.getLast?.isSome &&
      (parent.evalInner contexts allContexts || child.evalInner contexts allContexts)) := rfl

end EvalInner

/-- `depth_of`. -/
def depthOf (self : KeyBindingContextPredicate) (contexts : List KeyContext) : Option ℕ :=
  (List.range (contexts.length + 1)).reverse.find? fun depth =>
    self.evalInner (contexts.take depth) contexts

end KeyBindingContextPredicate

end Zui.Keys
