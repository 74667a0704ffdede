/-
Panics, indices and draw orders of `gpui`.

Every panic of the modelled code is a value of `Panic`, and a function that can panic
returns in `Except Panic`.  A draw order is a `u32`: adding one to the greatest one is
the error `Panic.arithmeticOverflow`, as with the overflow checks of a debug build.
-/
import Zui.Library.Loop

namespace Zui.Gpui

/-- The ways in which the code panics. -/
inductive Panic
  /-- A slice or array index past the end. -/
  | indexOutOfBounds
  /-- An addition that leaves its integer type. -/
  | arithmeticOverflow
  /-- `unreachable!()`. -/
  | unreachable
  /-- `unwrap` of a `None`. -/
  | unwrapNone
  /-- Not a panic of the code: a loop of the model used up its fuel. -/
  | outOfFuel
  deriving DecidableEq, Repr

/-- What a function that may panic returns. -/
abbrev Result (α : Type) : Type := Except Panic α

/-- `xs[i]`. -/
def index {α : Type} (xs : List α) (i : ℕ) : Result α :=
  match xs[i]? with
  | some x => .ok x
  | none => .error .indexOutOfBounds

theorem index_ok {α : Type} {xs : List α} {i : ℕ} {x : α} (h : xs[i]? = some x) :
    index xs i = .ok x := by
  rw [index, h]

/-- `u32::MAX`. -/
def u32Max : ℕ := 2 ^ 32 - 1

/-- `order + 1`. -/
def succOrder (order : ℕ) : Result ℕ :=
  if order < u32Max then .ok (order + 1) else .error .arithmeticOverflow

end Zui.Gpui
