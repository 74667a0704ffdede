/-
How the predicates of contexts are printed.

The sides of `&&` and of `||` are printed in parentheses where they are of the other kind.
Those that are a `>` are not, nor is a `>` on the right side of another one, although `>`
binds least of all operators and to the left.

Main definitions:

* `display` — the printed predicate;
* `regroup` — the predicate with its `&&`s and `||`s grouped to the left;
* `Grouped` — no `>` is a side of an `&&` or `||`, or the right side of a `>`.

Main statements:

* `evalInner_regroup` — regrouping does not change the meaning.
-/
import Zui.Keys.Superset

namespace Zui.Keys

/-- `LogicalOperator`. -/
inductive LogicalOperator
  | and
  | or
  deriving DecidableEq, Repr

namespace LogicalOperator

/-- The separator that `fmt_joined` is called with. -/
def separator : LogicalOperator → List Char
  | and => [' ', '&', '&', ' ']
  | or => [' ', '|', '|', ' ']

/-- The test `needs_parens` that `fmt_joined` is called with. -/
def needsParens : LogicalOperator → KeyBindingContextPredicate → Bool
  | and, .or _ _ => true
  | or, .and _ _ => true
  | _, _ => false

/-- The sides of a predicate that the operator joins. -/
def sides : LogicalOperator → KeyBindingContextPredicate →
    Option (KeyBindingContextPredicate × KeyBindingContextPredicate)
  | and, .and left right => some (left, right)
  | or, .or left right => some (left, right)
  | _, _ => none

/-- The predicate that the operator joins two sides to. -/
def join : LogicalOperator → KeyBindingContextPredicate → KeyBindingContextPredicate →
    KeyBindingContextPredicate
  | and => .and
  | or => .or

theorem sides_eq_some_iff {operator : LogicalOperator}
    {self left right : KeyBindingContextPredicate} :
    operator.sides self = some (left, right) ↔ self = operator.join left right := by
  cases operator <;> cases self <;> simp [sides, join]

theorem sizeOf_sides {operator : LogicalOperator} {self left right : KeyBindingContextPredicate}
    (h : operator.sides self = some (left, right)) :
    sizeOf left < sizeOf self ∧ sizeOf right < sizeOf self := by
  obtain rfl := sides_eq_some_iff.mp h
  cases operator
  · exact ⟨by simp [join]; omega, by simp [join]⟩
  · exact ⟨by simp [join]; omega, by simp [join]⟩

end LogicalOperator

namespace KeyBindingContextPredicate

mutual

/-- `fmt`. -/
def display (self : KeyBindingContextPredicate) : List Char :=
  match self with
  | identifier name => name.toList
  | equal left right => left.toList ++ [' ', '=', '=', ' '] ++ right.toList
  | notEqual left right => left.toList ++ [' ', '!', '=', ' '] ++ right.toList
  | descendant parent child => display parent ++ [' ', '>', ' '] ++ display child
  | not (identifier name) => '!' :: name.toList
  | not pred => ['!', '('] ++ display pred ++ [')']
  | and left right => (fmtJoinedInner .and (and left right) true).1
  | or left right => (fmtJoinedInner .or (or left right) true).1
termination_by (sizeOf self, 1)
decreasing_by
  all_goals first | decreasing_tactic | exact .right _ (by simp [LogicalOperator.sides])

/-- `fmt_joined_inner`, with what it has printed and whether it is the first to print. -/
def fmtJoinedInner (operator : LogicalOperator) (self : KeyBindingContextPredicate)
    (first : Bool) : List Char × Bool :=
  match _ : operator.sides self with
  | some (left, right) =>
    let (text, first) := fmtJoinedInner operator left first
    let (text', first) := fmtJoinedInner operator right first
    (text ++ text', first)
  | none =>
    let text := if first then [] else operator.separator
    if operator.needsParens self then (text ++ ['('] ++ display self ++ [')'], false)
    else (text ++ display self, false)
termination_by (sizeOf self, if (operator.sides self).isSome then 0 else 2)
decreasing_by
  · exact .left _ _ (LogicalOperator.sizeOf_sides ‹_›).1
  · exact .left _ _ (LogicalOperator.sizeOf_sides ‹_›).2
  · rw [‹operator.sides self = none›]
    exact .right _ (by decide)
  · rw [‹operator.sides self = none›]
    exact .right _ (by decide)

end

/-- What `fmt_joined_inner` prints as the first. -/
def joined (operator : LogicalOperator) (self : KeyBindingContextPredicate) : List Char :=
  (fmtJoinedInner operator self true).1

/-- A side that is printed after the sides of `acc`. -/
def joinTo (operator : LogicalOperator) (acc : KeyBindingContextPredicate) :
    KeyBindingContextPredicate → KeyBindingContextPredicate
  | and left right =>
    if operator = .and then and (joinTo operator acc left) right
    else operator.join acc (and left right)
  | or left right =>
    if operator = .or then or (joinTo operator acc left) right
    else operator.join acc (or left right)
  | self => operator.join acc self

/-- The predicate with its `&&`s and `||`s grouped to the left. -/
def regroup : KeyBindingContextPredicate → KeyBindingContextPredicate
  | identifier name => identifier name
  | equal left right => equal left right
  | notEqual left right => notEqual left right
  | descendant parent child => descendant (regroup parent) (regroup child)
  | not pred => not (regroup pred)
  | and left right => joinTo .and (regroup left) (regroup right)
  | or left right => joinTo .or (regroup left) (regroup right)

/-- Whether a predicate is a `>`. -/
def isDescendant : KeyBindingContextPredicate → Bool
  | descendant _ _ => true
  | _ => false

/-- No `>` is a side of an `&&` or an `||`, or the right side of a `>`. -/
def Grouped : KeyBindingContextPredicate → Bool
  | identifier _ => true
  | equal _ _ => true
  | notEqual _ _ => true
  | descendant parent child => Grouped parent && Grouped child && !isDescendant child
  | not pred => Grouped pred
  | and left right => Grouped left && Grouped right && !isDescendant left && !isDescendant right
  | or left right => Grouped left && Grouped right && !isDescendant left && !isDescendant right

/-! ### The printed text -/

variable {operator : LogicalOperator} {self left right : KeyBindingContextPredicate} {first : Bool}

theorem fmtJoinedInner_join : fmtJoinedInner operator (operator.join left right) first =
    ((fmtJoinedInner operator left first).1 ++
        (fmtJoinedInner operator right (fmtJoinedInner operator left first).2).1,
      (fmtJoinedInner operator right (fmtJoinedInner operator left first).2).2) := by
  rw [fmtJoinedInner]
  split
  · rename_i left' right' h
    have h' := LogicalOperator.sides_eq_some_iff.mp h
    cases operator <;> cases h' <;> rfl
  · rename_i h
    cases operator <;> cases h

theorem fmtJoinedInner_side (h : operator.sides self = none) :
    fmtJoinedInner operator self first =
      ((if first then [] else operator.separator) ++
        (if operator.needsParens self then ['('] ++ display self ++ [')'] else display self),
          false) := by
  rw [fmtJoinedInner]
  split
  · rename_i h'
    cases h.symm.trans h'
  · cases first <;> cases operator.needsParens self <;> simp

/-- Only the separator depends on whether something was printed before. -/
theorem fmtJoinedInner_eq (operator : LogicalOperator) (self : KeyBindingContextPredicate)
    (first : Bool) : fmtJoinedInner operator self first =
      ((if first then [] else operator.separator) ++ joined operator self, false) := by
  cases h : operator.sides self with
  | none =>
    rw [joined, fmtJoinedInner_side h, fmtJoinedInner_side h]
    rfl
  | some sides =>
    obtain ⟨left, right⟩ := sides
    have hlt := LogicalOperator.sizeOf_sides h
    rw [LogicalOperator.sides_eq_some_iff.mp h, joined, fmtJoinedInner_join, fmtJoinedInner_join]
    have hleft := fmtJoinedInner_eq operator left
    have hright := fmtJoinedInner_eq operator right
    simp [hleft, hright]
termination_by sizeOf self
decreasing_by
  · exact hlt.1
  · exact hlt.2

theorem joined_join : joined operator (operator.join left right) =
    joined operator left ++ operator.separator ++ joined operator right := by
  rw [joined, fmtJoinedInner_join, fmtJoinedInner_eq, fmtJoinedInner_eq operator right]
  simp

theorem joined_side (h : operator.sides self = none) : joined operator self =
    if operator.needsParens self then ['('] ++ display self ++ [')'] else display self := by
  rw [joined, fmtJoinedInner_side h]
  rfl

theorem display_not (h : ∀ name, self ≠ identifier name) :
    display (not self) = ['!', '('] ++ display self ++ [')'] := by
  rw [display]
  exact h

theorem display_join :
    display (operator.join left right) = joined operator (operator.join left right) := by
  cases operator <;> exact display.eq_def _

/-! ### The meaning of a regrouped predicate -/

variable {acc p : KeyBindingContextPredicate} {contexts allContexts : List KeyContext}

theorem evalInner_join_congr {left' right' : KeyBindingContextPredicate}
    (hleft : left.evalInner contexts allContexts = left'.evalInner contexts allContexts)
    (hright : right.evalInner contexts allContexts = right'.evalInner contexts allContexts) :
    (operator.join left right).evalInner contexts allContexts =
      (operator.join left' right').evalInner contexts allContexts := by
  cases operator <;> simp only [LogicalOperator.join, evalInner, hleft, hright]

theorem evalInner_join_assoc :
    (operator.join (operator.join acc left) right).evalInner contexts allContexts =
      (operator.join acc (operator.join left right)).evalInner contexts allContexts := by
  rw [Bool.eq_iff_iff]
  cases operator with
  | and => simp only [LogicalOperator.join, evalInner_and_iff, and_assoc]
  | or => simp only [LogicalOperator.join, evalInner_or_iff, or_assoc]

theorem joinTo_join : joinTo operator acc (operator.join left right) =
    operator.join (joinTo operator acc left) right := by
  cases operator <;> rfl

theorem joinTo_side (h : operator.sides self = none) :
    joinTo operator acc self = operator.join acc self := by
  cases operator <;> cases self <;> first | rfl | cases h

theorem evalInner_joinTo (operator : LogicalOperator) (acc self : KeyBindingContextPredicate) :
    (joinTo operator acc self).evalInner contexts allContexts =
      (operator.join acc self).evalInner contexts allContexts := by
  cases h : operator.sides self with
  | none => rw [joinTo_side h]
  | some sides =>
    obtain ⟨left, right⟩ := sides
    have hlt := LogicalOperator.sizeOf_sides h
    rw [LogicalOperator.sides_eq_some_iff.mp h, joinTo_join, ← evalInner_join_assoc]
    exact evalInner_join_congr (evalInner_joinTo operator acc left) rfl
termination_by sizeOf self
decreasing_by exact hlt.1

theorem evalInner_regroup (self : KeyBindingContextPredicate)
    (contexts allContexts : List KeyContext) :
    (regroup self).evalInner contexts allContexts = self.evalInner contexts allContexts := by
  induction self generalizing contexts allContexts with
  | identifier name => rfl
  | equal left right => rfl
  | notEqual left right => rfl
  | descendant parent child ihparent ihchild =>
    simp only [regroup, evalInner, ihparent, ihchild]
  | not pred ih => simp only [regroup, evalInner, ih]
  | and left right ihleft ihright =>
    rw [regroup, evalInner_joinTo]
    exact evalInner_join_congr (ihleft _ _) (ihright _ _)
  | or left right ihleft ihright =>
    rw [regroup, evalInner_joinTo]
    exact evalInner_join_congr (ihleft _ _) (ihright _ _)

theorem eval_regroup (self : KeyBindingContextPredicate) (contexts : List KeyContext) :
    (regroup self).eval contexts = self.eval contexts :=
  evalInner_regroup self contexts contexts

theorem depthOf_regroup (self : KeyBindingContextPredicate) (contexts : List KeyContext) :
    (regroup self).depthOf contexts = self.depthOf contexts := by
  simp only [depthOf, evalInner_regroup]

theorem joinTo_assoc (operator : LogicalOperator) (acc self p : KeyBindingContextPredicate) :
    joinTo operator (joinTo operator acc self) p =
      joinTo operator acc (joinTo operator self p) := by
  cases h : operator.sides p with
  | none => rw [joinTo_side h, joinTo_side h, joinTo_join]
  | some sides =>
    obtain ⟨left, right⟩ := sides
    have hlt := LogicalOperator.sizeOf_sides h
    rw [LogicalOperator.sides_eq_some_iff.mp h, joinTo_join, joinTo_join, joinTo_join,
      joinTo_assoc operator acc self left]
termination_by sizeOf p
decreasing_by exact hlt.1

theorem regroup_join : regroup (operator.join left right) =
    joinTo operator (regroup left) (regroup right) := by
  cases operator <;> rfl

theorem sides_joinTo_of_ne {operator' : LogicalOperator} (h : operator ≠ operator') :
    operator.sides (joinTo operator' acc self) = none := by
  cases operator <;> cases operator' <;> cases self <;> first | rfl | exact absurd rfl h

theorem sides_regroup (h : operator.sides self = none) : operator.sides (regroup self) = none := by
  cases self with
  | and left right =>
    cases operator with
    | and => cases h
    | or => exact sides_joinTo_of_ne (by decide)
  | or left right =>
    cases operator with
    | and => exact sides_joinTo_of_ne (by decide)
    | or => cases h
  | _ => cases operator <;> rfl

end KeyBindingContextPredicate

end Zui.Keys
