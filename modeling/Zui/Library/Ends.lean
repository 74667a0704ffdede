/-
Iterators over a list that are asked at both ends.

A step of such an iterator takes an element off one end of what is left (`End.take`).  Whatever
stands for the list, it is enough that each step follows `End.take` (`Follows`): then every order of
the two ends gives each element once, from the outside to the inside (`YieldsAll`), and nothing
after that.

* `runEnds_take` — what is given at the two ends and what is left make up the list;
* `Follows.yieldsAll` — an iterator that follows `End.take`.
-/
import Zui.Library.Loop

namespace Zui

/-- An end of a list. -/
inductive End
  | front
  | back
  deriving DecidableEq

variable {σ β : Type}

/-- Takes an element off an end. -/
def End.take : End → List β → Option β × List β
  | front, xs => (xs.head?, xs.tail)
  | back, xs => (xs.getLast?, xs.dropLast)

/-- What an iterator gives at some ends, one after the other. -/
def runEnds (step : End → σ → Option β × σ) : List End → σ → List (Option β) × σ
  | [], state => ([], state)
  | side :: sides, state =>
    let (item, state) := step side state
    let (items, state) := runEnds step sides state
    (item :: items, state)

/-- What is given at one of the ends. -/
def given (side : End) (sides : List End) (items : List (Option β)) : List β :=
  (sides.zip items).filterMap fun item => if item.1 = side then item.2 else none

/-- Every order of the two ends gives each element once, in order from both ends, and then
nothing. -/
structure YieldsAll (step : End → σ → Option β × σ) (state : σ) (xs : List β) : Prop where
  once : ∀ sides, ∃ left, left.length = xs.length - sides.length ∧
    given .front sides (runEnds step sides state).1 ++ left ++
      (given .back sides (runEnds step sides state).1).reverse = xs
  exhausted : ∀ sides side, xs.length ≤ sides.length →
    (step side (runEnds step sides state).2).1 = none

/-- The steps from what stands for a list take an element off an end of it. -/
def Follows (step : End → σ → Option β × σ) (stands : σ → List β → Prop) : Prop :=
  ∀ side state xs, stands state xs →
    (step side state).1 = (side.take xs).1 ∧ stands (step side state).2 (side.take xs).2

section Lists

variable {xs : List β}

theorem runEnds_cons {step : End → σ → Option β × σ} {side : End} {sides : List End} {state : σ} :
    runEnds step (side :: sides) state =
      ((step side state).1 :: (runEnds step sides (step side state).2).1,
        (runEnds step sides (step side state).2).2) := rfl

theorem given_cons {side side' : End} {sides : List End} {item : Option β}
    {items : List (Option β)} :
    given side (side' :: sides) (item :: items)
      = (if side' = side then item.toList else []) ++ given side sides items := by
  rw [given, List.zip_cons_cons, List.filterMap_cons]
  cases item with
  | none => split_ifs <;> simp [given]
  | some x => split_ifs <;> simp [given]

theorem End.length_take (side : End) : (side.take xs).2.length = xs.length - 1 := by
  cases side with
  | front => exact List.length_tail
  | back => exact List.length_dropLast

theorem End.take_eq_none {side : End} (h : xs = []) : (side.take xs).1 = none := by
  subst h
  cases side <;> rfl

theorem length_runEnds_take (sides : List End) :
    (runEnds End.take sides xs).2.length = xs.length - sides.length := by
  induction sides generalizing xs with
  | nil => rfl
  | cons side sides ih =>
    rw [runEnds_cons, ih, End.length_take, List.length_cons]
    omega

/-- **What is given at the two ends and what is left** make up the list. -/
theorem runEnds_take (sides : List End) :
    given .front sides (runEnds End.take sides xs).1 ++ (runEnds End.take sides xs).2 ++
      (given .back sides (runEnds End.take sides xs).1).reverse = xs := by
  induction sides generalizing xs with
  | nil => simp [given, runEnds]
  | cons side sides ih =>
    rw [runEnds_cons, given_cons, given_cons]
    cases side with
    | front =>
      rw [if_pos rfl, if_neg (by decide), List.nil_append, List.append_assoc, List.append_assoc,
        ← List.append_assoc (given _ _ _), ih]
      cases xs <;> rfl
    | back =>
      rw [if_neg (by decide), if_pos rfl, List.nil_append, List.reverse_append,
        ← List.append_assoc, ih]
      cases xs using List.reverseRecOn with
      | nil => rfl
      | append_singleton xs x => simp [End.take]

end Lists

namespace Follows

variable {step : End → σ → Option β × σ} {stands : σ → List β → Prop} {state : σ} {xs : List β}

/-- A run follows the one on the list. -/
theorem run (h : Follows step stands) (sides : List End) (hstate : stands state xs) :
    (runEnds step sides state).1 = (runEnds End.take sides xs).1 ∧
      stands (runEnds step sides state).2 (runEnds End.take sides xs).2 := by
  induction sides generalizing state xs with
  | nil => exact ⟨rfl, hstate⟩
  | cons side sides ih =>
    obtain ⟨hitem, hnext⟩ := h side state xs hstate
    obtain ⟨hitems, hrest⟩ := ih hnext
    rw [runEnds_cons, runEnds_cons, hitem, hitems]
    exact ⟨rfl, hrest⟩

/-- **An iterator that follows `End.take`** gives all elements of the list. -/
theorem yieldsAll (h : Follows step stands) (hstate : stands state xs) :
    YieldsAll step state xs := by
  constructor
  · intro sides
    obtain ⟨hitems, -⟩ := h.run sides hstate
    rw [hitems]
    exact ⟨(runEnds End.take sides xs).2, length_runEnds_take sides, runEnds_take sides⟩
  · intro sides side hlength
    obtain ⟨-, hrest⟩ := h.run sides hstate
    have hnil : (runEnds End.take sides xs).2 = [] := by
      rw [← List.length_eq_zero_iff, length_runEnds_take]
      omega
    rw [(h side _ _ hrest).1, End.take_eq_none hnil]

end Follows

end Zui
