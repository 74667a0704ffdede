/-
A cursor over a list, as an index.

The cursor is at an index of the list, or at one of its ends.  A move looks for the
nearest index in its direction at which a test stops it, and otherwise goes to the
end that it faces.  A cursor that was not moved yet is at neither end: it faces the
first element to its right and the last one to its left.

* `firstFrom_eq_atIndex`, `firstFrom_eq_afterLast` — where a move to the right ends;
* `lastBelow_eq_atIndex`, `lastBelow_eq_beforeFirst` — where a move to the left ends.
-/
import Mathlib

namespace Zui

/-- Where a cursor over a list may be. -/
inductive ListCursor
  | fresh
  | beforeFirst
  | atIndex (i : ℕ)
  | afterLast
  deriving DecidableEq, Repr

namespace ListCursor

variable {α : Type}

/-- How many of `n` elements are before the cursor. -/
def start (n : ℕ) : ListCursor → ℕ
  | fresh => 0
  | beforeFirst => 0
  | atIndex i => i
  | afterLast => n

/-- How many of `n` elements are before the cursor or at it. -/
def upTo (n : ℕ) : ListCursor → ℕ
  | fresh => 0
  | beforeFirst => 0
  | atIndex i => i + 1
  | afterLast => n

/-- How many of `n` elements are left of a cursor that looks to the left. -/
def leftOf (n : ℕ) : ListCursor → ℕ
  | fresh => n
  | beforeFirst => 0
  | atIndex i => i
  | afterLast => n

/-- The element at the cursor. -/
def current (xs : List α) : ListCursor → Option α
  | atIndex i => xs[i]?
  | _ => none

/-- The element to the right. -/
def following (xs : List α) (s : ListCursor) : Option α := xs[s.upTo xs.length]?

/-- The element to the left. -/
def preceding (xs : List α) (s : ListCursor) : Option α := (xs.take (s.leftOf xs.length)).getLast?

/-- The first of `m` indices from `i` on that stops a move, or the right end. -/
def firstOf (stops : ℕ → Bool) : ℕ → ℕ → ListCursor
  | 0, _ => afterLast
  | m + 1, i => if stops i then atIndex i else firstOf stops m (i + 1)

/-- The first index from `i` on that stops a move over `n` elements, or the right
end. -/
def firstFrom (stops : ℕ → Bool) (n i : ℕ) : ListCursor := firstOf stops (n - i) i

/-- The last index below `i` that stops a move, or the left end. -/
def lastBelow (stops : ℕ → Bool) : ℕ → ListCursor
  | 0 => beforeFirst
  | i + 1 => if stops i then atIndex i else lastBelow stops i

variable {stops : ℕ → Bool}

theorem firstOf_skip : ∀ {m i : ℕ} (k : ℕ), (∀ j, i ≤ j → j < i + k → stops j = false) →
    firstOf stops (k + m) i = firstOf stops m (i + k) := by
  intro m i k
  induction k generalizing i with
  | zero =>
    intro _
    simp
  | succ k ih =>
    intro hno
    have hi : stops i = false := hno i (Nat.le_refl i) (by omega)
    rw [show k + 1 + m = k + m + 1 by omega, firstOf, hi, if_neg (by simp),
      ih fun j hj hjk => hno j (by omega) (by omega)]
    congr 1
    omega

/-- A move to the right ends at the first index that stops it. -/
theorem firstFrom_eq_atIndex {n i j : ℕ} (hij : i ≤ j) (hjn : j < n)
    (hno : ∀ k, i ≤ k → k < j → stops k = false) (hj : stops j = true) :
    firstFrom stops n i = atIndex j := by
  obtain ⟨k, rfl⟩ := Nat.exists_eq_add_of_le hij
  obtain ⟨m, rfl⟩ := Nat.exists_eq_add_of_lt hjn
  rw [firstFrom, show i + k + m + 1 - i = k +
    (m + 1) by omega, firstOf_skip k hno, firstOf, if_pos hj]

/-- A move to the right that nothing stops ends behind the last element. -/
theorem firstFrom_eq_afterLast {n i : ℕ} (hno : ∀ k, i ≤ k → k < n → stops k = false) :
    firstFrom stops n i = afterLast := by
  have hskip : firstOf stops (n - i + 0) i = firstOf stops 0 (i + (n - i)) := firstOf_skip (n - i)
    fun j hj hjn => hno j hj (by omega)
  rw [firstFrom, ← Nat.add_zero (n - i), hskip, firstOf]

theorem firstOf_ne_fresh (stops : ℕ → Bool) : ∀ m i : ℕ, firstOf stops m i ≠ fresh := by
  intro m
  induction m with
  | zero =>
    intro i
    simp [firstOf]
  | succ m ih =>
    intro i
    rw [firstOf]
    split
    · simp
    · exact ih (i + 1)

theorem firstFrom_ne_fresh (stops : ℕ → Bool) (n i : ℕ) : firstFrom stops n i ≠ fresh :=
  firstOf_ne_fresh stops (n - i) i

theorem lastBelow_skip : ∀ {i : ℕ} (k : ℕ), (∀ j, i ≤ j → j < i + k → stops j = false) →
    lastBelow stops (i + k) = lastBelow stops i := by
  intro i k
  induction k with
  | zero =>
    intro _
    rfl
  | succ k ih =>
    intro hno
    have hk : stops (i + k) = false := hno (i + k) (by omega) (by omega)
    rw [← Nat.add_assoc, lastBelow, hk, if_neg (by simp), ih fun j hj hjk => hno j hj (by omega)]

/-- A move to the left ends at the last index that stops it. -/
theorem lastBelow_eq_atIndex {i j : ℕ} (hj : j < i) (hno : ∀ k, j < k → k < i → stops k = false)
    (hs : stops j = true) : lastBelow stops i = atIndex j := by
  obtain ⟨k, rfl⟩ := Nat.exists_eq_add_of_lt hj
  rw [show j + k + 1 = j + 1 + k by omega, lastBelow_skip k fun l hl hlk => hno l hl (by omega),
    lastBelow, if_pos hs]

/-- A move to the left that nothing stops ends before the first element. -/
theorem lastBelow_eq_beforeFirst {i : ℕ} (hno : ∀ k, k < i → stops k = false) :
    lastBelow stops i = beforeFirst := by
  have hskip : lastBelow stops (0 + i) = lastBelow stops 0 :=
    lastBelow_skip i fun j _ hj => hno j (by omega)
  rw [← Nat.zero_add i, hskip, lastBelow]

end ListCursor

end Zui
