/-
Lists that hold the elements of several lanes.

A lane is what a predicate picks out of the list.  An element that is inserted behind the last
one of its lane goes to the end of the lane, one that is removed in front of all others of its
lane was the first of it, and neither changes another lane.

* `rposition` — the offset of the last element of a lane;
* `filter_insertIdx`, `filter_insertIdx_of_not` — what an insertion does to a lane;
* `filter_eraseIdx`, `filter_eraseIdx_of_not` — what a removal does to a lane.
-/
import Mathlib

namespace Zui

variable {α : Type} {p : α → Bool}

/-- The offset of the last element that has the property. -/
def rposition (p : α → Bool) : List α → Option ℕ
  | [] => none
  | x :: xs =>
    match rposition p xs with
    | some i => some (i + 1)
    | none => if p x then some 0 else none

/-- The offset behind the last element that has the property. -/
def behindLast (p : α → Bool) (xs : List α) : ℕ :=
  match rposition p xs with
  | some i => i + 1
  | none => 0

theorem behindLast_cons {x : α} {xs : List α} :
    behindLast p (x :: xs) =
      if behindLast p xs = 0 then if p x then 1 else 0 else behindLast p xs + 1 := by
  rw [behindLast, behindLast, rposition]
  cases rposition p xs with
  | some i => simp
  | none =>
    by_cases hx : p x = true
    · simp [hx]
    · simp [hx]

theorem behindLast_le {xs : List α} : behindLast p xs ≤ xs.length := by
  induction xs with
  | nil => exact le_refl 0
  | cons x xs ih =>
    rw [behindLast_cons, List.length_cons]
    split_ifs
    · omega
    · omega
    · omega

theorem filter_drop_behindLast {xs : List α} : ∀ {i : ℕ}, behindLast p xs ≤ i →
    (xs.drop i).filter p = [] := by
  induction xs with
  | nil =>
    intro i _
    simp
  | cons x xs ih =>
    intro i h
    rw [behindLast_cons] at h
    cases i with
    | zero =>
      by_cases hzero : behindLast p xs = 0
      · by_cases hx : p x = true
        · rw [if_pos hzero, if_pos hx] at h
          omega
        · rw [List.drop_zero, List.filter_cons_of_neg hx, ← List.drop_zero (l := xs)]
          exact ih (by omega)
      · rw [if_neg hzero] at h
        omega
    | succ i =>
      refine ih ?_
      split_ifs at h
      · omega
      · omega
      · omega

theorem insertIdx_eq {a : α} {xs : List α} : ∀ {i : ℕ}, i ≤ xs.length →
    xs.insertIdx i a = xs.take i ++ a :: xs.drop i := by
  induction xs with
  | nil =>
    intro i h
    rw [Nat.le_zero.mp h]
    rfl
  | cons x xs ih =>
    intro i h
    cases i with
    | zero => rfl
    | succ i =>
      rw [List.insertIdx_succ_cons, ih (by simpa using h)]
      rfl

/-- **Insertion** behind the last element of a lane. -/
theorem filter_insertIdx {a : α} {xs : List α} {i : ℕ} (ha : p a = true)
    (hle : i ≤ xs.length) (hlast : behindLast p xs ≤ i) :
    (xs.insertIdx i a).filter p = xs.filter p ++ [a] := by
  have hdrop := filter_drop_behindLast hlast
  rw [insertIdx_eq hle, List.filter_append, List.filter_cons_of_pos ha, hdrop]
  conv_rhs => rw [← List.take_append_drop i xs, List.filter_append, hdrop, List.append_nil]

theorem filter_insertIdx_of_not {a : α} {xs : List α} {i : ℕ} (ha : ¬ p a = true)
    (hle : i ≤ xs.length) : (xs.insertIdx i a).filter p = xs.filter p := by
  rw [insertIdx_eq hle, List.filter_append, List.filter_cons_of_neg ha, ← List.filter_append,
    List.take_append_drop]

theorem eraseIdx_append_cons {a : α} {before after : List α} :
    (before ++ a :: after).eraseIdx before.length = before ++ after := by
  rw [List.eraseIdx_append_of_length_le (le_refl _), Nat.sub_self]
  rfl

/-- **Removal** of the first element of a lane. -/
theorem filter_eraseIdx {a : α} {before after : List α} (ha : p a = true)
    (hfirst : ∀ x ∈ before, ¬ p x = true) :
    (before ++ a :: after).filter p
      = a :: ((before ++ a :: after).eraseIdx before.length).filter p := by
  have hbefore : before.filter p = [] := List.filter_eq_nil_iff.mpr hfirst
  rw [eraseIdx_append_cons, List.filter_append, List.filter_append, hbefore,
    List.filter_cons_of_pos ha]
  rfl

theorem filter_eraseIdx_of_not {a : α} {before after : List α} (ha : ¬ p a = true) :
    ((before ++ a :: after).eraseIdx before.length).filter p
      = (before ++ a :: after).filter p := by
  rw [eraseIdx_append_cons, List.filter_append, List.filter_append, List.filter_cons_of_neg ha]

end Zui
