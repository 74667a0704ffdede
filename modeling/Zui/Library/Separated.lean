/-
Lists of parts that are written with a separator between them.

`[sep].intercalate parts` writes the parts; splitting at the separator reads them
(`List.splitOn_intercalate`).  The lemmas here say what cutting such a list at the first or at
the last separator does, and what becomes of the parts of a list when one is split by a
predicate and its elements are mapped.

* `lastIdxOf?` — the offset of the last separator;
* `idxOf?_append_cons`, `lastIdxOf?_append_cons` — the offsets at which a list is cut;
* `intercalate_append`, `intercalate_concat` — writing more parts;
* `separator_free` — no part holds a separator.
-/
import Mathlib

namespace Zui

variable {α β : Type}

section Offsets

variable [DecidableEq α] {sep : α}

/-- The offset of the last `sep` in a list. -/
def lastIdxOf? (sep : α) : List α → Option ℕ
  | [] => none
  | x :: xs =>
    match lastIdxOf? sep xs with
    | some i => some (i + 1)
    | none => if x = sep then some 0 else none

theorem idxOf?_append_cons {xs ys : List α} (h : sep ∉ xs) :
    (xs ++ sep :: ys).idxOf? sep = some xs.length := by
  induction xs with
  | nil => simp [List.idxOf?_cons]
  | cons x xs ih =>
    rw [List.mem_cons, not_or] at h
    rw [List.cons_append, List.idxOf?_cons, ih h.2, if_neg (by simpa using Ne.symm h.1)]
    rfl

theorem lastIdxOf?_eq_none {xs : List α} (h : sep ∉ xs) : lastIdxOf? sep xs = none := by
  induction xs with
  | nil => rfl
  | cons x xs ih =>
    rw [List.mem_cons, not_or] at h
    rw [lastIdxOf?, ih h.2]
    exact if_neg (Ne.symm h.1)

theorem lastIdxOf?_append_cons {xs ys : List α} (h : sep ∉ ys) :
    lastIdxOf? sep (xs ++ sep :: ys) = some xs.length := by
  induction xs with
  | nil =>
    show lastIdxOf? sep (sep :: ys) = some 0
    rw [lastIdxOf?, lastIdxOf?_eq_none h]
    exact if_pos rfl
  | cons x xs ih =>
    rw [List.cons_append, lastIdxOf?, ih]
    rfl

omit [DecidableEq α] in
theorem eq_append_last {xs : List α} (h : sep ∈ xs) :
    ∃ ys zs, xs = ys ++ sep :: zs ∧ sep ∉ zs := by
  obtain ⟨zs, ys, hsplit, hnot⟩ :=
    List.eq_append_cons_of_mem (List.mem_reverse.mpr h)
  refine ⟨ys.reverse, zs.reverse, ?_, by simpa using hnot⟩
  have := congrArg List.reverse hsplit
  simpa using this

end Offsets

section Parts

variable {sep : α}

theorem intercalate_append {xs ys : List (List α)} (hx : xs ≠ []) (hy : ys ≠ []) :
    [sep].intercalate (xs ++ ys) = [sep].intercalate xs ++ sep :: [sep].intercalate ys := by
  induction xs with
  | nil => exact absurd rfl hx
  | cons x xs ih =>
    by_cases h : xs = []
    · subst h
      rw [List.singleton_append, List.intercalate_cons_of_ne_nil hy, List.intercalate_singleton,
        List.append_assoc]
      rfl
    · rw [List.cons_append, List.intercalate_cons_of_ne_nil (by simp [h]), ih h,
        List.intercalate_cons_of_ne_nil h]
      simp

theorem intercalate_concat {xs : List (List α)} {y : List α} (hx : xs ≠ []) :
    [sep].intercalate (xs ++ [y]) = [sep].intercalate xs ++ sep :: y := by
  rw [intercalate_append hx (by simp), List.intercalate_singleton]

theorem intercalate_eq_nil {xs : List (List α)} (h : ∀ x ∈ xs, x ≠ []) :
    [sep].intercalate xs = [] ↔ xs = [] := by
  constructor
  · intro hnil
    cases xs with
    | nil => rfl
    | cons x xs =>
      have hx : x ≠ [] := h x (by simp)
      by_cases hxs : xs = []
      · subst hxs
        rw [List.intercalate_singleton] at hnil
        exact absurd hnil hx
      · rw [List.intercalate_cons_of_ne_nil hxs] at hnil
        simp at hnil
  · rintro rfl
    rfl

/-- No part of a list holds an element at which it is split. -/
theorem separator_free {p : α → Bool} {xs : List α} : ∀ part ∈ xs.splitOnP p,
    ∀ x ∈ part, p x = false := by
  induction xs with
  | nil => simp
  | cons a xs ih =>
    intro part hpart x hx
    rw [List.splitOnP_cons_eq_if_modifyHead] at hpart
    by_cases ha : p a = true
    · rw [if_pos ha, List.mem_cons] at hpart
      rcases hpart with rfl | hpart
      · simp at hx
      · exact ih part hpart x hx
    · rw [if_neg ha] at hpart
      obtain ⟨first, rest, hsplit⟩ := List.exists_cons_of_ne_nil (List.splitOnP_ne_nil p xs)
      rw [hsplit] at hpart ih
      rw [List.modifyHead_cons, List.mem_cons] at hpart
      rcases hpart with rfl | hpart
      · rw [List.mem_cons] at hx
        rcases hx with rfl | hx
        · simpa using ha
        · exact ih first (by simp) x hx
      · exact ih part (by simp [hpart]) x hx

theorem splitOnP_map {p : β → Bool} {f : α → β} {xs : List α} :
    (xs.map f).splitOnP p = (xs.splitOnP fun x => p (f x)).map (List.map f) := by
  induction xs with
  | nil => simp
  | cons a xs ih =>
    rw [List.map_cons, List.splitOnP_cons_eq_if_modifyHead, List.splitOnP_cons_eq_if_modifyHead,
      ih]
    by_cases ha : p (f a) = true
    · rw [if_pos ha, if_pos ha]
      simp
    · rw [if_neg ha, if_neg ha]
      cases xs.splitOnP fun x => p (f x) with
      | nil => rfl
      | cons part parts => simp

end Parts

end Zui
