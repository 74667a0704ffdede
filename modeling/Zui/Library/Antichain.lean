/-
Lists that generate an upper set and hold nothing superfluous.

A list covers the elements above its entries.  `insertMinimal` adds an element unless it is
covered already, and drops what it covers from then on.

* `Incomparable.insertMinimal` — no entry comes to lie above another one;
* `covered_insertMinimal` — what is covered grows by what lies above the new element;
* `incomparable_foldl`, `mem_covered_foldl` — the same for any sequence of insertions.
-/
import Mathlib.Order.UpperLower.Closure

namespace Zui

variable {α : Type*} [Preorder α] {xs : List α} {x y : α}

/-- No two entries are comparable. -/
def Incomparable (xs : List α) : Prop :=
  xs.Pairwise fun a b => ¬ a ≤ b ∧ ¬ b ≤ a

/-- The elements above an entry. -/
def covered (xs : List α) : UpperSet α :=
  upperClosure {a | a ∈ xs}

theorem mem_covered : y ∈ covered xs ↔ ∃ a ∈ xs, a ≤ y := by
  rw [covered, mem_upperClosure]
  rfl

section Insert

variable [DecidableLE α]

/-- Adds an element if it is not covered, and drops the entries that it covers. -/
def insertMinimal (xs : List α) (x : α) : List α :=
  if xs.any (fun a => decide (a ≤ x)) then xs else (xs.filter fun a => !decide (x ≤ a)) ++ [x]

theorem insertMinimal_of_covered (h : x ∈ covered xs) : insertMinimal xs x = xs := by
  obtain ⟨a, ha, hle⟩ := mem_covered.mp h
  exact if_pos (List.any_eq_true.mpr ⟨a, ha, decide_eq_true hle⟩)

theorem insertMinimal_of_not_covered (h : x ∉ covered xs) :
    insertMinimal xs x = (xs.filter fun a => !decide (x ≤ a)) ++ [x] := by
  refine if_neg fun hany => ?_
  obtain ⟨a, ha, hle⟩ := List.any_eq_true.mp hany
  exact h (mem_covered.mpr ⟨a, ha, of_decide_eq_true hle⟩)

theorem Incomparable.insertMinimal (h : Incomparable xs) (x : α) :
    Incomparable (insertMinimal xs x) := by
  by_cases hx : x ∈ covered xs
  · rwa [insertMinimal_of_covered hx]
  · rw [insertMinimal_of_not_covered hx, Incomparable, List.pairwise_append]
    refine ⟨h.filter _, List.pairwise_singleton _ _, fun a ha b hb => ?_⟩
    obtain rfl := List.mem_singleton.mp hb
    obtain ⟨ha, habove⟩ := List.mem_filter.mp ha
    -- An entry below the new element would cover it, and those above it are dropped.
    exact ⟨fun hle => hx (mem_covered.mpr ⟨a, ha, hle⟩), by simpa using habove⟩

theorem covered_insertMinimal (xs : List α) (x : α) :
    covered (insertMinimal xs x) = covered xs ⊓ UpperSet.Ici x := by
  refine SetLike.ext fun y => ?_
  rw [UpperSet.mem_inf_iff, UpperSet.mem_Ici_iff]
  by_cases hx : x ∈ covered xs
  · rw [insertMinimal_of_covered hx, or_iff_left_of_imp]
    exact fun hxy => (covered xs).upper hxy hx
  · rw [insertMinimal_of_not_covered hx]
    simp only [mem_covered, List.mem_append, List.mem_filter, List.mem_singleton]
    constructor
    · rintro ⟨a, ⟨ha, -⟩ | rfl, hle⟩
      · exact .inl ⟨a, ha, hle⟩
      · exact .inr hle
    · rintro (⟨a, ha, hle⟩ | hle)
      · -- A dropped entry lies above the new element.
        by_cases habove : x ≤ a
        · exact ⟨x, .inr rfl, habove.trans hle⟩
        · exact ⟨a, .inl ⟨ha, by simpa using habove⟩, hle⟩
      · exact ⟨x, .inr rfl, hle⟩

theorem incomparable_foldl (new : List α) : ∀ {xs : List α}, Incomparable xs →
    Incomparable (new.foldl insertMinimal xs) := by
  induction new with
  | nil => exact fun h => h
  | cons x new ih => exact fun h => ih (h.insertMinimal x)

theorem mem_covered_foldl (new : List α) : ∀ {xs : List α},
    y ∈ covered (new.foldl insertMinimal xs) ↔ y ∈ covered xs ∨ ∃ x ∈ new, x ≤ y := by
  induction new with
  | nil => simp
  | cons x new ih =>
    intro xs
    rw [List.foldl_cons, ih, covered_insertMinimal, UpperSet.mem_inf_iff, UpperSet.mem_Ici_iff,
      or_assoc]
    simp

end Insert

end Zui
