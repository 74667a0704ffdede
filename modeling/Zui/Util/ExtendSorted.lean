/-
Extending a sorted vector.

`extendSorted` takes the new items one by one.  It searches the vector for each of them, from where
the last one was put on, and drops the last element when the vector is full.

* `extendStep_spec` — an item is put where it belongs, and the first elements are kept;
* `extend_sorted_merges` — what comes out are the first elements of the merge.
-/
import Zui.Gpui.Basic
import Zui.Library.Bisection
import Zui.Library.Lanes

namespace Zui.Util

variable {α : Type}

/-- `vec[start..]`. -/
def sliceFrom (vec : List α) (start : ℕ) : Gpui.Result (List α) :=
  if start ≤ vec.length then .ok (vec.drop start) else .error .indexOutOfBounds

/-- `Vec::insert`. -/
def insertAt (vec : List α) (index : ℕ) (item : α) : Gpui.Result (List α) :=
  if index ≤ vec.length then .ok (vec.insertIdx index item) else .error .indexOutOfBounds

/-- The body of the loop of `extend_sorted`, on the vector and the start index. -/
def extendStep (cmp : α → α → Ordering) (limit : ℕ) (state : List α × ℕ) (newItem : α) :
    Gpui.Result (List α × ℕ) := do
  let vec := state.1
  let startIndex := state.2
  match binarySearchBy (fun m => cmp m newItem) (← sliceFrom vec startIndex) with
  | .ok _ => return (vec, startIndex)
  | .error i =>
    let index := startIndex + i
    if vec.length < limit then
      return (← insertAt vec index newItem, index)
    else if index < vec.length then
      return (← insertAt vec.dropLast index newItem, index)
    else
      return (vec, index)

/-- `extend_sorted`. -/
def extendSorted (vec newItems : List α) (limit : ℕ) (cmp : α → α → Ordering) :
    Gpui.Result (List α) := do
  let state ← newItems.foldlM (extendStep cmp limit) (vec, 0)
  return state.1

theorem insertAt_append (pre post : List α) (item : α) :
    insertAt (pre ++ post) pre.length item = .ok (pre ++ item :: post) := by
  rw [insertAt, if_pos (by simp), insertIdx_eq (by simp), List.take_left', List.drop_left']
  · rfl
  · rfl

variable {cmp : α → α → Ordering} [Std.TransCmp cmp] {limit : ℕ} {vec : List α} {startIndex : ℕ}

/-- One item: it is placed in the vector, of which the first elements are kept, and all that
stands before the new start is less. -/
theorem extendStep_spec {item : α} (hsorted : vec.Pairwise fun a b => cmp a b = .lt)
    (hlimit : vec.length ≤ limit) (hstart : startIndex ≤ vec.length)
    (hless : ∀ a ∈ vec.take startIndex, cmp a item = .lt) :
    ∃ index, extendStep cmp limit (vec, startIndex) item
        = .ok ((place cmp item vec).take limit, index) ∧
      index ≤ ((place cmp item vec).take limit).length ∧
      ∀ a ∈ ((place cmp item vec).take limit).take index, cmp a item = .lt := by
  obtain ⟨pre, post, hpre, hpost, hcut⟩ := cut_of_sorted item hsorted
  simp only [extendStep]
  rw [sliceFrom, if_pos hstart, ok_bind]
  -- The start is not behind the place of the item.
  have hbefore : ∀ rest, vec = pre ++ rest → (∀ a ∈ rest, cmp a item ≠ .lt) →
      startIndex ≤ pre.length := by
    rintro rest rfl hrest
    by_contra hbehind
    obtain _ | ⟨a, rest⟩ := rest
    · rw [List.append_nil] at hstart
      exact hbehind hstart
    · refine hrest a List.mem_cons_self (hless a ?_)
      obtain ⟨n, rfl⟩ : ∃ n, startIndex = pre.length + (n + 1) :=
        ⟨startIndex - pre.length - 1, by omega⟩
      rw [List.take_length_add_append, List.take_succ_cons]
      simp
  rcases hcut with ⟨rfl, hplace⟩ | ⟨y, hy, rfl, hplace⟩
  · have hle := hbefore post rfl fun a ha => by simp [hpost a ha]
    rw [List.drop_append_of_le_length hle,
      binarySearchBy_missing (fun a ha => hpre a (List.mem_of_mem_drop ha)) hpost, hplace]
    simp only [List.length_drop, Nat.add_sub_cancel' hle]
    refine ⟨pre.length, ?_, ?_, ?_⟩
    · by_cases hroom : (pre ++ post).length < limit
      · rw [if_pos hroom, insertAt_append, ok_bind, List.take_of_length_le]
        · rfl
        · simp only [List.length_append, List.length_cons] at hroom ⊢
          omega
      · have hfull : (pre ++ post).length = limit := by omega
        rw [if_neg hroom]
        rw [List.length_append] at hfull ⊢
        by_cases hin : pre.length < pre.length + post.length
        · have hne : post ≠ [] := List.ne_nil_of_length_pos (by omega)
          rw [if_pos hin, List.dropLast_append_of_ne_nil hne, insertAt_append, ok_bind, ← hfull,
            List.take_length_add_append, List.dropLast_eq_take]
          obtain ⟨n, hn⟩ : ∃ n, post.length = n + 1 := ⟨post.length - 1, by omega⟩
          rw [hn, List.take_succ_cons]
          rfl
        · obtain rfl : post = [] := List.eq_nil_of_length_eq_zero (by omega)
          rw [if_neg hin, ← hfull]
          simp
          rfl
    · rw [List.length_take, List.length_append, List.length_cons]
      rw [List.length_append] at hlimit
      omega
    · intro a ha
      rw [List.take_take, min_eq_left (by rw [List.length_append] at hlimit; omega),
        List.take_left'] at ha
      · exact hpre a ha
      · rfl
  · have hle := hbefore (y :: post) rfl (List.forall_mem_cons.mpr
      ⟨by simp [hy], fun a ha => by simp [hpost a ha]⟩)
    rw [List.drop_append_of_le_length hle,
      binarySearchBy_found (fun a ha => hpre a (List.mem_of_mem_drop ha)) hy hpost, hplace,
      List.take_of_length_le hlimit]
    exact ⟨startIndex, rfl, hstart, hless⟩

theorem foldlM_extendStep {newItems : List α} (hsorted : vec.Pairwise fun a b => cmp a b = .lt)
    (hlimit : vec.length ≤ limit) (hnew : newItems.Pairwise fun a b => cmp a b ≠ .gt)
    (hstart : startIndex ≤ vec.length)
    (hless : ∀ a ∈ vec.take startIndex, ∀ item ∈ newItems, cmp a item = .lt) :
    ∃ index, newItems.foldlM (extendStep cmp limit) (vec, startIndex)
      = .ok (newItems.foldl (fun vec item => (place cmp item vec).take limit) vec, index) := by
  induction newItems generalizing vec startIndex with
  | nil => exact ⟨startIndex, rfl⟩
  | cons item newItems ih =>
    obtain ⟨hitem, hrest⟩ := List.pairwise_cons.mp hnew
    obtain ⟨index, hstep, hindex, hbefore⟩ := extendStep_spec hsorted hlimit hstart
      fun a ha => hless a ha item List.mem_cons_self
    rw [List.foldlM_cons, hstep, ok_bind, List.foldl_cons]
    refine ih ((sorted_place item hsorted).sublist (List.take_sublist _ _))
      (List.length_take_le _ _) hrest hindex fun a ha next hnext => ?_
    exact Std.TransCmp.lt_of_lt_of_isLE (hbefore a ha)
      (Ordering.isLE_iff_ne_gt.mpr (hitem next hnext))

/-- **Extending a sorted vector.**  For every order, every strictly increasing vector of at most
`limit` elements and all new items that are in order, the vector becomes the first `limit`
elements of the merge. -/
theorem extend_sorted_merges (cmp : α → α → Ordering) [Std.TransCmp cmp]
    (vec newItems : List α) (limit : ℕ) (hsorted : vec.Pairwise fun a b => cmp a b = .lt)
    (hlimit : vec.length ≤ limit) (hnew : newItems.Pairwise fun a b => cmp a b ≠ .gt) :
    extendSorted vec newItems limit cmp = .ok ((merged cmp vec newItems).take limit) ∧
      (merged cmp vec newItems).Pairwise (fun a b => cmp a b = .lt) ∧
      (∀ a ∈ vec, a ∈ merged cmp vec newItems) ∧
      (∀ n ∈ newItems, ∃ a ∈ merged cmp vec newItems, cmp a n = .eq) ∧
      ∀ a ∈ merged cmp vec newItems, a ∈ vec ∨ a ∈ newItems := by
  refine ⟨?_, merged_spec hsorted hnew⟩
  obtain ⟨index, hrun⟩ := foldlM_extendStep hsorted hlimit hnew (Nat.zero_le _) (by simp)
  rw [extendSorted, hrun, ok_bind, ← foldl_place hsorted hnew, ← foldl_place_take,
    List.take_of_length_le hlimit]
  rfl

theorem extend_sorted_merges_three :
    extendSorted [1, 4, 6] [2, 4, 4, 9] 4 compare
      = .ok ((merged compare [1, 4, 6] [2, 4, 4, 9]).take 4) :=
  (extend_sorted_merges (compare : ℕ → ℕ → Ordering) [1, 4, 6] [2, 4, 4, 9] 4
    (by decide) (by decide)
    (by decide)).1

end Zui.Util
