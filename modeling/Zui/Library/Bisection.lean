/-
Sorted lists that are searched by halves.

`binarySearchBy` is the binary search of the standard library: it finds an element that the test
calls equal, or the place where one would stand.  `place` puts an element into a strictly
increasing list unless an equal one is there, and `merged` merges a list of further elements into
one.

* `binarySearchBy_found`, `binarySearchBy_missing` — the index that is found;
* `cut_of_sorted` — where an element stands in a strictly increasing list;
* `foldl_place` — a merge is done one element at a time;
* `take_place` — and only the first elements have to be kept.
-/
import Mathlib

namespace Zui

variable {α : Type}

/-! ### The search -/

/-- The loop of the search: half of what is left is given up in each pass. -/
def bisect (f : ℕ → Ordering) (base size : ℕ) : ℕ :=
  if 1 < size then
    let half := size / 2
    bisect f (if f (base + half) = .gt then base else base + half) (size - half)
  else base
termination_by size

/-- `binary_search_by`. -/
def binarySearchBy (g : α → Ordering) (xs : List α) : Except ℕ ℕ :=
  if xs.length = 0 then .error 0
  else
    let f := fun i => (xs[i]?).elim .gt g
    let base := bisect f 0 xs.length
    match f base with
    | .eq => .ok base
    | .lt => .error (base + 1)
    | .gt => .error base

/-- The loop ends at the last index that is not greater, if there is one. -/
theorem bisect_spec {f : ℕ → Ordering} (hmono : ∀ i j, i ≤ j → f i = .gt → f j = .gt)
    (base size : ℕ) (hpos : 0 < size) (hbase : base = 0 ∨ f base ≠ .gt)
    (hend : ∀ i, base + size ≤ i → f i = .gt) :
    (bisect f base size = 0 ∨ f (bisect f base size) ≠ .gt) ∧
      ∀ i, bisect f base size < i → f i = .gt := by
  induction size using Nat.strong_induction_on generalizing base with
  | _ size ih =>
    rw [bisect]
    by_cases hsize : 1 < size
    · rw [if_pos hsize]
      simp only
      by_cases hmid : f (base + size / 2) = .gt
      · rw [if_pos hmid]
        exact ih _ (by omega) base (by omega) hbase fun i hi => hmono _ i (by omega) hmid
      · rw [if_neg hmid]
        exact ih _ (by omega) _ (by omega) (.inr hmid) fun i hi => hend i (by omega)
    · rw [if_neg hsize]
      exact ⟨hbase, fun i hi => hend i (by omega)⟩

section Search

variable {g : α → Ordering} {pre post : List α} {x : α}

/-- The test of the search, by indices, is greater from the first greater element on. -/
theorem elim_gt_iff (hpre : ∀ a ∈ pre, g a ≠ .gt) (hpost : ∀ a ∈ post, g a = .gt) (i : ℕ) :
    ((pre ++ post)[i]?).elim .gt g = .gt ↔ pre.length ≤ i := by
  by_cases hi : i < pre.length
  · rw [List.getElem?_append_left hi, List.getElem?_eq_getElem hi]
    exact iff_of_false (hpre _ (List.getElem_mem hi)) (by omega)
  · rw [List.getElem?_append_right (by omega)]
    refine iff_of_true ?_ (by omega)
    cases hx : post[i - pre.length]? with
    | none => rfl
    | some a => exact hpost a (List.mem_of_getElem? hx)

theorem bisect_eq (hpre : ∀ a ∈ pre, g a ≠ .gt) (hpost : ∀ a ∈ post, g a = .gt)
    (hne : pre ++ post ≠ []) :
    bisect (fun i => ((pre ++ post)[i]?).elim .gt g) 0 (pre ++ post).length
      = pre.length - 1 := by
  have hgt := elim_gt_iff hpre hpost
  obtain ⟨hlast, hafter⟩ := bisect_spec
    (f := fun i => ((pre ++ post)[i]?).elim .gt g)
    (fun i j hij hi => (hgt j).mpr (((hgt i).mp hi).trans hij)) 0 (pre ++ post).length
    (List.length_pos_iff.mpr hne) (.inl rfl)
    (fun i hi => (hgt i).mpr (by rw [List.length_append] at hi; omega))
  simp only [ne_eq, hgt] at hlast hafter
  have := hafter (pre.length - 1)
  have := hafter (bisect (fun i => ((pre ++ post)[i]?).elim .gt g) 0 (pre ++ post).length + 1)
  omega

theorem binarySearchBy_found (hpre : ∀ a ∈ pre, g a = .lt) (hx : g x = .eq)
    (hpost : ∀ a ∈ post, g a = .gt) :
    binarySearchBy g (pre ++ x :: post) = .ok pre.length := by
  have hfront : ∀ a ∈ pre ++ [x], g a ≠ .gt := by
    intro a ha
    rcases List.mem_append.mp ha with ha | ha
    · simp [hpre a ha]
    · simp [List.mem_singleton.mp ha, hx]
  have hbase := bisect_eq hfront hpost (by simp)
  rw [List.append_assoc, List.singleton_append,
    show (pre ++ [x]).length = pre.length + 1 from List.length_append, Nat.add_sub_cancel] at hbase
  rw [binarySearchBy, if_neg (by simp)]
  simp only [hbase]
  simp [hx]

theorem binarySearchBy_missing (hpre : ∀ a ∈ pre, g a = .lt) (hpost : ∀ a ∈ post, g a = .gt) :
    binarySearchBy g (pre ++ post) = .error pre.length := by
  rw [binarySearchBy]
  by_cases hne : pre ++ post = []
  · obtain ⟨rfl, rfl⟩ := List.append_eq_nil_iff.mp hne
    rfl
  · rw [if_neg (by simpa using hne)]
    simp only [bisect_eq (fun a ha => by simp [hpre a ha]) hpost hne]
    rcases List.eq_nil_or_concat pre with rfl | ⟨front, last, rfl⟩
    · have hnone : ∀ a ∈ ([] : List α), g a ≠ .gt := by simp
      have hfirst := (elim_gt_iff hnone hpost 0).mpr (by simp)
      simp only [List.nil_append] at hfirst
      simp [hfirst]
    · simp [hpre last (by simp)]

end Search

/-! ### Strictly increasing lists -/

section Placing

variable (cmp : α → α → Ordering)

/-- An element comes into a strictly increasing list, unless an equal one is there. -/
def place (x : α) : List α → List α
  | [] => [x]
  | y :: ys =>
    match cmp y x with
    | .lt => y :: place x ys
    | .eq => y :: ys
    | .gt => x :: y :: ys

/-- The merge of a strictly increasing list with further elements, which are in order: what is
there wins over an equal one that comes. -/
def merged : List α → List α → List α
  | xs, [] => xs
  | [], n :: ns => merged [n] ns
  | x :: xs, n :: ns =>
    match cmp x n with
    | .lt => x :: merged xs (n :: ns)
    | .eq => merged (x :: xs) ns
    | .gt => merged (n :: x :: xs) ns
termination_by xs ns => (ns.length, xs.length)

variable {cmp} {xs : List α} {x y z : α}

theorem mem_place (h : z ∈ place cmp x xs) : z = x ∨ z ∈ xs := by
  induction xs with
  | nil => exact .inl (List.mem_singleton.mp h)
  | cons y ys ih =>
    rw [place] at h
    split at h
    · rcases List.mem_cons.mp h with rfl | h
      · exact .inr List.mem_cons_self
      · exact (ih h).imp_right (List.mem_cons_of_mem y)
    · exact .inr h
    · exact List.mem_cons.mp h

theorem mem_place_of_mem (x : α) (h : z ∈ xs) : z ∈ place cmp x xs := by
  induction xs with
  | nil => cases h
  | cons y ys ih =>
    rw [place]
    split
    · rcases List.mem_cons.mp h with rfl | h
      · exact List.mem_cons_self
      · exact List.mem_cons_of_mem y (ih h)
    · exact h
    · exact List.mem_cons_of_mem x h

/-- If only the first elements are kept, only they have to be there before. -/
theorem take_place (n : ℕ) (x : α) (xs : List α) :
    (place cmp x (xs.take n)).take n = (place cmp x xs).take n := by
  induction xs generalizing n with
  | nil => rw [List.take_nil]
  | cons y ys ih =>
    obtain _ | n := n
    · rw [List.take_zero, List.take_zero]
    · rw [List.take_succ_cons, place, place]
      split
      · rw [List.take_succ_cons, List.take_succ_cons, ih n]
      · rw [List.take_succ_cons, List.take_succ_cons, List.take_take, min_self]
      · rw [List.take_succ_cons, List.take_succ_cons,
          show y :: ys.take n = (y :: ys).take (n + 1) from rfl, List.take_take,
          min_eq_left (Nat.le_succ n)]

theorem foldl_place_take (n : ℕ) (new : List α) : ∀ xs : List α,
    new.foldl (fun xs x => (place cmp x xs).take n) (xs.take n)
      = (new.foldl (fun xs x => place cmp x xs) xs).take n := by
  induction new with
  | nil => exact fun xs => rfl
  | cons x new ih =>
    intro xs
    rw [List.foldl_cons, List.foldl_cons, take_place, ih]

theorem foldl_place_cons {new : List α} (h : ∀ a ∈ new, cmp x a = .lt) : ∀ xs : List α,
    new.foldl (fun xs x => place cmp x xs) (x :: xs)
      = x :: new.foldl (fun xs x => place cmp x xs) xs := by
  induction new with
  | nil => exact fun xs => rfl
  | cons n new ih =>
    intro xs
    obtain ⟨hn, hnew⟩ := List.forall_mem_cons.mp h
    rw [List.foldl_cons, List.foldl_cons, place, hn]
    exact ih hnew _

variable [Std.TransCmp cmp]

/-- Where an element stands in a strictly increasing list. -/
theorem cut_of_sorted (x : α) (h : xs.Pairwise fun a b => cmp a b = .lt) :
    ∃ pre post, (∀ a ∈ pre, cmp a x = .lt) ∧ (∀ a ∈ post, cmp a x = .gt) ∧
      ((xs = pre ++ post ∧ place cmp x xs = pre ++ x :: post) ∨
        ∃ y, cmp y x = .eq ∧ xs = pre ++ y :: post ∧ place cmp x xs = xs) := by
  induction xs with
  | nil => exact ⟨[], [], by simp, by simp, .inl ⟨rfl, rfl⟩⟩
  | cons y ys ih =>
    obtain ⟨hfirst, hys⟩ := List.pairwise_cons.mp h
    -- What stands behind an element that is not less is greater.
    have hgt : cmp y x ≠ .lt → ∀ a ∈ ys, cmp a x = .gt := by
      intro hne a ha
      have hxy : (cmp x y).isLE := by
        rw [show cmp x y = (cmp y x).swap from Std.OrientedCmp.eq_swap]
        cases hc : cmp y x with
        | lt => exact absurd hc hne
        | eq => rfl
        | gt => rfl
      exact Std.OrientedCmp.gt_iff_lt.mpr (Std.TransCmp.lt_of_isLE_of_lt hxy (hfirst a ha))
    rw [place]
    cases hc : cmp y x with
    | lt =>
      obtain ⟨pre, post, hpre, hpost, hcut⟩ := ih hys
      refine ⟨y :: pre, post, List.forall_mem_cons.mpr ⟨hc, hpre⟩, hpost, ?_⟩
      rcases hcut with ⟨hxs, hplace⟩ | ⟨w, hw, hxs, hplace⟩
      · exact .inl ⟨by rw [hxs]; rfl, by simp only [hplace]; rfl⟩
      · exact .inr ⟨w, hw, by rw [hxs]; rfl, by simp only [hplace]⟩
    | eq =>
      exact ⟨[], ys, by simp, hgt (by simp [hc]), .inr ⟨y, hc, rfl, rfl⟩⟩
    | gt =>
      refine ⟨[], y :: ys, by simp, List.forall_mem_cons.mpr ⟨hc, hgt (by simp [hc])⟩, ?_⟩
      exact .inl ⟨rfl, rfl⟩

theorem sorted_place (x : α) (h : xs.Pairwise fun a b => cmp a b = .lt) :
    (place cmp x xs).Pairwise fun a b => cmp a b = .lt := by
  obtain ⟨pre, post, hpre, hpost, ⟨hxs, hplace⟩ | ⟨y, -, -, hplace⟩⟩ := cut_of_sorted x h
  · rw [hplace, List.pairwise_append, List.pairwise_cons]
    rw [hxs, List.pairwise_append] at h
    obtain ⟨hsortedPre, hsortedPost, hacross⟩ := h
    refine ⟨hsortedPre, ⟨fun a ha => Std.OrientedCmp.gt_iff_lt.mp (hpost a ha), hsortedPost⟩,
      fun a ha b hb => ?_⟩
    rcases List.mem_cons.mp hb with rfl | hb
    · exact hpre a ha
    · exact hacross a ha b hb
  · rwa [hplace]

theorem exists_mem_place (x : α) (xs : List α) : ∃ y ∈ place cmp x xs, cmp y x = .eq := by
  induction xs with
  | nil => exact ⟨x, List.mem_singleton_self x, Std.ReflCmp.compare_self⟩
  | cons y ys ih =>
    rw [place]
    split
    · obtain ⟨z, hz, heq⟩ := ih
      exact ⟨z, List.mem_cons_of_mem y hz, heq⟩
    · exact ⟨y, List.mem_cons_self, ‹_›⟩
    · exact ⟨x, List.mem_cons_self, Std.ReflCmp.compare_self⟩

/-- A merge is done one element at a time. -/
theorem foldl_place {new : List α} (hxs : xs.Pairwise fun a b => cmp a b = .lt)
    (hnew : new.Pairwise fun a b => cmp a b ≠ .gt) :
    new.foldl (fun xs x => place cmp x xs) xs = merged cmp xs new := by
  induction xs, new using merged.induct cmp with
  | case1 xs => rw [merged, List.foldl_nil]
  | case2 n ns ih =>
    rw [merged, List.foldl_cons]
    exact ih (List.pairwise_singleton _ n) (List.pairwise_cons.mp hnew).2
  | case3 x xs n ns hc ih =>
    -- All that comes is behind `x`.
    have hbehind : ∀ a ∈ n :: ns, cmp x a = .lt := by
      refine List.forall_mem_cons.mpr ⟨hc, fun a ha => ?_⟩
      have hle := (List.pairwise_cons.mp hnew).1 a ha
      exact Std.TransCmp.lt_of_lt_of_isLE hc (Ordering.isLE_iff_ne_gt.mpr hle)
    rw [merged, hc, foldl_place_cons hbehind, ih (List.pairwise_cons.mp hxs).2 hnew]
  | case4 x xs n ns hc ih =>
    rw [merged, hc, List.foldl_cons, place, hc]
    exact ih hxs (List.pairwise_cons.mp hnew).2
  | case5 x xs n ns hc ih =>
    have hfirst : cmp n x = .lt := Std.OrientedCmp.gt_iff_lt.mp hc
    rw [merged, hc, List.foldl_cons, place, hc]
    refine ih (List.pairwise_cons.mpr ⟨List.forall_mem_cons.mpr ⟨hfirst, fun a ha => ?_⟩, hxs⟩)
      (List.pairwise_cons.mp hnew).2
    exact Std.TransCmp.lt_trans hfirst ((List.pairwise_cons.mp hxs).1 a ha)

/-- What a merge is: a strictly increasing list of what was there, and of the elements that came
and are equal to nothing that was there. -/
theorem merged_spec {new : List α} (hxs : xs.Pairwise fun a b => cmp a b = .lt)
    (hnew : new.Pairwise fun a b => cmp a b ≠ .gt) :
    (merged cmp xs new).Pairwise (fun a b => cmp a b = .lt) ∧
      (∀ a ∈ xs, a ∈ merged cmp xs new) ∧
      (∀ n ∈ new, ∃ a ∈ merged cmp xs new, cmp a n = .eq) ∧
      ∀ a ∈ merged cmp xs new, a ∈ xs ∨ a ∈ new := by
  rw [← foldl_place hxs hnew]
  clear hnew
  induction new generalizing xs with
  | nil => exact ⟨hxs, fun a => id, by simp, fun a => .inl⟩
  | cons n new ih =>
    obtain ⟨hsorted, hkept, hcame, hfrom⟩ := ih (sorted_place n hxs)
    rw [List.foldl_cons]
    refine ⟨hsorted, fun a ha => hkept a (mem_place_of_mem n ha),
      List.forall_mem_cons.mpr ⟨?_, hcame⟩, fun a ha => ?_⟩
    · obtain ⟨a, ha, heq⟩ : ∃ a ∈ place cmp n xs, cmp a n = .eq := exists_mem_place n xs
      exact ⟨a, hkept a ha, heq⟩
    · rcases hfrom a ha with ha | ha
      · rcases mem_place ha with rfl | ha
        · exact .inr List.mem_cons_self
        · exact .inl ha
      · exact .inr (List.mem_cons_of_mem n ha)

end Placing

end Zui
