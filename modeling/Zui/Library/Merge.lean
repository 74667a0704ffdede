/-
Sorting by a comparison, and merging sorted lists in runs.

`sortBy` is a stable sort, and `isSorted` looks at neighbours only.  With a transitive
comparison a list is sorted if its neighbours are (`isSorted_iff`), sorting gives a sorted
list (`pairwise_sortBy`), and it gives back any strictly increasing list from the same
elements in another order (`sortBy_eq_of_perm`).

Several lists are merged by taking, again and again, a run from the front of one of them that may
stand before everything in the others.  A merge may stop before the lists are empty.

* `Merge.pairwise` — a merge of sorted lists is sorted;
* `Merge.perm` — a merge takes every element once, or leaves it;
* `pair_sublist_or` — two elements stand in a list one way or the other.

`interleave` takes elements from two lists in turn, and goes on with the other one when one ends.

* `length_interleave` — every element is taken;
* `take_interleave_perm` — as long as it goes, it takes the front parts of both lists.
-/
import Mathlib

namespace Zui

section Sorting

variable {α : Type*} {cmp : α → α → Ordering} {xs ys : List α}

/-- `slice::sort_by`. -/
def sortBy (cmp : α → α → Ordering) (xs : List α) : List α :=
  xs.insertionSort fun a b => (cmp a b).isLE

/-- `slice::is_sorted_by`. -/
def isSorted (cmp : α → α → Ordering) : List α → Bool
  | [] => true
  | [_] => true
  | a :: b :: xs => (cmp a b).isLE && isSorted cmp (b :: xs)

theorem sortBy_perm (cmp : α → α → Ordering) (xs : List α) : (sortBy cmp xs).Perm xs :=
  List.perm_insertionSort _ _

theorem mem_sortBy {a : α} : a ∈ sortBy cmp xs ↔ a ∈ xs :=
  (sortBy_perm cmp xs).mem_iff

theorem length_sortBy : (sortBy cmp xs).length = xs.length :=
  (sortBy_perm cmp xs).length_eq

theorem isSorted_of_pairwise (h : xs.Pairwise fun a b => (cmp a b).isLE) :
    isSorted cmp xs = true := by
  induction xs with
  | nil => rfl
  | cons a xs ih =>
    obtain ⟨ha, hxs⟩ := List.pairwise_cons.mp h
    cases xs with
    | nil => rfl
    | cons b xs => exact Bool.and_eq_true_iff.mpr ⟨ha b List.mem_cons_self, ih hxs⟩

section Transitive

variable [Std.TransCmp cmp]

theorem pairwise_sortBy (xs : List α) :
    (sortBy cmp xs).Pairwise fun a b => (cmp a b).isLE := by
  have htotal : Std.Total fun a b : α => (cmp a b).isLE = true := by
    refine ⟨fun a b => ?_⟩
    rw [show cmp b a = (cmp a b).swap from Std.OrientedCmp.eq_swap]
    cases cmp a b <;> simp
  have htrans : IsTrans α fun a b : α => (cmp a b).isLE = true :=
    ⟨fun _ _ _ => Std.TransCmp.isLE_trans⟩
  exact List.pairwise_insertionSort _ xs

theorem isSorted_iff : isSorted cmp xs = true ↔ xs.Pairwise fun a b => (cmp a b).isLE := by
  refine ⟨fun h => ?_, isSorted_of_pairwise⟩
  induction xs with
  | nil => exact List.Pairwise.nil
  | cons a xs ih =>
    cases xs with
    | nil => exact List.pairwise_singleton _ _
    | cons b xs =>
      obtain ⟨hab, hxs⟩ := Bool.and_eq_true_iff.mp h
      have hsorted := ih hxs
      refine List.pairwise_cons.mpr ⟨fun c hc => ?_, hsorted⟩
      -- Every further element comes behind the neighbour.
      rcases List.mem_cons.mp hc with rfl | hc
      · exact hab
      · exact Std.TransCmp.isLE_trans hab ((List.pairwise_cons.mp hsorted).1 c hc)

/-- There is one way only to bring elements in strictly increasing order. -/
theorem sortBy_eq_of_perm (hperm : xs.Perm ys) (hys : ys.Pairwise fun a b => cmp a b = .lt) :
    sortBy cmp xs = ys := by
  have hle : ys.Pairwise fun a b => (cmp a b).isLE := hys.imp fun h => by simp [h]
  refine List.Perm.eq_of_pairwise (fun a b ha hb hab hba => ?_) (pairwise_sortBy xs) hle
    ((sortBy_perm cmp xs).trans hperm)
  have heq : cmp a b = .eq := Std.OrientedCmp.isLE_antisymm hab hba
  -- Of two different elements one comes before the other.
  have hsymm : Std.Symm fun a b : α => cmp a b ≠ .eq :=
    ⟨fun a b h hba => h (Std.OrientedCmp.eq_symm hba)⟩
  have hdiffer : ys.Pairwise fun a b => cmp a b ≠ .eq := hys.imp fun h => by simp [h]
  by_contra hne
  exact hdiffer.forall ((mem_sortBy.trans hperm.mem_iff).mp ha) hb hne heq

end Transitive

end Sorting

section Pairs

variable {α : Type}

/-- Two elements of a list stand in it one way or the other. -/
theorem pair_sublist_or {xs : List α} {a b : α} (ha : a ∈ xs) (hb : b ∈ xs) (hne : a ≠ b) :
    [a, b].Sublist xs ∨ [b, a].Sublist xs := by
  obtain ⟨l, l', rfl⟩ := List.append_of_mem ha
  rcases List.mem_append.mp hb with hb | hb
  · right
    exact (List.singleton_sublist.mpr hb).append (List.singleton_sublist.mpr List.mem_cons_self)
  · rcases List.mem_cons.mp hb with rfl | hb
    · exact absurd rfl hne
    · left
      exact (List.Sublist.cons_cons a (List.singleton_sublist.mpr hb)).trans
        (List.sublist_append_right l _)

end Pairs

variable {κ α : Type} [DecidableEq κ]

/-- `Merge r lists out left`: the runs that are taken from the lists give `out` and leave `left`. -/
inductive Merge (r : α → α → Prop) : (κ → List α) → List α → (κ → List α) → Prop
  | stop (lists : κ → List α) : Merge r lists [] lists
  | run {lists left : κ → List α} {k : κ} {front back out : List α} :
      lists k = front ++ back → (∀ x ∈ front, ∀ j ≠ k, ∀ y ∈ lists j, r x y) →
      Merge r (Function.update lists k back) out left → Merge r lists (front ++ out) left

namespace Merge

variable {r : α → α → Prop} {lists left : κ → List α} {out : List α}

theorem mem_of_mem (h : Merge r lists out left) : ∀ x ∈ out, ∃ k, x ∈ lists k := by
  induction h with
  | stop => simp
  | @run lists left k front back out hk hbefore hrest ih =>
    intro x hx
    rcases List.mem_append.mp hx with hx | hx
    · exact ⟨k, hk ▸ List.mem_append_left _ hx⟩
    · obtain ⟨j, hj⟩ := ih x hx
      rw [Function.update_apply] at hj
      split_ifs at hj with heq
      · exact ⟨k, hk ▸ List.mem_append_right _ hj⟩
      · exact ⟨j, hj⟩

/-- A merge of sorted lists is sorted. -/
theorem pairwise (h : Merge r lists out left) (hsorted : ∀ k, (lists k).Pairwise r) :
    out.Pairwise r := by
  induction h with
  | stop => exact .nil
  | @run lists left k front back out hk hbefore hrest ih =>
    have hfront := hsorted k
    rw [hk, List.pairwise_append] at hfront
    have hupdate : ∀ j, (Function.update lists k back j).Pairwise r := by
      intro j
      rw [Function.update_apply]
      split_ifs
      · exact hfront.2.1
      · exact hsorted j
    refine List.pairwise_append.mpr ⟨hfront.1, ih hupdate, fun x hx y hy => ?_⟩
    obtain ⟨j, hj⟩ := hrest.mem_of_mem y hy
    rw [Function.update_apply] at hj
    split_ifs at hj with heq
    · exact hfront.2.2 x hx y hj
    · exact hbefore x hx j heq y hj

theorem mem_or_mem (h : Merge r lists out left) {k : κ} {x : α} (hx : x ∈ lists k) :
    x ∈ out ∨ x ∈ left k := by
  induction h with
  | stop => exact Or.inr hx
  | @run lists left k' front back out hk hbefore hrest ih =>
    by_cases heq : k = k'
    · subst heq
      rw [hk] at hx
      rcases List.mem_append.mp hx with hx | hx
      · exact Or.inl (List.mem_append_left _ hx)
      · rcases ih (by simpa using hx) with h | h
        · exact Or.inl (List.mem_append_right _ h)
        · exact Or.inr h
    · rcases ih (by simpa [heq] using hx) with h | h
      · exact Or.inl (List.mem_append_right _ h)
      · exact Or.inr h

theorem flatMap_update {ks : List κ} (hks : ks.Nodup) {k : κ} (hk : k ∈ ks) {front back : List α}
    (hsplit : lists k = front ++ back) :
    (ks.flatMap lists).Perm (front ++ ks.flatMap (Function.update lists k back)) := by
  obtain ⟨l, l', rfl⟩ := List.append_of_mem hk
  obtain ⟨-, hnodup, hdisjoint⟩ := List.nodup_append.mp hks
  have hl : ∀ j ∈ l, Function.update lists k back j = lists j := fun j hj =>
    Function.update_of_ne (fun heq => hdisjoint j hj k List.mem_cons_self heq) _ _
  have hl' : ∀ j ∈ l', Function.update lists k back j = lists j := fun j hj =>
    Function.update_of_ne (fun heq : j = k => (List.nodup_cons.mp hnodup).1 (heq ▸ hj)) _ _
  simp only [List.flatMap_append, List.flatMap_cons, Function.update_self, hsplit,
    List.flatMap_congr hl, List.flatMap_congr hl']
  rw [List.append_assoc, ← List.append_assoc, ← List.append_assoc front]
  exact List.perm_append_comm.append_right _

/-- A merge takes every element once, or leaves it. -/
theorem perm (h : Merge r lists out left) {ks : List κ} (hks : ks.Nodup) (hall : ∀ k, k ∈ ks) :
    (ks.flatMap lists).Perm (out ++ ks.flatMap left) := by
  induction h with
  | stop => exact .refl _
  | @run lists left k front back out hk hbefore hrest ih =>
    refine (flatMap_update hks (hall k) hk).trans ?_
    rw [List.append_assoc]
    exact ih.append_left front

end Merge

/-! ### Taking turns -/

section Turns

variable {α : Type}

/-- Elements of the two lists in turn. -/
def interleave : List α → List α → List α
  | [], ys => ys
  | x :: xs, ys => x :: interleave ys xs
termination_by xs ys => xs.length + ys.length

@[simp] theorem interleave_nil (ys : List α) : interleave [] ys = ys := by
  rw [interleave]

theorem interleave_cons (x : α) (xs ys : List α) :
    interleave (x :: xs) ys = x :: interleave ys xs := by
  rw [interleave]

theorem length_interleave (xs ys : List α) :
    (interleave xs ys).length = xs.length + ys.length := by
  induction xs, ys using interleave.induct with
  | case1 ys => simp
  | case2 x xs ys ih =>
    rw [interleave_cons, List.length_cons, List.length_cons, ih]
    omega

/-- The first elements are front parts of the two lists. -/
theorem take_interleave_perm (xs ys : List α) : ∀ n, ∃ p q,
    p ≤ xs.length ∧ q ≤ ys.length ∧ p + q = min n (xs.length + ys.length) ∧
      ((interleave xs ys).take n).Perm (xs.take p ++ ys.take q) := by
  induction xs, ys using interleave.induct with
  | case1 ys =>
    intro n
    refine ⟨0, min n ys.length, le_rfl, min_le_right _ _, by simp, ?_⟩
    rw [interleave_nil, List.take_nil, List.nil_append, List.take_eq_take_min]
  | case2 x xs ys ih =>
    rintro (_ | n)
    · exact ⟨0, 0, by simp, by simp, by simp, by simp⟩
    · obtain ⟨q, p, hq, hp, hsum, hperm⟩ := ih n
      refine ⟨p + 1, q, by simpa using hp, hq, ?_, ?_⟩
      · rw [List.length_cons]
        omega
      · rw [interleave_cons, List.take_succ_cons, List.take_succ_cons, List.cons_append]
        exact (hperm.trans List.perm_append_comm).cons x

end Turns

end Zui
