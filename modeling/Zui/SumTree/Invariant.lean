/-
The representation invariant of the sum tree.

`WF h t` says that `t` is a well-formed node of height `h`: a leaf of height `0`
holds between one and `2 * TREE_BASE` items; an internal node of height `h + 1`
holds between one and `2 * TREE_BASE` well-formed nodes of height `h`; the stored
child summaries are the children's summaries, and the summary of every node is
the in-order sum of the summaries of the items below it.  A whole tree is either
the empty leaf or a well-formed node (`Valid`).

Of the summaries only `LawfulSummary` is used: addition is associative and zero
is a left unit.  A monoid has both; so do the keys of a `TreeMap`, which are not
a monoid.

* `sum_append` — sums of consecutive runs add up;
* `sum_summaries` — the children's summaries add up to the sum over the items;
* `WF.height_eq`, `WF.summary_eq`, `WF.toList_ne_nil` — what a well-formed node
  stores;
* `WF.length_toList_le` — a node of height `h` has at most
  `(2 * TREE_BASE) ^ (h + 1)` items.
-/
import Mathlib
import Zui.SumTree.Tree

namespace Zui

/-- The laws of summaries that the tree relies on. -/
class LawfulSummary (S : Type) [Zero S] [Add S] : Prop where
  zero_add : ∀ a : S, 0 + a = a
  add_assoc : ∀ a b c : S, a + b + c = a + (b + c)

instance LawfulSummary.ofMonoid {S : Type} [AddMonoid S] : LawfulSummary S where
  zero_add := AddZeroClass.zero_add
  add_assoc := AddSemigroup.add_assoc

section Sum

variable {S : Type} [Zero S] [Add S]

@[simp] theorem sum_nil : sum ([] : List S) = 0 := rfl

theorem sum_concat (xs : List S) (x : S) : sum (xs ++ [x]) = sum xs + x := by
  simp [sum]

variable [LawfulSummary S]

theorem foldl_add (a : S) : ∀ {xs : List S}, xs ≠ [] → xs.foldl (· + ·) a = a + sum xs := by
  intro xs
  induction xs using List.reverseRecOn with
  | nil =>
    intro h
    exact absurd rfl h
  | append_singleton xs x ih =>
    intro _
    by_cases hxs : xs = []
    · subst hxs
      simp [sum, LawfulSummary.zero_add]
    · rw [sum_concat, List.foldl_concat, ih hxs, LawfulSummary.add_assoc]

theorem sum_append (xs : List S) {ys : List S} (h : ys ≠ []) :
    sum (xs ++ ys) = sum xs + sum ys := by
  rw [sum, List.foldl_append, foldl_add _ h]
  rfl

theorem sum_singleton (x : S) : sum [x] = x := by
  simp [sum, LawfulSummary.zero_add]

end Sum

/-- The sum of the summaries of some items. -/
def sumItems {T S : Type} [Zero S] [Add S] [Item T S] (xs : List T) : S :=
  sum (xs.map Item.summary)

section SumItems

variable {T S : Type} [Zero S] [Add S] [Item T S]

@[simp] theorem sumItems_nil : sumItems ([] : List T) = (0 : S) := rfl

theorem sumItems_concat (xs : List T) (x : T) :
    sumItems (xs ++ [x]) = (sumItems xs + Item.summary x : S) := by
  rw [sumItems, List.map_append, List.map_singleton, sum_concat]
  rfl

theorem sumItems_append [LawfulSummary S] (xs : List T) {ys : List T} (h : ys ≠ []) :
    sumItems (xs ++ ys) = (sumItems xs + sumItems ys : S) := by
  rw [sumItems, List.map_append, sum_append _ (by simpa using h)]
  rfl

theorem sumItems_singleton [LawfulSummary S] (x : T) :
    sumItems [x] = (Item.summary x : S) := by
  rw [sumItems, List.map_singleton, sum_singleton]

end SumItems

namespace SumTree

variable {T S : Type} [Zero S] [Add S] [Item T S]

/-- The well-formed nodes of a given height. -/
inductive WF : ℕ → SumTree T S → Prop
  | leaf {xs : List T} : xs ≠ [] → xs.length ≤ 2 * TREE_BASE →
      WF 0 (leaf (sumItems xs) xs (xs.map Item.summary))
  | internal {h : ℕ} {ts : List (SumTree T S)} : ts ≠ [] → ts.length ≤ 2 * TREE_BASE →
      (∀ t ∈ ts, WF h t) →
      WF (h + 1) (internal (h + 1) (sumItems (listItems ts)) (ts.map summary) ts)

/-- The representation invariant of a whole tree. -/
def Valid (t : SumTree T S) : Prop := t = new ∨ ∃ h, WF h t

namespace WF

variable {h : ℕ} {t : SumTree T S}

theorem height_eq (hw : WF h t) : t.height = h := by
  cases hw <;> rfl

theorem summary_eq (hw : WF h t) : t.summary = sumItems t.toList := by
  cases hw <;> simp

theorem toList_ne_nil : ∀ {h : ℕ} {t : SumTree T S}, WF h t → t.toList ≠ [] := by
  intro h t hw
  induction hw with
  | leaf hne _ => simpa using hne
  | @internal h ts hne _ _ ih =>
    obtain ⟨c, cs, rfl⟩ := List.exists_cons_of_ne_nil hne
    simp [ih c (by simp)]

theorem isEmpty_eq (hw : WF h t) : t.isEmpty = false := by
  cases hw with
  | leaf hne _ => simpa using hne
  | internal _ _ _ => rfl

theorem valid (hw : WF h t) : Valid t := Or.inr ⟨h, hw⟩

end WF

theorem listItems_ne_nil {h : ℕ} {ts : List (SumTree T S)} (hne : ts ≠ [])
    (hts : ∀ t ∈ ts, WF h t) : listItems ts ≠ [] := by
  obtain ⟨c, cs, rfl⟩ := List.exists_cons_of_ne_nil hne
  simp [(hts c (by simp)).toList_ne_nil]

/-- The children's summaries add up to the sum over the items below them. -/
theorem sum_summaries [LawfulSummary S] {h : ℕ} : ∀ {ts : List (SumTree T S)},
    (∀ t ∈ ts, WF h t) → sum (ts.map summary) = sumItems (listItems ts) := by
  intro ts
  induction ts using List.reverseRecOn with
  | nil =>
    intro _
    simp
  | append_singleton ts t ih =>
    intro hts
    have ht : WF h t := hts t (by simp)
    have hitems : listItems [t] = t.toList := by simp
    rw [List.map_append, List.map_singleton, sum_concat, ih fun u hu => hts u (by simp [hu]),
      ht.summary_eq, listItems_append, hitems, sumItems_append _ ht.toList_ne_nil]

theorem WF.ofChildren [LawfulSummary S] {h : ℕ} {ts : List (SumTree T S)} (hne : ts ≠ [])
    (hlen : ts.length ≤ 2 * TREE_BASE) (hts : ∀ t ∈ ts, WF h t) :
    WF (h + 1) (.internal (h + 1) (sum (ts.map SumTree.summary)) (ts.map SumTree.summary) ts) := by
  rw [sum_summaries hts]
  exact .internal hne hlen hts

@[simp] theorem valid_new : Valid (new : SumTree T S) := Or.inl rfl

theorem Valid.isEmpty_eq {t : SumTree T S} (ht : Valid t) : t.isEmpty = t.toList.isEmpty := by
  rcases ht with rfl | ⟨h, hw⟩
  · simp [new]
  · rw [hw.isEmpty_eq]
    simpa using hw.toList_ne_nil

theorem Valid.summary_eq {t : SumTree T S} (ht : Valid t) : t.summary = sumItems t.toList := by
  rcases ht with rfl | ⟨h, hw⟩
  · simp [new]
  · exact hw.summary_eq

/-! ### Height and number of items -/

/-- A node of height `h` has room for `(2 * TREE_BASE) ^ (h + 1)` items. -/
theorem WF.length_toList_le {h : ℕ} {t : SumTree T S} (hw : WF h t) :
    t.toList.length ≤ (2 * TREE_BASE) ^ (h + 1) := by
  induction hw with
  | leaf _ hlen => simpa using hlen
  | @internal h ts _ hlen _ ih =>
    rw [toList_internal]
    calc (listItems ts).length ≤ ts.length * (2 * TREE_BASE) ^ (h + 1) := length_listItems_le ih
      _ ≤ (2 * TREE_BASE) * (2 * TREE_BASE) ^ (h + 1) := Nat.mul_le_mul_right _ hlen
      _ = (2 * TREE_BASE) ^ (h + 1 + 1) := (Nat.pow_succ').symm

end SumTree

end Zui
