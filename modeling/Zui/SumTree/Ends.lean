/-
The two ends of a tree: reading and updating the first and the last item.

`first`, `last`, `updateFirst` and `updateLast` walk down one spine to a leaf.
On a valid tree they never panic; they read the ends of the item sequence, and
an update changes only the item at its end and keeps every node well formed, with
the summaries on the spine recomputed.
-/
import Mathlib
import Zui.SumTree.Append

namespace Zui

namespace SumTree

variable {T S : Type} [Zero S] [Add S] [Item T S]

/-! ### Reading the ends -/

theorem leftmostLeaf_spec : ∀ {h : ℕ} {t : SumTree T S}, WF h t →
    ∃ s ss xs rest, leftmostLeaf t = .ok (.leaf s xs ss) ∧ xs ≠ [] ∧ t.toList = xs ++ rest := by
  intro h
  induction h with
  | zero =>
    intro t ht
    obtain ⟨xs, hne, _, rfl⟩ := ht.eq_leaf
    exact ⟨_, _, xs, [], by rw [leftmostLeaf], hne, by simp⟩
  | succ h ih =>
    intro t ht
    obtain ⟨ts, hne, _, hts, rfl⟩ := ht.eq_internal
    obtain ⟨c, cs, rfl⟩ := List.exists_cons_of_ne_nil hne
    obtain ⟨s, ss, xs, rest, hrun, hxs, hlist⟩ := ih (hts c (by simp))
    refine ⟨s, ss, xs, rest ++ listItems cs, ?_, hxs, by simp [hlist]⟩
    rw [leftmostLeaf, hrun]

omit [Zero S] [Add S] [Item T S] in
theorem rightmostOfLast_concat (last : SumTree T S) : ∀ init : List (SumTree T S),
    rightmostOfLast (init ++ [last]) = rightmostLeaf last := by
  intro init
  induction init with
  | nil => rw [List.nil_append, rightmostOfLast]
  | cons t init ih =>
    obtain ⟨u, us, hu⟩ := List.exists_cons_of_ne_nil (show init ++ [last] ≠ [] by simp)
    rw [List.cons_append, hu, rightmostOfLast, ← hu, ih]

theorem rightmostLeaf_spec : ∀ {h : ℕ} {t : SumTree T S}, WF h t →
    ∃ s ss xs rest, rightmostLeaf t = .ok (.leaf s xs ss) ∧ xs ≠ [] ∧ t.toList = rest ++ xs := by
  intro h
  induction h with
  | zero =>
    intro t ht
    obtain ⟨xs, hne, _, rfl⟩ := ht.eq_leaf
    exact ⟨_, _, xs, [], by rw [rightmostLeaf], hne, by simp⟩
  | succ h ih =>
    intro t ht
    obtain ⟨ts, hne, _, hts, rfl⟩ := ht.eq_internal
    obtain ⟨init, last, rfl⟩ := List.eq_nil_or_concat ts |>.resolve_left hne
    rw [List.concat_eq_append] at *
    obtain ⟨s, ss, xs, rest, hrun, hxs, hlist⟩ := ih (hts last (by simp))
    refine ⟨s, ss, xs, listItems init ++ rest, ?_, hxs, by simp [hlist]⟩
    rw [rightmostLeaf, rightmostOfLast_concat, hrun]

theorem first_spec {t : SumTree T S} (ht : Valid t) : t.first = .ok t.toList.head? := by
  rcases ht with rfl | ⟨h, ht⟩
  · rfl
  · obtain ⟨s, ss, xs, rest, hrun, hxs, hlist⟩ := leftmostLeaf_spec ht
    obtain ⟨x, xs, rfl⟩ := List.exists_cons_of_ne_nil hxs
    rw [first, hrun, ok_bind, items_leaf, ok_bind, hlist]
    rfl

theorem last_spec {t : SumTree T S} (ht : Valid t) : t.last = .ok t.toList.getLast? := by
  rcases ht with rfl | ⟨h, ht⟩
  · simp [last, new, rightmostLeaf]
  · obtain ⟨s, ss, xs, rest, hrun, hxs, hlist⟩ := rightmostLeaf_spec ht
    rw [last, hrun, ok_bind, items_leaf, ok_bind, hlist, List.getLast?_append_of_ne_nil _ hxs]

/-! ### Updating the ends -/

variable [LawfulSummary S]

theorem updateFirstRecursive_spec (f : T → T) : ∀ {h : ℕ} {t : SumTree T S}, WF h t →
    ∃ r, updateFirstRecursive f t = .ok (r, some r.summary) ∧ WF h r ∧
      r.toList = t.toList.modifyHead f := by
  intro h
  induction h with
  | zero =>
    intro t ht
    obtain ⟨xs, hne, hlen, rfl⟩ := ht.eq_leaf
    obtain ⟨x, xs, rfl⟩ := List.exists_cons_of_ne_nil hne
    rw [updateFirstRecursive]
    have hsums : (x :: xs).map (Item.summary (S := S))
        = Item.summary x :: xs.map Item.summary := rfl
    rw [hsums, updateFirstItem]
    exact ⟨_, rfl, .leaf (List.cons_ne_nil (f x) xs) (by simpa using hlen), by simp⟩
  | succ h ih =>
    intro t ht
    obtain ⟨ts, hne, hlen, hts, rfl⟩ := ht.eq_internal
    obtain ⟨c, cs, rfl⟩ := List.exists_cons_of_ne_nil hne
    have hc : WF h c := hts c (by simp)
    obtain ⟨c', hrun, hc', hlist⟩ := ih hc
    have hts' : ∀ t ∈ c' :: cs, WF h t := by
      intro t ht
      rcases List.mem_cons.mp ht with rfl | ht
      · exact hc'
      · exact hts t (List.mem_cons_of_mem _ ht)
    rw [updateFirstRecursive, hrun, ok_bind]
    have hwf := WF.ofChildren (List.cons_ne_nil c' cs) (by simpa using hlen) hts'
    refine ⟨_, rfl, hwf, ?_⟩
    obtain ⟨x, xs, hx⟩ := List.exists_cons_of_ne_nil hc.toList_ne_nil
    simp only [toList_internal, listItems_cons]
    rw [hlist, hx]
    rfl

omit [LawfulSummary S] in
theorem updateLastOfLast_concat (f : T → T) (last : SumTree T S) :
    ∀ init : List (SumTree T S), updateLastOfLast f (init ++ [last]) = (do
      let (last, lastSummary) ← updateLastRecursive f last
      .ok (init ++ [last], lastSummary)) := by
  intro init
  induction init with
  | nil => rw [List.nil_append, updateLastOfLast]; rfl
  | cons t init ih =>
    obtain ⟨u, us, hu⟩ := List.exists_cons_of_ne_nil (show init ++ [last] ≠ [] by simp)
    rw [List.cons_append, hu, updateLastOfLast, ← hu, ih]
    cases updateLastRecursive f last with
    | error e => rfl
    | ok r => rfl

theorem updateLastRecursive_spec (f : T → T) : ∀ {h : ℕ} {t : SumTree T S}, WF h t →
    ∃ r, updateLastRecursive f t = .ok (r, some r.summary) ∧ WF h r ∧
      r.toList = t.toList.modifyLast f := by
  intro h
  induction h with
  | zero =>
    intro t ht
    obtain ⟨xs, hne, hlen, rfl⟩ := ht.eq_leaf
    obtain ⟨init, x, rfl⟩ := List.eq_nil_or_concat xs |>.resolve_left hne
    rw [List.concat_eq_append] at *
    rw [updateLastRecursive, List.map_append, List.map_singleton, updateLastItem]
    simp only [List.getLast?_concat, List.dropLast_concat]
    have hwf : WF 0 (leaf (sumItems (init ++ [f x]) : S) (init ++ [f x])
        ((init ++ [f x]).map Item.summary)) :=
      .leaf (by simp) (by simpa using hlen)
    rw [sumItems, List.map_append, List.map_singleton] at hwf
    exact ⟨_, rfl, hwf, by simp [List.modifyLast_concat]⟩
  | succ h ih =>
    intro t ht
    obtain ⟨ts, hne, hlen, hts, rfl⟩ := ht.eq_internal
    obtain ⟨init, c, rfl⟩ := List.eq_nil_or_concat ts |>.resolve_left hne
    rw [List.concat_eq_append] at *
    have hc : WF h c := hts c (by simp)
    obtain ⟨c', hrun, hc', hlist⟩ := ih hc
    have hts' : ∀ t ∈ init ++ [c'], WF h t := by
      intro t ht
      rcases List.mem_append.mp ht with ht | ht
      · exact hts t (by simp [ht])
      · rw [List.mem_singleton.mp ht]
        exact hc'
    rw [updateLastRecursive, updateLastOfLast_concat, hrun, ok_bind, ok_bind]
    simp only [unwrap, ok_bind]
    rw [List.map_append, List.map_singleton, setLast_concat, ok_bind]
    have hwf := WF.ofChildren (show init ++ [c'] ≠ [] by simp) (by simpa using hlen) hts'
    rw [List.map_append, List.map_singleton] at hwf
    refine ⟨_, rfl, hwf, ?_⟩
    simp only [toList_internal, listItems_append, listItems_cons, listItems_nil, List.append_nil]
    rw [hlist, List.modifyLast_append_of_right_ne_nil _ _ _ hc.toList_ne_nil]

theorem updateFirst_spec (f : T → T) {t : SumTree T S} (ht : Valid t) :
    ∃ r, updateFirst f t = .ok r ∧ Valid r ∧ r.toList = t.toList.modifyHead f ∧
      r.height = t.height := by
  rcases ht with rfl | ⟨h, ht⟩
  · exact ⟨new, rfl, valid_new, by simp, rfl⟩
  · obtain ⟨r, hrun, hr, hlist⟩ := updateFirstRecursive_spec f ht
    exact ⟨r, by rw [updateFirst, hrun]; rfl, hr.valid, hlist, hr.height_eq.trans ht.height_eq.symm⟩

theorem updateLast_spec (f : T → T) {t : SumTree T S} (ht : Valid t) :
    ∃ r, updateLast f t = .ok r ∧ Valid r ∧ r.toList = t.toList.modifyLast f ∧
      r.height = t.height := by
  rcases ht with rfl | ⟨h, ht⟩
  · exact ⟨new, by simp [updateLast, new, updateLastRecursive, updateLastItem], valid_new,
      rfl, rfl⟩
  · obtain ⟨r, hrun, hr, hlist⟩ := updateLastRecursive_spec f ht
    exact ⟨r, by rw [updateLast, hrun]; rfl, hr.valid, hlist, hr.height_eq.trans ht.height_eq.symm⟩

end SumTree

end Zui
