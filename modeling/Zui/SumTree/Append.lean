/-
Joining two trees concatenates their items.

The functions below `append` return the node they changed and the node they
split off.  On well-formed nodes none of them panics; both nodes are well formed
again, and their items are the items of the two arguments in order:

* `pushTreeRecursive_spec` — pushing a tree down the right spine (`Pushed`);
* `appendLarge_spec` — pushing a tree down the left spine (`Prepended`);
* `append_spec` — the join itself: for all valid trees of height below 255 it
  succeeds, the result is valid, holds both item sequences in order, and is at
  most one level taller than the taller tree.
-/
import Zui.SumTree.Invariant

namespace Zui

namespace SumTree

variable {T S : Type} [Zero S] [Add S] [Item T S]

/-- The items of a node that may be missing. -/
def optItems : Option (SumTree T S) → List T
  | some t => t.toList
  | none => []

/-- A node of height `h` that took items at its right end, and the node it split
off to its right: together they hold `xs`. -/
structure Pushed (h : ℕ) (xs : List T) (r : SumTree T S × Option (SumTree T S)) : Prop where
  node : WF h r.1
  split : ∀ t ∈ r.2, WF h t
  items : r.1.toList ++ optItems r.2 = xs

/-- A node of height `h` that took items at its left end, and the node it split
off to its left: together they hold `xs`. -/
structure Prepended (h : ℕ) (xs : List T) (r : SumTree T S × Option (SumTree T S)) : Prop where
  node : WF h r.1
  split : ∀ t ∈ r.2, WF h t
  items : optItems r.2 ++ r.1.toList = xs

theorem WF.eq_leaf {t : SumTree T S} (hw : WF 0 t) : ∃ xs : List T, xs ≠ [] ∧
    xs.length ≤ 2 * TREE_BASE ∧ t = .leaf (sumItems xs) xs (xs.map Item.summary) := by
  cases hw with
  | @leaf xs hne hlen => exact ⟨xs, hne, hlen, rfl⟩

theorem WF.eq_internal {h : ℕ} {t : SumTree T S} (hw : WF (h + 1) t) : ∃ ts : List (SumTree T S),
    ts ≠ [] ∧ ts.length ≤ 2 * TREE_BASE ∧ (∀ u ∈ ts, WF h u) ∧
      t = .internal (h + 1) (sumItems (listItems ts)) (ts.map SumTree.summary) ts := by
  cases hw with
  | @internal _ ts hne hlen hts => exact ⟨ts, hne, hlen, hts, rfl⟩

theorem take_ne_nil {α : Type} {n : ℕ} {xs : List α} (hn : 0 < n) (hxs : 0 < xs.length) :
    xs.take n ≠ [] := by
  rw [← List.length_pos_iff, List.length_take]
  omega

theorem drop_ne_nil {α : Type} {n : ℕ} {xs : List α} (h : n < xs.length) : xs.drop n ≠ [] := by
  rw [← List.length_pos_iff, List.length_drop]
  omega

theorem midpoint_bounds {n : ℕ} (h : 2 * TREE_BASE < n) (h' : n ≤ 2 * (2 * TREE_BASE)) :
    0 < (n + 1) / 2 ∧ (n + 1) / 2 < n ∧ (n + 1) / 2 ≤ 2 * TREE_BASE ∧
      n - (n + 1) / 2 ≤ 2 * TREE_BASE := by
  simp only [TREE_BASE] at h h' ⊢
  omega

/-! ### Splitting a run of children or items in two -/

theorem wf_leaf_halves {m : ℕ} {xs : List T} (hm : 0 < m) (hm' : m < xs.length)
    (hl : m ≤ 2 * TREE_BASE) (hr : xs.length - m ≤ 2 * TREE_BASE) :
    WF 0 (.leaf (sum ((xs.map Item.summary).take m)) (xs.take m)
      ((xs.map (Item.summary (S := S))).take m)) ∧
    WF 0 (.leaf (sum ((xs.map Item.summary).drop m)) (xs.drop m)
      ((xs.map (Item.summary (S := S))).drop m)) := by
  rw [← List.map_take, ← List.map_drop]
  constructor
  · refine WF.leaf (take_ne_nil hm (by omega)) ?_
    rw [List.length_take]
    omega
  · refine WF.leaf (drop_ne_nil hm') ?_
    rw [List.length_drop]
    exact hr

variable [LawfulSummary S]

/-- Both halves of a run of children that is split in two are well formed. -/
theorem wf_halves {h m : ℕ} {ts : List (SumTree T S)} (hts : ∀ t ∈ ts, WF h t)
    (hm : 0 < m) (hm' : m < ts.length) (hl : m ≤ 2 * TREE_BASE)
    (hr : ts.length - m ≤ 2 * TREE_BASE) :
    WF (h + 1) (.internal (h + 1) (sum ((ts.map summary).take m)) ((ts.map summary).take m)
      (ts.take m)) ∧
    WF (h + 1) (.internal (h + 1) (sum ((ts.map summary).drop m)) ((ts.map summary).drop m)
      (ts.drop m)) := by
  rw [← List.map_take, ← List.map_drop]
  constructor
  · refine WF.ofChildren (take_ne_nil hm (by omega)) ?_ fun t ht => hts t (List.mem_of_mem_take ht)
    rw [List.length_take]
    omega
  · refine WF.ofChildren (drop_ne_nil hm') ?_ fun t ht => hts t (List.mem_of_mem_drop ht)
    rw [List.length_drop]
    exact hr

/-- `appendChildren`: a node takes trees to the right of its children. -/
theorem appendChildren_spec {h : ℕ} {ts us : List (SumTree T S)} (hts : ∀ t ∈ ts, WF h t)
    (hus : ∀ u ∈ us, WF h u) (hne : ts ≠ []) (htl : ts.length ≤ 2 * TREE_BASE)
    (hul : us.length ≤ 2 * TREE_BASE) :
    ∃ r, appendChildren (h + 1) (sumItems (listItems (ts ++ us))) (ts.map summary) ts
        (us.map summary) us = .ok r ∧ Pushed (h + 1) (listItems (ts ++ us)) r := by
  have hall : ∀ t ∈ ts ++ us, WF h t := by
    intro t ht
    rcases List.mem_append.mp ht with ht | ht
    · exact hts t ht
    · exact hus t ht
  rw [appendChildren]
  by_cases hbig : ts.length + us.length > 2 * TREE_BASE
  · have hlen : (ts ++ us).length = ts.length + us.length := List.length_append
    obtain ⟨hm0, hm1, hm2, hm3⟩ := midpoint_bounds hbig (by omega)
    rw [← hlen] at hm0 hm1 hm2 hm3
    obtain ⟨hleft, hright⟩ := wf_halves hall hm0 hm1 hm2 hm3
    have hmid : ((ts ++ us).length + (ts ++ us).length % 2) / 2 = ((ts ++ us).length + 1) / 2 := by
      omega
    have hm3' : ((ts ++ us).map summary).length - ((ts ++ us).length + 1) / 2 ≤ 2 * TREE_BASE := by
      rwa [List.length_map]
    rw [if_pos hbig, ← hlen, ← List.map_append, hmid]
    simp only [collectHalves_ok hm2 hm3', collectHalves_ok hm2 hm3, ok_bind]
    refine ⟨_, rfl, hleft, ?_, ?_⟩
    · rintro t ⟨⟩
      exact hright
    · simp only [toList_internal, optItems]
      exact listItems_take_drop _ _
  · rw [if_neg hbig, extend_ok (by simpa using hbig), ok_bind, extend_ok (by omega), ok_bind]
    refine ⟨_, rfl, ?_, by simp, by simp [optItems]⟩
    rw [← List.map_append]
    refine .internal (by simp [hne]) ?_ hall
    rw [List.length_append]
    omega

theorem appendItems_spec {xs ys : List T} (hxs : xs ≠ []) (hys : ys ≠ [])
    (hxl : xs.length ≤ 2 * TREE_BASE) (hyl : ys.length ≤ 2 * TREE_BASE) :
    ∃ r, appendItems (sumItems xs : S) xs (xs.map Item.summary)
        (.leaf (sumItems ys) ys (ys.map Item.summary)) = .ok r ∧ Pushed 0 (xs ++ ys) r := by
  rw [appendItems, items_leaf, ok_bind]
  by_cases hbig : xs.length + ys.length > 2 * TREE_BASE
  · have hlen : (xs ++ ys).length = xs.length + ys.length := List.length_append
    obtain ⟨hm0, hm1, hm2, hm3⟩ := midpoint_bounds hbig (by omega)
    rw [← hlen] at hm0 hm1 hm2 hm3
    obtain ⟨hleft, hright⟩ := wf_leaf_halves (S := S) hm0 hm1 hm2 hm3
    have hmid : ((xs ++ ys).length + (xs ++ ys).length % 2) / 2 = ((xs ++ ys).length + 1) / 2 := by
      omega
    have hm3' : ((xs ++ ys).map (Item.summary (S := S))).length - ((xs ++ ys).length + 1) / 2
        ≤ 2 * TREE_BASE := by rwa [List.length_map]
    rw [if_pos hbig, ← hlen, childSummaries_leaf, ← List.map_append, hmid]
    simp only [collectHalves_ok hm2 hm3', collectHalves_ok hm2 hm3, ok_bind]
    refine ⟨_, rfl, hleft, ?_, ?_⟩
    · rintro t ⟨⟩
      exact hright
    · simp only [toList_leaf, optItems]
      exact List.take_append_drop _ _
  · rw [if_neg hbig, extend_ok (by omega), ok_bind, extend_ok (by simpa using hbig), ok_bind]
    refine ⟨_, rfl, ?_, by simp, by simp [optItems]⟩
    rw [childSummaries_leaf, summary_leaf, ← List.map_append, ← sumItems_append _ hys]
    refine .leaf (by simp [hxs]) ?_
    rw [List.length_append]
    omega

/-! ### Pushing a tree down the right spine -/

omit [Zero S] [LawfulSummary S] [Item T S] in
theorem pushTreeToLast_concat [Zero S] (other last : SumTree T S) :
    ∀ init : List (SumTree T S), pushTreeToLast (init ++ [last]) other = (do
      let (last, splitTree) ← pushTreeRecursive last other
      .ok (init ++ [last], splitTree)) := by
  intro init
  induction init with
  | nil => rw [List.nil_append, pushTreeToLast]; rfl
  | cons t init ih =>
    obtain ⟨u, us, hu⟩ := List.exists_cons_of_ne_nil (show init ++ [last] ≠ [] by simp)
    rw [List.cons_append, hu, pushTreeToLast, ← hu, ih]
    cases pushTreeRecursive last other with
    | error e => rfl
    | ok r => rfl

/-- Pushing a tree into a node that is at least as tall. -/
theorem pushTreeRecursive_spec {k : ℕ} {other : SumTree T S} (ho : WF k other) :
    ∀ {h : ℕ} {t : SumTree T S}, WF h t → k ≤ h →
      ∃ r, pushTreeRecursive t other = .ok r ∧ Pushed h (t.toList ++ other.toList) r := by
  intro h
  induction h with
  | zero =>
    intro t ht hk
    obtain rfl : k = 0 := Nat.le_zero.mp hk
    obtain ⟨xs, hxs, hxl, rfl⟩ := ht.eq_leaf
    obtain ⟨ys, hys, hyl, rfl⟩ := ho.eq_leaf
    rw [pushTreeRecursive, toList_leaf, toList_leaf]
    exact appendItems_spec hxs hys hxl hyl
  | succ h ih =>
    intro t ht hk
    obtain ⟨ts, hne, hlen, hts, rfl⟩ := ht.eq_internal
    have hsum : (sumItems (listItems ts) + other.summary : S)
        = sumItems (listItems ts ++ other.toList) := by
      rw [ho.summary_eq, sumItems_append _ ho.toList_ne_nil]
    rw [pushTreeRecursive, ho.height_eq, checkedSub_ok hk, ok_bind, toList_internal, hsum]
    by_cases hdelta : h + 1 - k = 0
    · -- Nodes of one height: the children are put side by side.
      obtain rfl : k = h + 1 := by omega
      obtain ⟨us, hune, hulen, hus, rfl⟩ := ho.eq_internal
      rw [if_pos hdelta, childTrees_internal, ok_bind, childSummaries_internal, toList_internal,
        ← listItems_append]
      exact appendChildren_spec hts hus hne hlen hulen
    · rw [if_neg hdelta]
      by_cases hchild : h + 1 - k = 1 ∧ other.isUnderflowing = false
      · -- `other` becomes the last child.
        obtain rfl : k = h := by omega
        have := appendChildren_spec hts (show ∀ u ∈ [other], WF k u by simpa using ho) hne hlen
          (by simp [TREE_BASE])
        rw [if_pos hchild]
        simpa using this
      · -- `other` goes into the last child, which may split.
        rw [if_neg hchild]
        obtain ⟨init, last, rfl⟩ := List.eq_nil_or_concat ts |>.resolve_left hne
        rw [List.concat_eq_append] at *
        have hinit : ∀ u ∈ init, WF h u := fun u hu => hts u (by simp [hu])
        obtain ⟨⟨last', split⟩, hpush, hlast', hsplit, hitems⟩ :=
          ih (hts last (by simp)) (by omega)
        -- the children in front of the last one have not changed
        have hts' : ∀ u ∈ init ++ [last'], WF h u := by
          intro u hu
          rcases List.mem_append.mp hu with hu | hu
          · exact hinit u hu
          · rw [List.mem_singleton.mp hu]
            exact hlast'
        have hlen' : (init ++ [last']).length ≤ 2 * TREE_BASE := by simpa using hlen
        have hall : listItems (init ++ [last']) ++ optItems split
            = listItems (init ++ [last]) ++ other.toList := by
          simp only [listItems_append, listItems_cons, listItems_nil, List.append_nil,
            List.append_assoc]
          rw [← hitems]
        rw [pushTreeToLast_concat, hpush, ok_bind, ok_bind]
        simp only [List.getLast?_concat, unwrap, ok_bind]
        rw [List.map_append, List.map_singleton, setLast_concat, ok_bind, ← hall]
        have hmap : init.map summary ++ [last'.summary] = (init ++ [last']).map summary := by simp
        rw [hmap]
        -- a split of the last child goes behind it, and may split the node
        cases split with
        | none =>
          have := appendChildren_spec hts' (show ∀ u ∈ [], WF h u by simp) (by simp) hlen'
            (by simp)
          simpa [optItems] using this
        | some split =>
          have := appendChildren_spec hts'
            (show ∀ u ∈ [split], WF h u by simpa using hsplit split rfl) (by simp) hlen'
            (by simp [TREE_BASE])
          simpa [optItems] using this

/-! ### Pushing a tree down the left spine -/

/-- `mergeIntoRight`, for two nodes of the same height. -/
theorem mergeIntoRight_spec {h : ℕ} {small large : SumTree T S} (hs : WF h small)
    (hl : WF h large) :
    ∃ r, mergeIntoRight small large = .ok r ∧ Prepended h (small.toList ++ large.toList) r := by
  cases h with
  | zero =>
    obtain ⟨xs, hxs, hxl, rfl⟩ := hs.eq_leaf
    obtain ⟨ys, hys, hyl, rfl⟩ := hl.eq_leaf
    rw [mergeIntoRight, toList_leaf, toList_leaf]
    by_cases hfit : xs.length + ys.length ≤ 2 * TREE_BASE
    · rw [if_pos hfit, extend_ok hfit, ok_bind, extend_ok (by simpa using hfit), ok_bind]
      refine ⟨_, rfl, ?_, by simp, by simp [optItems]⟩
      rw [← List.map_append, ← sumItems_append _ hys]
      refine .leaf (by simp [hxs]) ?_
      rw [List.length_append]
      omega
    · have hlen : (xs ++ ys).length = xs.length + ys.length := List.length_append
      obtain ⟨hm0, hm1, hm2, hm3⟩ := midpoint_bounds (Nat.lt_of_not_le hfit) (by omega)
      rw [← hlen] at hm0 hm1 hm2 hm3
      -- too many for one leaf: both halves have enough
      obtain ⟨hleft, hright⟩ := wf_leaf_halves (S := S) hm0 hm1 hm2 hm3
      have hm3' : ((xs ++ ys).map (Item.summary (S := S))).length - ((xs ++ ys).length + 1) / 2
          ≤ 2 * TREE_BASE := by rwa [List.length_map]
      rw [if_neg hfit, ← hlen, ← List.map_append]
      simp only [collectHalves_ok hm2 hm3', collectHalves_ok hm2 hm3, ok_bind]
      refine ⟨_, rfl, hright, ?_, ?_⟩
      · rintro t ⟨⟩
        exact hleft
      · simp only [toList_leaf, optItems]
        exact List.take_append_drop _ _
  | succ h =>
    obtain ⟨ts, hne, htl, hts, rfl⟩ := hs.eq_internal
    obtain ⟨us, hune, hul, hus, rfl⟩ := hl.eq_internal
    -- the children of both nodes, in order
    have hall : ∀ t ∈ ts ++ us, WF h t := by
      intro t ht
      rcases List.mem_append.mp ht with ht | ht
      · exact hts t ht
      · exact hus t ht
    rw [mergeIntoRight, toList_internal, toList_internal]
    by_cases hfit : us.length + ts.length ≤ 2 * TREE_BASE
    · rw [if_pos hfit, extend_ok (by omega), ok_bind, extend_ok (by simp; omega), ok_bind]
      refine ⟨_, rfl, ?_, by simp, by simp [optItems]⟩
      rw [← List.map_append, ← sumItems_append _ (listItems_ne_nil hune hus), ← listItems_append]
      refine .internal (by simp [hne]) ?_ hall
      rw [List.length_append]
      omega
    · have hlen : (ts ++ us).length = ts.length + us.length := List.length_append
      obtain ⟨hm0, hm1, hm2, hm3⟩ := midpoint_bounds (Nat.lt_of_not_le hfit) (by omega)
      have hcomm : us.length + ts.length = (ts ++ us).length := by omega
      rw [hcomm] at hm0 hm1 hm2 hm3
      -- too many for one node: both halves have enough
      obtain ⟨hleft, hright⟩ := wf_halves hall hm0 hm1 hm2 hm3
      have hm3' : ((ts ++ us).map summary).length - ((ts ++ us).length + 1) / 2
          ≤ 2 * TREE_BASE := by rwa [List.length_map]
      rw [if_neg hfit, hcomm, ← List.map_append]
      simp only [collectHalves_ok hm2 hm3', collectHalves_ok hm2 hm3, ok_bind]
      refine ⟨_, rfl, hright, ?_, ?_⟩
      · rintro t ⟨⟩
        exact hleft
      · simp only [toList_internal, optItems]
        rw [listItems_take_drop, listItems_append]

theorem appendLevel_spec {h : ℕ} {small large : SumTree T S} (hs : WF h small)
    (hl : WF h large) :
    ∃ r, appendLevel small large = .ok r ∧ Prepended h (small.toList ++ large.toList) r := by
  rw [appendLevel]
  by_cases hu : small.isUnderflowing = false
  · rw [if_pos hu]
    refine ⟨_, rfl, hl, ?_, rfl⟩
    rintro t ⟨⟩
    exact hs
  · rw [if_neg hu]
    exact mergeIntoRight_spec hs hl

/-- `prependChild`: a node takes a tree to the left of its children. -/
theorem prependChild_spec {h : ℕ} {t : SumTree T S} {ts : List (SumTree T S)} (ht : WF h t)
    (hts : ∀ u ∈ ts, WF h u) (hlen : ts.length ≤ 2 * TREE_BASE) :
    ∃ r, prependChild (h + 1) (sumItems (listItems (t :: ts))) (ts.map summary) ts t = .ok r ∧
      Prepended (h + 1) (listItems (t :: ts)) r := by
  have hall : ∀ u ∈ t :: ts, WF h u := by
    intro u hu
    rcases List.mem_cons.mp hu with rfl | hu
    · exact ht
    · exact hts u hu
  rw [prependChild]
  by_cases hroom : ts.length < 2 * TREE_BASE
  · rw [if_pos hroom, insertFront_ok (by simpa using hroom), ok_bind, insertFront_ok hroom, ok_bind]
    exact ⟨_, rfl, .internal (by simp) (by simp; omega) hall, by simp, by simp [optItems]⟩
  · have hfull : ts.length = 2 * TREE_BASE := by omega
    have hbase : TREE_BASE ≤ ts.length := by simp only [TREE_BASE] at hfull ⊢; omega
    have hhalves := wf_halves (m := TREE_BASE + 1) hall (by omega)
      (by simp only [TREE_BASE] at hfull ⊢; simp; omega) (by simp [TREE_BASE])
      (by simp only [TREE_BASE] at hfull ⊢; simp; omega)
    obtain ⟨hleft, hright⟩ := hhalves
    rw [if_neg hroom, sliceTo, if_pos (by simpa using hbase), ok_bind,
      extend_ok (by simp only [TREE_BASE]; simp; omega), ok_bind, sliceTo, if_pos hbase, ok_bind,
      extend_ok (by simp only [TREE_BASE]; simp; omega), ok_bind]
    refine ⟨_, rfl, hright, ?_, ?_⟩
    · rintro u ⟨⟩
      exact hleft
    · simp only [optItems, toList_internal, List.singleton_append, listItems_cons,
        List.append_assoc]
      rw [listItems_take_drop]

/-- Pushing a tree into a node that is at least as tall, from the left. -/
theorem appendLarge_spec {k : ℕ} {small : SumTree T S} (hs : WF k small) :
    ∀ {h : ℕ} {large : SumTree T S}, WF h large → k ≤ h →
      ∃ r, appendLarge small large = .ok r ∧
        Prepended h (small.toList ++ large.toList) r := by
  intro h
  induction h with
  | zero =>
    intro large hl hk
    obtain rfl : k = 0 := Nat.le_zero.mp hk
    have hlevel := appendLevel_spec hs hl
    obtain ⟨ys, hys, hyl, rfl⟩ := hl.eq_leaf
    rw [appendLarge, if_pos hs.height_eq]
    exact hlevel
  | succ h ih =>
    intro large hl hk
    have hl' := hl
    obtain ⟨ts, hne, hlen, hts, rfl⟩ := hl.eq_internal
    obtain ⟨first, rest, rfl⟩ := List.exists_cons_of_ne_nil hne
    rw [appendLarge, hs.height_eq]
    by_cases heq : k = h + 1
    · subst heq
      rw [if_pos rfl]
      exact appendLevel_spec hs hl'
    · rw [if_neg heq]
      obtain ⟨⟨first', res⟩, hpush, hfirst', hres, hitems⟩ := ih (hts first (by simp)) (by omega)
      have hts' : ∀ u ∈ first' :: rest, WF h u := by
        intro u hu
        rcases List.mem_cons.mp hu with rfl | hu
        · exact hfirst'
        · exact hts u (by simp [hu])
      have hall : optItems res ++ listItems (first' :: rest)
          = small.toList ++ listItems (first :: rest) := by
        simp only [listItems_cons, ← List.append_assoc]
        rw [← hitems]
      have hsum : (small.summary + sumItems (listItems (first :: rest)) : S)
          = sumItems (optItems res ++ listItems (first' :: rest)) := by
        rw [hs.summary_eq, ← sumItems_append _ (listItems_ne_nil hne hts), hall]
      have hmap : (first'.summary :: rest.map summary) = (first' :: rest).map summary := rfl
      rw [hpush, ok_bind, List.map_cons, toList_internal]
      simp only [setFirst_cons, ok_bind]
      rw [hsum, ← hall, hmap]
      cases res with
      | none =>
        exact ⟨_, rfl, .internal (by simp) (by simpa using hlen) hts', by simp,
          by simp [optItems]⟩
      | some tree =>
        exact prependChild_spec (hres tree rfl) hts' (by simpa using hlen)

/-! ### The join -/

theorem fromChildTrees_spec {h : ℕ} {left right : SumTree T S} (hl : WF h left)
    (hr : WF h right) (hh : h < 255) :
    ∃ r, fromChildTrees left right = .ok r ∧ WF (h + 1) r ∧
      r.toList = left.toList ++ right.toList := by
  rw [fromChildTrees, hl.height_eq, succHeight_ok hh, ok_bind, push_ok (by simp [TREE_BASE]),
    ok_bind, push_ok (by simp [TREE_BASE]), ok_bind, push_ok (by simp [TREE_BASE]), ok_bind,
    push_ok (by simp [TREE_BASE]), ok_bind]
  refine ⟨_, rfl, ?_, by simp⟩
  refine WF.ofChildren (List.cons_ne_nil left [right]) (by simp [TREE_BASE]) fun t ht => ?_
  rcases List.mem_pair.mp ht with rfl | rfl
  · exact hl
  · exact hr

/-- What joining trees of heights at most `n` gives: a valid tree that holds `xs`
and is at most one level taller. -/
structure Joined (n : ℕ) (xs : List T) (t : SumTree T S) : Prop where
  valid : Valid t
  items : t.toList = xs
  height_le : t.height ≤ n + 1
  height_le_max : t.height ≤ max n 255

/-- A join succeeds, or it needs a root above the greatest height. -/
def JoinsTo (n : ℕ) (xs : List T) (r : Result (SumTree T S)) : Prop :=
  (∃ t, r = .ok t ∧ Joined n xs t) ∨ (255 ≤ n ∧ r = .error .arithmeticOverflow)

theorem fromChildTrees_joins {h n : ℕ} {left right : SumTree T S} {xs : List T} (hl : WF h left)
    (hr : WF h right) (hn : h ≤ n) (hxs : left.toList ++ right.toList = xs) :
    JoinsTo n xs (fromChildTrees left right) := by
  by_cases hh : h < 255
  · obtain ⟨r, hrun, hwf, hlist⟩ := fromChildTrees_spec hl hr hh
    refine Or.inl ⟨r, hrun, hwf.valid, hlist.trans hxs, ?_, ?_⟩
    · rw [hwf.height_eq]
      omega
    · rw [hwf.height_eq]
      omega
  · refine Or.inr ⟨by omega, ?_⟩
    rw [fromChildTrees, hl.height_eq, succHeight, if_neg (by omega)]
    rfl

/-- Joining two valid trees of any heights. -/
theorem append_joins {a b : SumTree T S} {n : ℕ} (ha : Valid a) (hb : Valid b)
    (han : a.height ≤ n) (hbn : b.height ≤ n) :
    JoinsTo n (a.toList ++ b.toList) (append a b) := by
  rw [append, ha.isEmpty_eq, hb.isEmpty_eq]
  rcases ha with rfl | ⟨h, ha⟩
  · exact Or.inl ⟨b, by simp, hb, by simp, by omega, by omega⟩
  have hane : a.toList.isEmpty = false := by simpa using ha.toList_ne_nil
  rcases hb with rfl | ⟨k, hb⟩
  · exact Or.inl ⟨a, by simp [hane], ha.valid, by simp, by omega, by omega⟩
  have hbne : b.toList.isEmpty = false := by simpa using hb.toList_ne_nil
  rw [ha.height_eq] at han
  rw [hb.height_eq] at hbn
  rw [hane, hbne, if_neg (by simp), if_neg (by simp), ha.height_eq, hb.height_eq]
  by_cases hlt : h < k
  · rw [if_pos hlt]
    obtain ⟨⟨other, tree⟩, hrun, hother, htree, hitems⟩ := appendLarge_spec ha hb (Nat.le_of_lt hlt)
    rw [hrun, ok_bind]
    cases tree with
    | none =>
      have hheight : other.height = k := hother.height_eq
      refine Or.inl ⟨other, rfl, hother.valid, by simpa [optItems] using hitems, ?_, ?_⟩
      · omega
      · omega
    | some tree => exact fromChildTrees_joins (htree tree rfl) hother hbn hitems
  · rw [if_neg hlt]
    obtain ⟨⟨self, split⟩, hrun, hself, hsplit, hitems⟩ :=
      pushTreeRecursive_spec hb ha (Nat.le_of_not_lt hlt)
    rw [hrun, ok_bind]
    cases split with
    | none =>
      have hheight : self.height = h := hself.height_eq
      refine Or.inl ⟨self, rfl, hself.valid, by simpa [optItems] using hitems, ?_, ?_⟩
      · omega
      · omega
    | some split => exact fromChildTrees_joins hself (hsplit split rfl) han hitems

/-- **Joining two trees.**  For valid trees below the greatest height, `append`
succeeds and its result is valid and holds both item sequences in order. -/
theorem append_spec {a b : SumTree T S} {n : ℕ} (ha : Valid a) (hb : Valid b)
    (han : a.height ≤ n) (hbn : b.height ≤ n) (hn : n < 255) :
    ∃ r, append a b = .ok r ∧ Joined n (a.toList ++ b.toList) r := by
  rcases append_joins ha hb han hbn with h | ⟨h255, _⟩
  · exact h
  · omega

theorem wf_item (x : T) : WF 0 (leaf (Item.summary x : S) [x] [Item.summary x]) := by
  have hsum : sumItems [x] = (Item.summary x : S) := sumItems_singleton x
  rw [← hsum]
  have hw := WF.leaf (S := S) (List.cons_ne_nil x []) (by simp [TREE_BASE])
  rwa [List.map_singleton, ← hsum] at hw

theorem pushItem_spec {a : SumTree T S} {n : ℕ} (ha : Valid a) (han : a.height ≤ n) (hn : n < 255)
    (x : T) : ∃ r, pushItem a x = .ok r ∧ Joined n (a.toList ++ [x]) r := by
  have hx := wf_item (S := S) x
  obtain ⟨r, hrun, hr⟩ := append_spec ha hx.valid han (Nat.zero_le n) hn
  exact ⟨r, hrun, by simpa using hr⟩

end SumTree

end Zui
