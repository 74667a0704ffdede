/-
Building a tree from an iterator gives a valid tree that holds its items.

Both `fromIter` and `fromParIter` cut the items into leaves and put levels of
parent nodes over them until one node is left.  All nodes of a level but the
last have `2 * TREE_BASE` children, so a level of `n` nodes gets less than
`n / (2 * TREE_BASE) + 1` parents (`Level.count`), which bounds the number of
levels: a list of at most `(2 * TREE_BASE) ^ (n + 1)` items becomes a tree of height at
most `n`.

* `fromIter_spec`, `fromParIter_spec` — the two constructors;
* `parentNodes_spec`, `parParentNodes_spec` — one level, filled one child at a
  time or collected from chunks.
-/
import Zui.SumTree.Append

namespace Zui

/-- The most items that a tree of 16 levels has room for. -/
def maxItems : ℕ := (2 * TREE_BASE) ^ 16

namespace SumTree

variable {T S : Type} [Zero S] [Add S] [Item T S] [LawfulSummary S]

theorem sumFromFirst_ok {ss : List S} (h : ss ≠ []) : sumFromFirst ss = .ok (sum ss) := by
  obtain ⟨s, rest, rfl⟩ := List.exists_cons_of_ne_nil h
  have hsum : (s :: rest).foldl (· + ·) 0 = rest.foldl (· + ·) s := by
    rw [List.foldl_cons, LawfulSummary.zero_add]
  rw [sum, hsum]
  rfl

theorem leafOf_ok {xs : List T} (hne : xs ≠ []) (hlen : xs.length ≤ 2 * TREE_BASE) :
    leafOf xs = .ok (leaf (sumItems xs : S) xs (xs.map Item.summary)) := by
  rw [leafOf, collect_ok hlen, ok_bind, collect_ok (by simpa using hlen), ok_bind,
    sumFromFirst_ok (by simpa using hne), ok_bind]
  rfl

theorem leaves_ok (xs : List T) : ∃ ts : List (SumTree T S),
    (chunks (2 * TREE_BASE) xs).mapM leafOf = .ok ts ∧ (∀ t ∈ ts, WF 0 t) ∧
      listItems ts = xs ∧ ts.length * (2 * TREE_BASE) < xs.length + 2 * TREE_BASE := by
  have hpos : 0 < 2 * TREE_BASE := by simp [TREE_BASE]
  have hleaf : ∀ c ∈ chunks (2 * TREE_BASE) xs, ∃ t : SumTree T S,
      leafOf c = .ok t ∧ WF 0 t ∧ t.toList = c := fun c hc =>
    ⟨_, leafOf_ok (ne_nil_of_mem_chunks hpos hc) (length_le_of_mem_chunks hpos hc),
      .leaf (ne_nil_of_mem_chunks hpos hc) (length_le_of_mem_chunks hpos hc), by simp⟩
  obtain ⟨ts, hrun, hts⟩ := mapM_ok hleaf
  have hprops : ∀ {cs : List (List T)} {ts : List (SumTree T S)},
      List.Forall₂ (fun c t => WF 0 t ∧ t.toList = c) cs ts →
      (∀ t ∈ ts, WF 0 t) ∧ listItems ts = cs.flatten := by
    intro cs ts h
    induction h with
    | nil => simp
    | cons hct _ ih => exact ⟨by simpa using ⟨hct.1, ih.1⟩, by simp [hct.2, ih.2]⟩
  refine ⟨ts, hrun, (hprops hts).1, ?_, ?_⟩
  · rw [(hprops hts).2, flatten_chunks hpos]
  · rw [← hts.length_eq]
    exact length_chunks_mul hpos xs

/-! ### One level of parent nodes -/

/-- A level of parent nodes over nodes of height `h`. -/
structure Level (h : ℕ) (nodes parents : List (SumTree T S)) : Prop where
  wf : ∀ t ∈ parents, WF (h + 1) t
  items : listItems parents = listItems nodes
  count : parents.length * (2 * TREE_BASE) < nodes.length + 2 * TREE_BASE

theorem parentOf_ok {h : ℕ} {ts : List (SumTree T S)} (hne : ts ≠ [])
    (hlen : ts.length ≤ 2 * TREE_BASE) (hts : ∀ t ∈ ts, WF h t) :
    ∃ t, parentOf (h + 1) ts = .ok t ∧ WF (h + 1) t ∧ t.toList = listItems ts := by
  rw [parentOf, collect_ok hlen, ok_bind, collect_ok (by simpa using hlen), ok_bind,
    sumFromFirst_ok (by simpa using hne), ok_bind]
  exact ⟨_, rfl, .ofChildren hne hlen hts, by simp⟩

theorem parParentNodes_spec {h : ℕ} {nodes : List (SumTree T S)} (hn : ∀ t ∈ nodes, WF h t) :
    ∃ parents, parParentNodes (h + 1) nodes = .ok parents ∧ Level h nodes parents := by
  have hpos : 0 < 2 * TREE_BASE := by simp [TREE_BASE]
  have hmem : ∀ c ∈ chunks (2 * TREE_BASE) nodes, ∀ t ∈ c, WF h t := fun c hc t ht =>
    hn t (by rw [← flatten_chunks hpos nodes]; exact List.mem_flatten.mpr ⟨c, hc, ht⟩)
  have hparent : ∀ c ∈ chunks (2 * TREE_BASE) nodes, ∃ t, parentOf (h + 1) c = .ok t ∧
      WF (h + 1) t ∧ t.toList = listItems c := fun c hc =>
    parentOf_ok (ne_nil_of_mem_chunks hpos hc) (length_le_of_mem_chunks hpos hc) (hmem c hc)
  obtain ⟨ts, hrun, hts⟩ := mapM_ok hparent
  have hprops : ∀ {cs : List (List (SumTree T S))} {ts : List (SumTree T S)},
      List.Forall₂ (fun c t => WF (h + 1) t ∧ t.toList = listItems c) cs ts →
      (∀ t ∈ ts, WF (h + 1) t) ∧ listItems ts = (cs.map listItems).flatten := by
    intro cs ts h
    induction h with
    | nil => simp
    | cons hct _ ih => exact ⟨by simpa using ⟨hct.1, ih.1⟩, by simp [hct.2, ih.2]⟩
  refine ⟨ts, hrun, (hprops hts).1, ?_, ?_⟩
  · rw [(hprops hts).2, ← listItems_flatten, flatten_chunks hpos]
  · rw [← hts.length_eq]
    exact length_chunks_mul hpos nodes

/-- How far `from_iter` is with a level when it has consumed the nodes `done`: the
finished parents are full, and the parent that is being filled has the children
`current`. -/
structure Filling (h : ℕ) (done : List (SumTree T S))
    (state : List (SumTree T S) × Option (SumTree T S)) (current : List (SumTree T S)) : Prop where
  finished : ∀ t ∈ state.1, WF (h + 1) t
  children : ∀ t ∈ current, WF h t
  room : current.length < 2 * TREE_BASE
  count : state.1.length * (2 * TREE_BASE) + current.length = done.length
  items : listItems state.1 ++ listItems current = listItems done
  parent : state.2 = if current.isEmpty then none else
    some (internal (h + 1) (sumItems (listItems current)) (current.map summary) current)

theorem addChild_spec {h : ℕ} {done : List (SumTree T S)}
    {state : List (SumTree T S) × Option (SumTree T S)} {t : SumTree T S} (ht : WF h t)
    (hfill : ∃ current, Filling h done state current) :
    ∃ state', addChild (h + 1) state t = .ok state' ∧
      ∃ current, Filling h (done ++ [t]) state' current := by
  obtain ⟨current, hf⟩ := hfill
  have hparent : state.2.getD (internal (h + 1) 0 [] [])
      = internal (h + 1) (sumItems (listItems current)) (current.map summary) current := by
    rw [hf.parent]
    cases current <;> simp
  have hchildren : ∀ u ∈ current ++ [t], WF h u := by
    intro u hu
    rcases List.mem_append.mp hu with hu | hu
    · exact hf.children u hu
    · rw [List.mem_singleton.mp hu]
      exact ht
  have hsum : (sumItems (listItems current) + t.summary : S)
      = sumItems (listItems (current ++ [t])) := by
    have hone : listItems [t] = t.toList := by simp
    rw [ht.summary_eq, listItems_append, hone, sumItems_append _ ht.toList_ne_nil]
  have hmap : current.map summary ++ [t.summary] = (current ++ [t]).map summary := by simp
  have hitems : listItems state.1 ++ listItems (current ++ [t]) = listItems (done ++ [t]) := by
    rw [listItems_append, ← List.append_assoc, hf.items, listItems_append]
  have hcount := hf.count
  have hroom := hf.room
  rw [addChild, hparent]
  simp only [push_ok (by simpa using hroom : (current.map summary).length < 2 * TREE_BASE),
    push_ok hroom, ok_bind]
  rw [hsum, hmap]
  by_cases hfull : (current ++ [t]).length = 2 * TREE_BASE
  · rw [if_pos hfull]
    refine ⟨_, rfl, [], ?_, by simp, by simp [TREE_BASE], ?_, ?_, by simp⟩
    · intro u hu
      rcases List.mem_append.mp hu with hu | hu
      · exact hf.finished u hu
      · rw [List.mem_singleton.mp hu]
        exact .internal (by simp) (Nat.le_of_eq hfull) hchildren
    · simp only [List.length_append, List.length_singleton, List.length_nil] at hfull ⊢
      rw [Nat.succ_mul]
      omega
    · simpa using hitems
  · rw [if_neg hfull]
    refine ⟨_, rfl, current ++ [t], hf.finished, hchildren, ?_, ?_, hitems, by simp⟩
    · simp only [List.length_append, List.length_singleton] at hfull ⊢
      omega
    · simp only [List.length_append, List.length_singleton]
      omega

theorem parentNodes_spec {h : ℕ} {nodes : List (SumTree T S)} (hn : ∀ t ∈ nodes, WF h t) :
    ∃ parents, parentNodes (h + 1) nodes = .ok parents ∧ Level h nodes parents := by
  have hstart : ∃ current, Filling h [] (([], none) :
      List (SumTree T S) × Option (SumTree T S)) current :=
    ⟨[], by simp, by simp, by simp [TREE_BASE], by simp, by simp, by simp⟩
  obtain ⟨⟨parents, parent⟩, hrun, current, hf⟩ :=
    foldlM_ok (fun done state => ∃ current, Filling h done state current)
      (fun done state t ht hf => addChild_spec (hn t ht) hf) hstart
  rw [parentNodes, hrun, ok_bind]
  have hcount := hf.count
  have hroom := hf.room
  have hparent : parent = _ := hf.parent
  refine ⟨_, rfl, ?_⟩
  by_cases hnil : current = []
  · subst hnil
    rw [hparent]
    refine ⟨by simpa using hf.finished, by simpa using hf.items, ?_⟩
    simp only [List.nil_append, List.length_nil, List.isEmpty_nil, if_true, Option.toList_none,
      List.append_nil] at hcount ⊢
    omega
  · have hne : current.isEmpty = false := by simpa using hnil
    rw [hparent, hne]
    refine ⟨?_, by simpa using hf.items, ?_⟩
    · intro t ht
      rcases List.mem_append.mp ht with ht | ht
      · exact hf.finished t ht
      · rw [Option.mem_toList] at ht
        obtain rfl := Option.some_inj.mp ht
        exact .internal hnil (Nat.le_of_lt hroom) hf.children
    · have hpos : 0 < current.length := List.length_pos_iff.mpr hnil
      simp only [List.nil_append, Bool.false_eq_true, if_false, Option.toList_some,
        List.length_append, List.length_singleton] at hcount ⊢
      rw [Nat.succ_mul]
      omega

/-! ### All levels -/

/-- The nodes that the loop is to build over, towards a tree of height at most `n`. -/
structure Building (n : ℕ) (xs : List T) (state : ℕ × List (SumTree T S)) : Prop where
  wf : ∀ t ∈ state.2, WF state.1 t
  items : listItems state.2 = xs
  height_le : state.1 ≤ n
  count : state.2.length * (2 * TREE_BASE) ^ (state.1 + 1)
    < xs.length + (2 * TREE_BASE) ^ (state.1 + 1)

omit [LawfulSummary S] in
theorem Building.height_lt {n : ℕ} {xs : List T} {state : ℕ × List (SumTree T S)}
    (hb : Building n xs state) (hx : xs.length ≤ (2 * TREE_BASE) ^ (n + 1))
    (h2 : 1 < state.2.length) : state.1 < n := by
  by_contra hlt
  have hn : state.1 = n := by have := hb.height_le; omega
  have hcount := hb.count
  have htwo : 2 * (2 * TREE_BASE) ^ (n + 1) ≤ state.2.length * (2 * TREE_BASE) ^ (n + 1) :=
    Nat.mul_le_mul_right _ h2
  rw [hn] at hcount
  omega

theorem count_level {p n l c k : ℕ} (hp : p * (c + 1) < n + (c + 1)) (hn : n * k < l + k) :
    p * ((c + 1) * k) < l + (c + 1) * k := by
  have hle : p * (c + 1) ≤ n + c := by omega
  calc p * ((c + 1) * k) = p * (c + 1) * k := (Nat.mul_assoc _ _ _).symm
    _ ≤ (n + c) * k := Nat.mul_le_mul_right _ hle
    _ = n * k + c * k := Nat.add_mul _ _ _
    _ < l + k + c * k := by omega
    _ = l + (c + 1) * k := by rw [Nat.succ_mul]; omega

omit [LawfulSummary S] in
theorem buildUp_spec {level : ℕ → List (SumTree T S) → Result (List (SumTree T S))}
    (hlevel : ∀ h nodes, (∀ t ∈ nodes, WF h t) →
      ∃ parents, level (h + 1) nodes = .ok parents ∧ Level h nodes parents)
    {n : ℕ} (hn : n ≤ 255) {xs : List T} (hx : xs.length ≤ (2 * TREE_BASE) ^ (n + 1))
    {nodes : List (SumTree T S)} (hb : Building n xs (0, nodes)) :
    ∃ t, buildUp level nodes = .ok t ∧ Valid t ∧ t.toList = xs ∧ t.height ≤ n := by
  have hbody : ∀ state, Building n xs state →
      (∃ state', buildLevel level state = .ok (.next state') ∧ Building n xs state' ∧
        state'.2.length < state.2.length) ∨
      (∃ nodes, buildLevel level state = .ok (.done nodes) ∧
        ∃ h, h ≤ n ∧ nodes.length ≤ 1 ∧ (∀ t ∈ nodes, WF h t) ∧ listItems nodes = xs) := by
    intro state hs
    rw [buildLevel]
    by_cases hmore : state.2.length > 1
    · left
      have hlt := hs.height_lt hx hmore
      obtain ⟨parents, hrun, hwf, hitems, hcount⟩ := hlevel state.1 state.2 hs.wf
      rw [if_pos hmore, succHeight_ok (by omega), ok_bind, hrun, ok_bind]
      refine ⟨_, rfl, ⟨hwf, hitems.trans hs.items, Nat.succ_le_of_lt hlt, ?_⟩, ?_⟩
      · rw [Nat.pow_succ']
        exact count_level hcount hs.count
      · simp only [TREE_BASE] at hcount ⊢
        omega
    · right
      rw [if_neg hmore]
      exact ⟨_, rfl, state.1, hs.height_le, by omega, hs.wf, hs.items⟩
  obtain ⟨top, hrun, h, hh, hlen, hwf, hitems⟩ :=
    loop_spec (Building n xs) (fun state => state.2.length) _ hbody hb
      (Nat.lt_succ_self nodes.length)
  rw [buildUp, hrun, ok_bind]
  rcases top with _ | ⟨t, _ | ⟨t', top⟩⟩
  · exact ⟨new, rfl, by simp, by simpa using hitems, by simp [new]⟩
  · have ht := hwf t (by simp)
    refine ⟨t, rfl, ht.valid, by simpa using hitems, ?_⟩
    rw [ht.height_eq]
    exact hh
  · exact absurd hlen (by simp)

/-- `from_iter` succeeds, and the tree holds the items in order. -/
theorem fromIter_spec {n : ℕ} (hn : n ≤ 255) {xs : List T}
    (hx : xs.length ≤ (2 * TREE_BASE) ^ (n + 1)) :
    ∃ t : SumTree T S, fromIter xs = .ok t ∧ Valid t ∧ t.toList = xs ∧ t.height ≤ n := by
  obtain ⟨ts, hrun, hwf, hitems, hcount⟩ := leaves_ok (S := S) xs
  rw [fromIter, hrun, ok_bind]
  exact buildUp_spec (fun _ _ hwf => parentNodes_spec hwf) hn hx
    ⟨hwf, hitems, Nat.zero_le _, by simpa using hcount⟩

/-- `from_par_iter` succeeds, and the tree holds the items in order. -/
theorem fromParIter_spec {n : ℕ} (hn : n ≤ 255) {xs : List T}
    (hx : xs.length ≤ (2 * TREE_BASE) ^ (n + 1)) :
    ∃ t : SumTree T S, fromParIter xs = .ok t ∧ Valid t ∧ t.toList = xs ∧ t.height ≤ n := by
  obtain ⟨ts, hrun, hwf, hitems, hcount⟩ := leaves_ok (S := S) xs
  rw [fromParIter, hrun, ok_bind]
  exact buildUp_spec (fun _ _ hwf => parParentNodes_spec hwf) hn hx
    ⟨hwf, hitems, Nat.zero_le _, by simpa using hcount⟩

end SumTree

end Zui
