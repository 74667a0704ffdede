/-
What an insertion into a bounds tree does.

An insertion descends to a node with a leaf for its best child, adds the new leaf there, and then
goes up the path again.  It turns the shape that the vector stores into one with the new leaf, and
leaves the rest of the vector as it is.

* `Joined` — what the shape is after it has taken in the new leaf;
* `Grown` — what an insertion does to some shapes that a vector stores;
* `Grown.context`, `Grown.node` — from a child to its siblings, and to its parent;
* `descend_spec` — the loops down and up a shape;
* `BoundsTree.Represents` — a tree and the bounds with the orders that it holds;
* `BoundsTree.insert_spec` — the order of new bounds is one more than the greatest order of the
  bounds that they intersect. -/
import Zui.Gpui.Shape

namespace Zui.Gpui

open Shape

variable {U : Type}

/-! ### Children -/

theorem NodeChildren.swap_map {α : Type} (f : α → ℕ) {xs : List α} {i j : ℕ} (hi : i < xs.length)
    (hj : j < xs.length) :
    ∃ ys : List α, ys.Perm xs ∧ (j + 1 = xs.length → ys.getLast? = xs[i]?) ∧
      NodeChildren.swap (xs.map f) i j = .ok (ys.map f) := by
  refine ⟨(xs.set i xs[j]).set j xs[i], List.set_set_perm hi hj, ?_, ?_⟩
  · intro hlast
    rw [List.getLast?_eq_getElem?]
    simp only [List.length_set, ← hlast, Nat.add_sub_cancel]
    rw [List.getElem?_set_self (by simpa using hj), List.getElem?_eq_getElem hi]
  · have hindex {k : ℕ} (hk : k < xs.length) : index (xs.map f) k = .ok (f xs[k]) :=
      index_ok (by simp [hk])
    rw [NodeChildren.swap, hindex hi, ok_bind, hindex hj, ok_bind, List.map_set, List.map_set]

theorem NodeChildren.swap_if {α : Type} (f : α → ℕ) {xs : List α} {i j : ℕ} (p : Prop) [Decidable p]
    (hi : i < xs.length) (hj : j < xs.length) :
    ∃ ys : List α, ys.Perm xs ∧ (p → j + 1 = xs.length → ys.getLast? = xs[i]?) ∧
      (¬ p → ys = xs) ∧ ∀ {β : Type} (k : NodeChildren → Result β),
      (if p then NodeChildren.swap (xs.map f) i j >>= k else .ok (xs.map f) >>= k) =
        k (ys.map f) := by
  split_ifs with hp
  · obtain ⟨ys, hperm, hlast, hswap⟩ := NodeChildren.swap_map f hi hj
    refine ⟨ys, hperm, fun _ => hlast, fun hnot => absurd hp hnot, fun k => ?_⟩
    rw [hswap, ok_bind]
  · exact ⟨xs, .refl xs, fun h => absurd h hp, fun _ => rfl, fun k => ok_bind _ _⟩

/-! ### Growing -/

/-- What inserting a leaf with the index `k` does to some shapes that a vector stores. -/
structure Grown [AddCommGroup U] [LinearOrder U] (nodes nodes' : List (Node U)) (k : ℕ)
    (new : Bounds U × ℕ) (ss ss' : List (Shape U)) : Prop where
  stores : Stores nodes' ss'
  sound : ∀ s ∈ ss', s.Sound
  leaves : (ss'.flatMap Shape.leaves).Perm (new :: ss.flatMap Shape.leaves)
  indices : ∃ fresh, (Gpui.indices ss').Perm (fresh ++ Gpui.indices ss) ∧ fresh.Nodup ∧
    ∀ i ∈ fresh, i = k ∨ i = nodes.length
  frame : ∀ i < nodes.length, i ∉ Gpui.indices ss → nodes'[i]? = nodes[i]?
  leafFrame : ∀ (i : ℕ) (b : Bounds U) (o : ℕ),
    nodes[i]? = some (Node.mk b o (.leaf o)) → nodes'[i]? = nodes[i]?

theorem mem_indices_iff {ss : List (Shape U)} {i : ℕ} :
    i ∈ indices ss ↔ ∃ c ∈ ss.flatMap cells, c.1 = i := by
  simp [indices]

theorem indices_perm {ss ss' : List (Shape U)} (h : ss.Perm ss') :
    (indices ss).Perm (indices ss') :=
  (h.flatMap_right cells).map _

theorem Stores.perm {nodes : List (Node U)} {ss ss' : List (Shape U)} (h : Stores nodes ss)
    (hperm : ss'.Perm ss) : Stores nodes ss' :=
  fun c hc => h c ((hperm.flatMap_right cells).mem_iff.mp hc)

theorem Stores.of_frame {nodes nodes' : List (Node U)} {ss : List (Shape U)} (h : Stores nodes ss)
    (hframe : ∀ i ∈ indices ss, nodes'[i]? = nodes[i]?) : Stores nodes' ss :=
  fun c hc => (hframe c.1 (mem_indices_iff.mpr ⟨c, hc, rfl⟩)).trans (h c hc)

/-! ### What is kept of a shape -/

/-- What a shape is after it has taken in the new leaf with the index `k`, and the nodes that the
vector has gained. -/
structure Joined [AddCommGroup U] [LinearOrder U] (nodes nodes' : List (Node U)) (k : ℕ)
    (bounds : Bounds U) (order : ℕ) (s s' : Shape U) : Prop where
  encloses_iff : ∀ B : Bounds U, B.Encloses s'.root.bounds ↔
    B.Encloses s.root.bounds ∧ B.Encloses bounds
  maxOrder : s'.root.maxOrder = max s.root.maxOrder order
  gained : ∀ i, i = k ∨ nodes.length ≤ i ∧ i < nodes'.length → i ∈ indices [s']
  built : s.Built → s'.Built

namespace Joined

variable [AddCommGroup U] [LinearOrder U] {nodes nodes' nodes'' : List (Node U)}
  {bounds b b' : Bounds U} {i k m order : ℕ}

/-- The new leaf joins a node with room for it. -/
theorem add {cs ds : List (Shape U)} (hnodes : nodes'.length = nodes.length)
    (hroom : cs.length < MAX_CHILDREN)
    (hds : ds.Perm (cs ++ [.leaf k bounds order]))
    (hlast : cs ≠ [] →
      ds.getLast? = if order ≤ m then cs.getLast? else some (.leaf k bounds order))
    (hb' : ∀ B : Bounds U, B.Encloses b' ↔ B.Encloses b ∧ B.Encloses bounds) :
    Joined nodes nodes' k bounds order (.node i b m cs) (.node i b' (max m order) ds) := by
  obtain ⟨hb, hbounds⟩ := (hb' b').mp (.refl b')
  refine ⟨hb', rfl, fun j hj => ?_, fun h => ?_⟩
  · obtain rfl : j = k := by omega
    rw [indices_node]
    refine List.mem_cons_of_mem _ ((indices_perm hds).mem_iff.mpr ?_)
    rw [indices_append, indices_leaf]
    exact List.mem_append_right _ (List.mem_singleton_self _)
  cases h with
  | node htwo hmax hchildren hencloses horder hold =>
    have hlength := hds.length_eq
    rw [List.length_append, List.length_singleton] at hlength
    have hmem : ∀ c ∈ ds, c ∈ cs ∨ c = .leaf k bounds order := by
      intro c hc
      simpa using hds.mem_iff.mp hc
    have hlast := hlast (List.length_pos_iff.mp (by omega))
    refine .node (by omega) (by omega) ?_ ?_ ?_ ?_
    · intro c hc
      rcases hmem c hc with hc | rfl
      · exact hchildren c hc
      · exact .leaf _ _ _
    · intro c hc
      rcases hmem c hc with hc | rfl
      · exact hb.trans (hencloses c hc)
      · exact hbounds
    · intro c hc
      rcases hmem c hc with hc | rfl
      · exact (horder c hc).trans (le_max_left _ _)
      · exact le_max_right _ _
    · by_cases hle : order ≤ m
      · rw [hlast, if_pos hle, max_eq_left hle]
        exact hold
      · rw [hlast, if_neg hle]
        exact ⟨_, rfl, (max_eq_right (not_le.mp hle).le).symm⟩

/-- A child takes in the new leaf, and goes to the end if its order is the greatest now. -/
theorem raise {l r ds : List (Shape U)} {c c' : Shape U}
    (hc' : Joined nodes nodes' k bounds order c c') (hnodes : nodes''.length = nodes'.length)
    (hds : ds.Perm (l ++ c' :: r))
    (hlast : c.root.maxOrder ≤ m →
      ds.getLast? = if m < order then some c' else (l ++ c' :: r).getLast?)
    (hb' : ∀ B : Bounds U, B.Encloses b' ↔ B.Encloses b ∧ B.Encloses bounds) :
    Joined nodes nodes'' k bounds order (.node i b m (l ++ c :: r))
      (.node i b' (max m order) ds) := by
  obtain ⟨hb, hbounds⟩ := (hb' b').mp (.refl b')
  refine ⟨hb', rfl, fun j hj => ?_, fun h => ?_⟩
  · rw [indices_node]
    refine List.mem_cons_of_mem _ ((indices_perm hds).mem_iff.mpr ?_)
    rw [indices_append, ← List.singleton_append, indices_append]
    exact List.mem_append_right _ (List.mem_append_left _ (hc'.gained j (hnodes ▸ hj)))
  cases h with
  | node htwo hmax hchildren hencloses horder hold =>
    have hc : c ∈ l ++ c :: r := List.mem_append_right _ List.mem_cons_self
    have hlast := hlast (horder c hc)
    have hlength := hds.length_eq
    simp only [List.length_append, List.length_cons] at hlength htwo hmax
    -- all children but one are those from before
    have hmem : ∀ d ∈ ds, d ∈ l ++ c :: r ∨ d = c' := by
      intro d hd
      have hd := hds.mem_iff.mp hd
      simp only [List.mem_append, List.mem_cons] at hd ⊢
      tauto
    refine .node (by omega) (by omega) ?_ ?_ ?_ ?_
    · intro d hd
      rcases hmem d hd with hd | rfl
      · exact hchildren d hd
      · exact hc'.built (hchildren c hc)
    · intro d hd
      rcases hmem d hd with hd | rfl
      · exact hb.trans (hencloses d hd)
      · exact (hc'.encloses_iff b').mpr ⟨hb.trans (hencloses c hc), hbounds⟩
    · intro d hd
      rcases hmem d hd with hd | rfl
      · exact (horder d hd).trans (le_max_left _ _)
      · rw [hc'.maxOrder]
        exact max_le_max_right order (horder c hc)
    · by_cases hlt : m < order
      · refine ⟨c', by rw [hlast, if_pos hlt], ?_⟩
        rw [hc'.maxOrder, max_eq_right ((horder c hc).trans hlt.le), max_eq_right hlt.le]
      · -- The last child has the greatest order as before, whether it is the one that changed.
        rw [hlast, if_neg hlt, max_eq_left (not_lt.mp hlt)]
        obtain ⟨d, hd, hdm⟩ := hold
        rcases List.eq_nil_or_concat r with rfl | ⟨r, e, rfl⟩
        · rw [List.getLast?_concat] at hd ⊢
          obtain rfl := Option.some.inj hd
          refine ⟨c', rfl, ?_⟩
          rw [hc'.maxOrder, hdm, max_eq_left (not_lt.mp hlt)]
        · rw [List.concat_eq_append, ← List.cons_append, ← List.append_assoc,
            List.getLast?_concat] at hd ⊢
          exact ⟨d, hd, hdm⟩

end Joined

/-! ### Growing, from a child to its parent -/

namespace Grown

variable [AddCommGroup U] [LinearOrder U] {nodes nodes' : List (Node U)} {k : ℕ}
  {new : Bounds U × ℕ} {ss ss' : List (Shape U)}

theorem nodup (h : Grown nodes nodes' k new ss ss') (hstores : Stores nodes ss)
    (hnodup : (Gpui.indices ss).Nodup) (hk : k ∉ Gpui.indices ss) : (Gpui.indices ss').Nodup := by
  obtain ⟨fresh, hperm, hfresh, hmem⟩ := h.indices
  refine hperm.nodup_iff.mpr (hfresh.append hnodup ?_)
  intro i hi hi'
  rcases hmem i hi with rfl | rfl
  · exact hk hi'
  · exact absurd (hstores.lt_length _ hi') (lt_irrefl _)

/-- From a child to its siblings. -/
theorem context {c c' : Shape U} (h : Grown nodes nodes' k new [c] [c']) {l r : List (Shape U)}
    (hstores : Stores nodes (l ++ c :: r)) (hsound : ∀ s ∈ l ++ c :: r, s.Sound)
    (hnodup : (Gpui.indices (l ++ c :: r)).Nodup) :
    Grown nodes nodes' k new (l ++ c :: r) (l ++ c' :: r) := by
  have hsplit (d : Shape U) : (l ++ d :: r).Perm ([d] ++ (l ++ r)) := List.perm_middle
  have hrest : Stores nodes (l ++ r) := (Stores.append_iff.mp (hstores.perm (hsplit c).symm)).2
  have hdisjoint : ∀ i ∈ Gpui.indices (l ++ r), i ∉ Gpui.indices [c] := by
    have hnodup := (indices_perm (hsplit c)).nodup_iff.mp hnodup
    rw [indices_append] at hnodup
    exact fun i hi hi' => (List.nodup_append.mp hnodup).2.2 i hi' i hi rfl
  have hrest' : Stores nodes' (l ++ r) := hrest.of_frame fun i hi =>
    h.frame i (hrest.lt_length i hi) (hdisjoint i hi)
  refine ⟨(Stores.append_iff.mpr ⟨h.stores, hrest'⟩).perm (hsplit c'), ?_, ?_, ?_, ?_, h.leafFrame⟩
  · intro s hs
    rcases List.mem_append.mp ((hsplit c').mem_iff.mp hs) with hs | hs
    · exact h.sound s hs
    · exact hsound s ((hsplit c).mem_iff.mpr (List.mem_append_right _ hs))
  · refine ((hsplit c').flatMap_right _).trans ?_
    rw [List.flatMap_append]
    refine (h.leaves.append_right _).trans ?_
    rw [List.cons_append, ← List.flatMap_append]
    exact (((hsplit c).flatMap_right _).symm).cons _
  · obtain ⟨fresh, hperm, hfresh⟩ := h.indices
    refine ⟨fresh, (indices_perm (hsplit c')).trans ?_, hfresh⟩
    rw [indices_append]
    refine (hperm.append_right _).trans ?_
    rw [List.append_assoc, ← indices_append]
    exact (indices_perm (hsplit c).symm).append_left _
  · intro i hi hnot
    refine h.frame i hi fun hin => hnot ((indices_perm (hsplit c)).mem_iff.mpr ?_)
    rw [indices_append]
    exact List.mem_append_left _ hin

/-- From the children to their parent. -/
theorem node {cs cs' ds : List (Shape U)} (h : Grown nodes nodes' k new cs cs') (hds : ds.Perm cs')
    {i : ℕ} {b b' : Bounds U} {m m' : ℕ} (hstores : Stores nodes [.node i b m cs])
    (hnodup : (Gpui.indices [.node i b m cs]).Nodup) (hk : k ∉ Gpui.indices [.node i b m cs])
    (hsound : (Shape.node i b m cs).Sound) (hcover : b'.Covers b) (hcover' : b'.Covers new.1)
    (horder : m ≤ m') (horder' : new.2 ≤ m') :
    Grown nodes (nodes'.set i ⟨b', m', .internal (ds.map Shape.idx)⟩) k new [.node i b m cs]
      [.node i b' m' ds] := by
  rw [indices_node] at hnodup hk
  obtain ⟨hi, hcs⟩ := List.nodup_cons.mp hnodup
  have hroot : nodes[i]? = some ⟨b, m, .internal (cs.map Shape.idx)⟩ :=
    hstores.root (List.mem_singleton_self _)
  have hlt : i < nodes.length := (List.getElem?_eq_some_iff.mp hroot).1
  obtain ⟨fresh, hperm, hfresh, hmem⟩ := h.indices
  have hindices : (Gpui.indices ds).Perm (fresh ++ Gpui.indices cs) :=
    (indices_perm hds).trans hperm
  -- the cell of the parent is none of those of its children
  have hnot : i ∉ Gpui.indices ds := by
    intro hin
    rcases List.mem_append.mp (hindices.mem_iff.mp hin) with hin | hin
    · rcases hmem i hin with rfl | rfl
      · exact hk (List.mem_cons_self)
      · exact lt_irrefl _ hlt
    · exact hi hin
  have hlt' : i < nodes'.length := by
    have hcell := h.frame i hlt hi
    rw [hroot] at hcell
    exact (List.getElem?_eq_some_iff.mp hcell).1
  have hset : ∀ j, j ≠ i →
      (nodes'.set i ⟨b', m', .internal (ds.map Shape.idx)⟩)[j]? = nodes'[j]? :=
    fun j hj => List.getElem?_set_ne (Ne.symm hj)
  refine ⟨?_, ?_, ?_, ?_, ?_, ?_⟩
  · have hchildren : Stores (nodes'.set i ⟨b', m', .internal (ds.map Shape.idx)⟩) ds :=
      (h.stores.perm hds).of_frame fun j hj => hset j fun heq => hnot (heq ▸ hj)
    intro c hc
    rw [List.flatMap_singleton, cells] at hc
    rcases List.mem_cons.mp hc with rfl | hc
    · exact List.getElem?_set_self hlt'
    · exact hchildren c hc
  · intro s hs
    rw [List.mem_singleton] at hs
    subst hs
    refine .node ?_ (fun d hd => h.sound d (hds.mem_iff.mp hd)) ?_
    · rintro rfl
      have hlength := h.leaves.length_eq
      rw [List.nil_perm.mp hds] at hlength
      simp at hlength
    · intro l hl
      rcases List.mem_cons.mp (h.leaves.mem_iff.mp ((hds.flatMap_right _).mem_iff.mp hl))
        with rfl | hl
      · exact ⟨hcover', horder'⟩
      · cases hsound with
        | node _ _ hbounding =>
          obtain ⟨hcovers, hle⟩ := hbounding l hl
          exact ⟨hcover.trans hcovers, hle.trans horder⟩
  · simp only [List.flatMap_singleton, Shape.leaves]
    exact (hds.flatMap_right _).trans h.leaves
  · refine ⟨fresh, ?_, hfresh, hmem⟩
    rw [indices_node, indices_node]
    exact (hindices.cons i).trans List.perm_middle.symm
  · intro j hj hnotin
    rw [indices_node, List.mem_cons, not_or] at hnotin
    rw [hset j hnotin.1]
    exact h.frame j hj hnotin.2
  · intro j b₀ o hleaf
    have hne : j ≠ i := by
      rintro rfl
      rw [hroot] at hleaf
      simp at hleaf
    rw [hset j hne]
    exact h.leafFrame j b₀ o hleaf

/-- The new leaf beside the others. -/
theorem leaf {bounds : Bounds U} {order : ℕ} (hstores : Stores nodes ss)
    (hsound : ∀ s ∈ ss, s.Sound) (hleaf : nodes[k]? = some ⟨bounds, order, .leaf order⟩) :
    Grown nodes nodes k (bounds, order) ss (ss ++ [.leaf k bounds order]) := by
  refine ⟨Stores.append_iff.mpr ⟨hstores, ?_⟩, ?_, ?_, ⟨[k], ?_, by simp, by simp⟩,
    fun _ _ _ => rfl, fun _ _ _ _ => rfl⟩
  · intro c hc
    rw [List.flatMap_singleton, cells, List.mem_singleton] at hc
    rw [hc]
    exact hleaf
  · intro s hs
    rcases List.mem_append.mp hs with hs | hs
    · exact hsound s hs
    · rw [List.mem_singleton.mp hs]
      exact .leaf _ _ _
  · rw [List.flatMap_append, List.flatMap_singleton, Shape.leaves]
    exact List.perm_append_singleton _ _
  · rw [indices_append, indices_leaf]
    exact List.perm_append_comm

/-- A new node in the place of a leaf, over it and the new leaf. -/
theorem pair {bounds cb : Bounds U} {order ci co : ℕ} (hstores : Stores nodes [.leaf ci cb co])
    (hleaf : nodes[k]? = some ⟨bounds, order, .leaf order⟩) :
    ∃ cs : List (Shape U), BoundsTree.pairNode ci k ⟨cb, co, .leaf co⟩ bounds order =
        ⟨cb.union bounds, max co order, .internal (cs.map Shape.idx)⟩ ∧
      Grown nodes (nodes ++ [BoundsTree.pairNode ci k ⟨cb, co, .leaf co⟩ bounds order]) k
        (bounds, order)
        [.leaf ci cb co] [.node nodes.length (cb.union bounds) (max co order) cs] ∧
      Joined nodes (nodes ++ [BoundsTree.pairNode ci k ⟨cb, co, .leaf co⟩ bounds order]) k bounds
        order (.leaf ci cb co) (.node nodes.length (cb.union bounds) (max co order) cs) := by
  -- the leaf with the greater order comes last, and the old one if they are equal
  obtain ⟨cs, hperm, hidx, hlast⟩ : ∃ cs : List (Shape U),
      cs.Perm [.leaf k bounds order, .leaf ci cb co] ∧
        cs.map Shape.idx = BoundsTree.pairOf ci k co order ∧
        ∃ c, cs.getLast? = some c ∧ c.root.maxOrder = max co order := by
    rw [BoundsTree.pairOf]
    split_ifs with hlt
    · exact ⟨[.leaf ci cb co, .leaf k bounds order], .swap _ _ _, rfl, _, rfl,
        (max_eq_right (show co ≤ order from hlt.le)).symm⟩
    · exact ⟨[.leaf k bounds order, .leaf ci cb co], .refl _, rfl, _, rfl,
        (max_eq_left (not_lt.mp hlt)).symm⟩
  have hpair : BoundsTree.pairNode ci k ⟨cb, co, .leaf co⟩ bounds order =
      ⟨cb.union bounds, max co order, .internal (cs.map Shape.idx)⟩ := by
    rw [BoundsTree.pairNode, hidx]
  -- the vector only gets longer
  have hold : ∀ i < nodes.length,
      (nodes ++ [BoundsTree.pairNode ci k ⟨cb, co, .leaf co⟩ bounds order])[i]? = nodes[i]? :=
    fun i hi => List.getElem?_append_left hi
  have hk : k < nodes.length := (List.getElem?_eq_some_iff.mp hleaf).1
  have hci : ci < nodes.length :=
    (List.getElem?_eq_some_iff.mp (hstores.root (List.mem_singleton_self _))).1
  have hmem : ∀ c ∈ cs, c = .leaf k bounds order ∨ c = .leaf ci cb co := by
    intro c hc
    simpa using hperm.mem_iff.mp hc
  have hbuilt : (Shape.node nodes.length (cb.union bounds) (max co order) cs).Built := by
    obtain ⟨hcb, hbounds⟩ := Bounds.encloses_union_iff.mp (.refl (cb.union bounds))
    have hlength : cs.length = 2 := hperm.length_eq
    refine .node hlength.ge (hlength.trans_le (by decide)) ?_ ?_ ?_ hlast
    · intro c hc
      rcases hmem c hc with rfl | rfl <;> exact .leaf _ _ _
    · intro c hc
      rcases hmem c hc with rfl | rfl
      · exact hbounds
      · exact hcb
    · intro c hc
      rcases hmem c hc with rfl | rfl
      · exact le_max_right _ _
      · exact le_max_left _ _
  -- the indices that are new here are the pair's own and the new leaf's
  have hgained : ∀ i, i = k ∨ nodes.length ≤ i ∧
      i < (nodes ++ [BoundsTree.pairNode ci k ⟨cb, co, .leaf co⟩ bounds order]).length →
      i ∈ Gpui.indices [.node nodes.length (cb.union bounds) (max co order) cs] := by
    intro i hi
    rw [List.length_append, List.length_singleton] at hi
    rw [indices_node]
    obtain rfl | rfl : i = k ∨ i = nodes.length := by omega
    · refine List.mem_cons_of_mem _ ((indices_perm hperm).mem_iff.mpr ?_)
      simp [Gpui.indices, cells]
    · exact List.mem_cons_self
  refine ⟨cs, hpair, ⟨?_, ?_, ?_, ⟨[nodes.length, k], ?_, ?_, ?_⟩, fun i hi _ => hold i hi, ?_⟩,
    fun B => Bounds.encloses_union_iff, rfl, hgained, fun _ => hbuilt⟩
  · intro c hc
    rw [List.flatMap_singleton, cells] at hc
    rcases List.mem_cons.mp hc with rfl | hc
    · simp [hpair]
    · have hc := (hperm.flatMap_right cells).mem_iff.mp hc
      simp only [List.flatMap_cons, cells, List.flatMap_nil, List.append_nil, List.cons_append,
        List.nil_append, List.mem_cons, List.not_mem_nil, or_false] at hc
      rcases hc with rfl | rfl
      · exact (hold k hk).trans hleaf
      · exact (hold ci hci).trans (hstores.root (List.mem_singleton_self _))
  · intro s hs
    rw [List.mem_singleton.mp hs]
    refine .node ?_ ?_ ?_
    · rintro rfl
      simpa using hperm.length_eq
    · intro c hc
      rcases hmem c hc with rfl | rfl <;> exact .leaf _ _ _
    · intro l hl
      have hl := (hperm.flatMap_right _).mem_iff.mp hl
      simp only [List.flatMap_cons, Shape.leaves, List.flatMap_nil, List.append_nil,
        List.cons_append, List.nil_append, List.mem_cons, List.not_mem_nil, or_false] at hl
      rcases hl with rfl | rfl
      · exact ⟨Bounds.covers_union_right _ _, le_max_right _ _⟩
      · exact ⟨Bounds.covers_union_left _ _, le_max_left _ _⟩
  · simpa [Shape.leaves] using hperm.flatMap_right Shape.leaves
  · rw [indices_node]
    refine ((indices_perm hperm).cons _).trans (.of_eq ?_)
    simp [Gpui.indices, cells]
  · simpa using hk.ne'
  · simp
  · intro i b o hi
    exact hold i (List.getElem?_eq_some_iff.mp hi).1

end Grown

/-! ### The loops -/

namespace BoundsTree

variable [AddCommGroup U] [LinearOrder U] {nodes : List (Node U)}

/-- A step up: the bounds and the order of the node are raised, and its children keep their set;
if the order is raised, then the child that was changed comes to the end. -/
theorem propagate_node (bounds : Bounds U) (order : ℕ) {b : Bounds U} {i m : ℕ}
    {cs : List (Shape U)} (hroot : nodes[i]? = some ⟨b, m, .internal (cs.map Shape.idx)⟩)
    (updated : Option ℕ) :
    ∃ ds : List (Shape U), ds.Perm cs ∧ propagate bounds order (nodes, updated) i =
        .ok (nodes.set i ⟨b.union bounds, max m order, .internal (ds.map Shape.idx)⟩, some i) ∧
      (updated = none → ds = cs) ∧
      ∀ c ∈ cs, (cs.map Shape.idx).Nodup → updated = some c.idx →
        ds.getLast? = if m < order then some c else cs.getLast? := by
  by_cases hraise : m < order
  · obtain ⟨ds, hperm, hrun, hnone, hlast⟩ : ∃ ds : List (Shape U), ds.Perm cs ∧
        raiseOrder order updated ⟨b.union bounds, m, .internal (cs.map Shape.idx)⟩ =
          .ok ⟨b.union bounds, order, .internal (ds.map Shape.idx)⟩ ∧
        (updated = none → ds = cs) ∧
        ∀ c ∈ cs, (cs.map Shape.idx).Nodup → updated = some c.idx → ds.getLast? = some c := by
      cases updated with
      | none => exact ⟨cs, .refl cs, rfl, fun _ => rfl, fun _ _ _ h => by cases h⟩
      | some childIdx =>
        simp only [raiseOrder]
        cases hpos : (cs.map Shape.idx).idxOf? childIdx with
        | none =>
          refine ⟨cs, .refl cs, rfl, fun _ => rfl, fun c hc _ hidx => ?_⟩
          rw [List.idxOf?_eq_none_iff] at hpos
          exact absurd (List.mem_map.mpr ⟨c, hc, (Option.some.inj hidx).symm⟩) hpos
        | some pos =>
          obtain ⟨hlt, hget, -⟩ := List.idxOf?_eq_some_iff.mp hpos
          rw [List.length_map] at hlt
          rw [List.getElem_map] at hget
          obtain ⟨ds, hperm, hswapped, hkept, hswap⟩ := NodeChildren.swap_if Shape.idx
            (pos ≠ (cs.map Shape.idx).length - 1) hlt
            (by simp only [List.length_map]; omega : (cs.map Shape.idx).length - 1 < cs.length)
          refine ⟨ds, hperm, hswap _, (fun h => by cases h), fun c hc hnodup hidx => ?_⟩
          -- The index of the child stands at its position only.
          have hchild : cs[pos]? = some c := by
            obtain ⟨q, hq, rfl⟩ := List.getElem_of_mem hc
            obtain rfl : pos = q := by
              refine (List.getElem?_inj (by simpa using hlt) hnodup).mp ?_
              rw [List.getElem?_map, List.getElem?_map, List.getElem?_eq_getElem hlt,
                List.getElem?_eq_getElem hq, Option.map_some, hget, Option.map_some]
              exact hidx
            exact List.getElem?_eq_getElem hlt
          by_cases hend : pos ≠ (cs.map Shape.idx).length - 1
          · rw [hswapped hend (by simp only [List.length_map]; omega), hchild]
          · rw [hkept hend, List.getLast?_eq_getElem?, ← hchild]
            congr 1
            rw [List.length_map] at hend
            omega
    refine ⟨ds, hperm, ?_, hnone, fun c hc hnodup hidx =>
      by rw [if_pos hraise, hlast c hc hnodup hidx]⟩
    rw [propagate]
    dsimp only
    rw [index_ok hroot, ok_bind, if_pos hraise, hrun, ok_bind, max_eq_right hraise.le]
  · refine ⟨cs, .refl cs, ?_, fun _ => rfl, fun _ _ _ _ => by rw [if_neg hraise]⟩
    rw [propagate]
    dsimp only
    rw [index_ok hroot, ok_bind, if_neg hraise, ok_bind, max_eq_left (not_lt.mp hraise)]

theorem bestChild_spec {cs : List (Shape U)} (hstores : Stores nodes cs) (hne : cs ≠ [])
    (bounds : Bounds U) : ∃ l c r cost, cs = l ++ c :: r ∧
      bestChild nodes bounds (cs.map Shape.idx) = .ok ⟨c.idx, l.length, cost⟩ := by
  -- the child found so far is at its place
  let Found (best : Best U) : Prop := ∃ c, cs[best.childPos]? = some c ∧ best.childIdx = c.idx
  obtain ⟨c₀, rest, rfl⟩ := List.exists_cons_of_ne_nil hne
  have hfirst : index ((c₀ :: rest).map Shape.idx) 0 = .ok c₀.idx := rfl
  have hroot := index_ok (hstores.root (List.mem_cons_self (a := c₀)))
  have hstep : ∀ (done : List (ℕ × ℕ)) (best : Best U),
      ∀ entry ∈ (((c₀ :: rest).map Shape.idx).zipIdx).drop 1, Found best →
        ∃ best', bestStep nodes bounds best entry = .ok best' ∧ Found best' := by
    rintro done best ⟨childIdx, pos⟩ hentry ⟨c, hc, hidx⟩
    have hpos := List.mem_zipIdx_iff_getElem?.mp (List.mem_of_mem_drop hentry)
    rw [List.getElem?_map] at hpos
    obtain ⟨d, hd, hd'⟩ := Option.map_eq_some_iff.mp hpos
    simp only at hd hd'
    subst hd'
    have hdroot := index_ok (hstores.root (List.mem_of_getElem? hd))
    simp only [bestStep, hdroot, ok_bind]
    split_ifs
    · exact ⟨_, rfl, d, hd, rfl⟩
    · exact ⟨_, rfl, c, hc, hidx⟩
  obtain ⟨best, hrun, c, hc, hidx⟩ := @foldlM_ok _ _ _ _ (fun _ best => Found best) _ [] hstep
    ⟨c₀.idx, 0, (bounds.union c₀.root.bounds).halfPerimeter⟩ ⟨c₀, rfl, rfl⟩
  obtain ⟨hlt, hget⟩ := List.getElem?_eq_some_iff.mp hc
  refine ⟨(c₀ :: rest).take best.childPos, c, (c₀ :: rest).drop (best.childPos + 1), best.cost,
    ?_, ?_⟩
  · rw [← hget, ← List.drop_eq_getElem_cons hlt, List.take_append_drop]
  · rw [bestChild, hfirst, ok_bind, hroot, ok_bind, hrun, List.length_take_of_le hlt.le, ← hidx]

/-- The branch that adds the new leaf to a node. -/
theorem addLeaf_node (bounds b : Bounds U) (order k m : ℕ) {cs : List (Shape U)}
    (hroom : cs.length < MAX_CHILDREN) :
    ∃ ds : List (Shape U), ds.Perm (cs ++ [Shape.leaf k bounds order]) ∧
      (cs ≠ [] → ds.getLast? =
        if order ≤ m then cs.getLast? else some (.leaf k bounds order)) ∧
      addLeaf k bounds order ⟨b, m, .internal (cs.map Shape.idx)⟩ (cs.map Shape.idx) =
        .ok ⟨b.union bounds, max m order, .internal (ds.map Shape.idx)⟩ := by
  have hpush : NodeChildren.push (cs.map Shape.idx) k =
      .ok ((cs ++ [Shape.leaf k bounds order]).map Shape.idx) := by
    rw [NodeChildren.push, if_pos (by simpa using hroom), List.map_append]
    rfl
  have hlength : ((cs ++ [Shape.leaf k bounds order]).map Shape.idx).length = cs.length + 1 := by
    simp
  have hlast : cs.length + 1 - 1 < (cs ++ [Shape.leaf k bounds order]).length := by simp
  have hprevious : cs.length + 1 - 1 - 1 < (cs ++ [Shape.leaf k bounds order]).length := by
    simp only [List.length_append, List.length_singleton]
    omega
  obtain ⟨ds, hperm, hswapped, hkept, hswap⟩ :=
    NodeChildren.swap_if Shape.idx (order ≤ m) hprevious hlast
  refine ⟨ds, hperm, fun hne => ?_, ?_⟩
  · have hpos := List.length_pos_of_ne_nil hne
    split_ifs with hle
    · -- The leaf changes places with the child that was the last one.
      rw [hswapped hle (by simp), List.getElem?_append_left (by omega), List.getLast?_eq_getElem?]
      rfl
    · rw [hkept hle, List.getLast?_concat]
  · rw [addLeaf, hpush, ok_bind]
    simp only [hlength]
    exact hswap _

omit [AddCommGroup U] [LinearOrder U] in
theorem replaceLeaf_node (b : Bounds U) (m newMax : ℕ) (l r : List (Shape U)) (c c' : Shape U) :
    ∃ ds : List (Shape U), ds.Perm (l ++ c' :: r) ∧
      ds.getLast? = (if newMax > m then some c' else (l ++ c' :: r).getLast?) ∧
      replaceLeaf c'.idx newMax l.length
          ⟨b, m, .internal ((l ++ c :: r).map Shape.idx)⟩ ((l ++ c :: r).map Shape.idx) =
        .ok ⟨b, m, .internal (ds.map Shape.idx)⟩ := by
  have hset : (((l ++ c :: r).map Shape.idx).set l.length c'.idx : NodeChildren) =
      (l ++ c' :: r).map Shape.idx := by
    simp
  have hpos : l.length < (l ++ c' :: r).length := by simp
  have hlast : ((l ++ c' :: r).map Shape.idx).length - 1 < (l ++ c' :: r).length := by simp
  obtain ⟨ds, hperm, hswapped, hkept, hswap⟩ :=
    NodeChildren.swap_if Shape.idx (newMax > m) hpos hlast
  refine ⟨ds, hperm, ?_, ?_⟩
  · split_ifs with hgt
    · rw [hswapped hgt (by simp; omega)]
      simp
    · rw [hkept hgt]
  · rw [replaceLeaf]
    simp only [hset]
    exact hswap _

/-- The loops down and up a shape add the new leaf to it. -/
theorem descend_spec {bounds : Bounds U} {order k : ℕ}
    (hleaf : nodes[k]? = some ⟨bounds, order, .leaf order⟩) :
    ∀ {fuel : ℕ} {i : ℕ} {b : Bounds U} {m : ℕ} {cs : List (Shape U)} (path₀ : List ℕ),
      (indices [.node i b m cs]).length ≤ fuel → Stores nodes [.node i b m cs] →
      (indices [.node i b m cs]).Nodup → k ∉ indices [.node i b m cs] →
      (Shape.node i b m cs).Sound →
      ∃ nodes' path nodes'' b' ds,
        loop .outOfFuel (descendPass nodes k bounds order) fuel (i, path₀) =
          .ok (nodes', path₀ ++ path) ∧
        path.reverse.foldlM (propagate bounds order) (nodes', none) = .ok (nodes'', some i) ∧
        Grown nodes nodes'' k (bounds, order) [.node i b m cs] [.node i b' (max m order) ds] ∧
        Joined nodes nodes'' k bounds order (.node i b m cs) (.node i b' (max m order) ds) := by
  intro fuel
  induction fuel with
  | zero =>
    intro i b m cs path₀ hfuel
    rw [indices_node] at hfuel
    simp at hfuel
  | succ fuel ih =>
    intro i b m cs path₀ hfuel hstores hnodup hk hsound
    have hroot : nodes[i]? = some ⟨b, m, .internal (cs.map Shape.idx)⟩ :=
      hstores.root (List.mem_singleton_self _)
    have hlt : i < nodes.length := (List.getElem?_eq_some_iff.mp hroot).1
    have hchildren := hstores.children
    obtain ⟨hne, hsounds⟩ : cs ≠ [] ∧ ∀ c ∈ cs, c.Sound := by
      cases hsound with
      | node hne hsounds _ => exact ⟨hne, hsounds⟩
    -- the child that the loop chooses stands somewhere among the others
    obtain ⟨l, c, r, cost, rfl, hbest⟩ := bestChild_spec hchildren hne bounds
    have hc : c ∈ l ++ c :: r := List.mem_append_right _ List.mem_cons_self
    have hchild := index_ok (hchildren.root hc)
    rw [indices_node] at hnodup hk hfuel
    obtain ⟨hi, hcs⟩ := List.nodup_cons.mp hnodup
    have hsplit : indices (l ++ c :: r) = indices l ++ (indices [c] ++ indices r) := by
      rw [indices_append, ← List.singleton_append, indices_append]
    have hnodup' : (indices [.node i b m (l ++ c :: r)]).Nodup := by
      rw [indices_node]
      exact hnodup
    have hk' : k ∉ indices [.node i b m (l ++ c :: r)] := by
      rw [indices_node]
      exact hk
    have hcover := Bounds.covers_union_left b bounds
    have hcover' := Bounds.covers_union_right b bounds
    cases c with
    | leaf ci cb co =>
      by_cases hroom : (l ++ Shape.leaf ci cb co :: r).length < MAX_CHILDREN
      · -- a chosen leaf with room beside it: the new one becomes its sibling
        obtain ⟨es, hes, heslast, hadd⟩ := addLeaf_node bounds b order k m hroom
        have hpass : descendPass nodes k bounds order (i, path₀) = .ok (.done
            (nodes.set i ⟨b.union bounds, max m order, .internal (es.map Shape.idx)⟩,
              path₀ ++ [i])) := by
          simp only [descendPass, index_ok hroot, ok_bind, hbest, hchild]
          simp only [Shape.root, List.length_map, if_pos hroom, hadd, ok_bind]
        obtain ⟨ds, -, hstep, hkept, -⟩ := propagate_node bounds order
          (List.getElem?_set_self hlt) none
        obtain rfl := hkept rfl
        rw [List.set_set] at hstep
        refine ⟨_, [i], _, (b.union bounds).union bounds, es, loop_done hpass, ?_,
          (Grown.leaf hchildren hsounds hleaf).node hes hstores hnodup' hk' hsound
            ((Bounds.covers_union_left _ _).trans hcover) (Bounds.covers_union_right _ _)
            (le_max_left _ _) (le_max_right _ _),
          .add List.length_set hroom hes heslast fun B =>
            by simp only [Bounds.encloses_union_iff]; tauto⟩
        rw [List.reverse_singleton, List.foldlM_cons, hstep, max_assoc, max_self]
        rfl
      · -- no room: the leaf and the new one get a parent of their own
        obtain ⟨ccs, hpair, hgrown, hjoined⟩ := Grown.pair (hchildren.of_mem hc) hleaf
        have hctx := hgrown.context hchildren hsounds hcs
        obtain ⟨es, hes, heslast, hreplace⟩ :=
          replaceLeaf_node b m (max co order) l r (.leaf ci cb co)
          (.node nodes.length (cb.union bounds) (max co order) ccs)
        have hlt' : i < (nodes ++ [pairNode ci k ⟨cb, co, .leaf co⟩ bounds order]).length := by
          simp only [List.length_append]
          omega
        have hpass : descendPass nodes k bounds order (i, path₀) = .ok (.done
            ((nodes ++ [pairNode ci k ⟨cb, co, .leaf co⟩ bounds order]).set i
              ⟨b, m, .internal (es.map Shape.idx)⟩, path₀ ++ [i])) := by
          simp only [descendPass, index_ok hroot, ok_bind, hbest, hchild]
          simp only [Shape.root, Shape.idx, List.length_map, if_neg hroom]
          rw [show (pairNode ci k ⟨cb, co, .leaf co⟩ bounds order).maxOrder = max co order from rfl]
          exact (congrArg (fun x => x >>= _) hreplace).trans (ok_bind _ _)
        obtain ⟨ds, -, hstep, hkept, -⟩ := propagate_node bounds order
          (List.getElem?_set_self hlt') none
        obtain rfl := hkept rfl
        rw [List.set_set] at hstep
        refine ⟨_, [i], _, _, es, loop_done hpass, ?_,
          hctx.node hes hstores hnodup' hk' hsound hcover hcover' (le_max_left _ _)
            (le_max_right _ _),
          hjoined.raise List.length_set hes (fun hco => ?_) fun B => Bounds.encloses_union_iff⟩
        · rw [List.reverse_singleton, List.foldlM_cons, hstep]
          rfl
        · -- The order of the leaf is not above that of its parent.
          have hgt : max co order > m ↔ m < order :=
            lt_max_iff.trans (or_iff_right (not_lt.mpr hco))
          rw [heslast]
          simp only [hgt]
    | node ci cb cm ccs =>
      have hpass : descendPass nodes k bounds order (i, path₀) =
        .ok (.next (ci, path₀ ++ [i])) := by
        simp only [descendPass, index_ok hroot, ok_bind, hbest, hchild]
        rfl
      -- an inner node is chosen: the loop goes on with the indices below it, which are fewer
      have hlen : (indices [.node ci cb cm ccs]).length ≤ fuel := by
        rw [hsplit] at hfuel
        simp only [List.length_cons, List.length_append] at hfuel
        omega
      have hchild' : (indices [.node ci cb cm ccs]).Nodup := by
        rw [hsplit] at hcs
        exact (List.nodup_append.mp (List.nodup_append.mp hcs).2.1).1
      have hk'' : k ∉ indices [.node ci cb cm ccs] := by
        intro hin
        rw [hsplit] at hk
        exact hk (List.mem_cons_of_mem _ (List.mem_append_right _ (List.mem_append_left _ hin)))
      obtain ⟨nodes', path, nodes₁, cb', ds, hrun, hprop, hgrown, hjoined⟩ :=
        ih (path₀ ++ [i]) hlen (hchildren.of_mem hc) hchild' hk'' (hsounds _ hc)
      have hctx := hgrown.context hchildren hsounds hcs
      have hroot₁ : nodes₁[i]? =
          some ⟨b, m, .internal ((l ++ .node ci cb' (max cm order) ds :: r).map Shape.idx)⟩ := by
        rw [hctx.frame i hlt hi, hroot, List.map_append, List.map_append]
        rfl
      obtain ⟨es, hes, hstep, -, heslast⟩ := propagate_node bounds order hroot₁ (some ci)
      refine ⟨nodes', i :: path, _, _, _, ?_, ?_,
        hctx.node hes hstores hnodup' hk' hsound hcover hcover' (le_max_left _ _)
          (le_max_right _ _),
        hjoined.raise List.length_set hes (fun _ => ?_) fun B => Bounds.encloses_union_iff⟩
      · rw [loop_next hpass, hrun, List.append_assoc]
        rfl
      · rw [List.reverse_cons, List.foldlM_append, hprop, ok_bind, List.foldlM_cons, hstep]
        rfl
      · -- no other child has the index of the one that was grown
        refine heslast _ (List.mem_append_right _ List.mem_cons_self) ?_ rfl
        have hidx := nodup_map_idx hcs
        rw [List.map_append, List.map_cons] at hidx ⊢
        exact hidx

/-! ### The bounds that a tree holds -/

/-- A tree with a root: the shape that it stores, and its leaf with the greatest order. -/
structure Holds (tree : BoundsTree U) (earlier : List (Bounds U × ℕ)) (s : Shape U) (maxIdx : ℕ)
    (maxEntry : Bounds U × ℕ) : Prop where
  root : tree.root = some s.idx
  stores : Stores tree.nodes [s]
  nodup : (indices [s]).Nodup
  sound : s.Sound
  leaves : s.leaves.Perm earlier
  maxLeaf : tree.maxLeaf = some maxIdx
  maxNode : tree.nodes[maxIdx]? = some ⟨maxEntry.1, maxEntry.2, .leaf maxEntry.2⟩
  max_mem : maxEntry ∈ earlier
  max_le : ∀ e ∈ earlier, e.2 ≤ maxEntry.2

/-- A tree holds the bounds that were inserted, with their orders. -/
def Represents (tree : BoundsTree U) (earlier : List (Bounds U × ℕ)) : Prop :=
  (tree.root = none ∧ tree.maxLeaf = none ∧ earlier = []) ∨
    ∃ s maxIdx maxEntry, Holds tree earlier s maxIdx maxEntry

theorem represents_empty : Represents (empty : BoundsTree U) [] := Or.inl ⟨rfl, rfl, rfl⟩

theorem represents_clear (tree : BoundsTree U) : Represents tree.clear [] := Or.inl ⟨rfl, rfl, rfl⟩

theorem maxIntersecting_perm {query : Bounds U} {earlier earlier' : List (Bounds U × ℕ)}
    (h : earlier.Perm earlier') : maxIntersecting query earlier =
      maxIntersecting query earlier' := by
  refine eq_of_forall_ge_iff fun n => ?_
  rw [maxIntersecting_le_iff, maxIntersecting_le_iff]
  exact ⟨fun hall e he => hall e (h.mem_iff.mpr he), fun hall e he => hall e (h.mem_iff.mp he)⟩

omit [AddCommGroup U] [LinearOrder U] in
theorem length_indices_le {ss : List (Shape U)} (hstores : Stores nodes ss)
    (hnodup : (indices ss).Nodup) : (indices ss).length ≤ nodes.length := by
  have hsub : (indices ss).toFinset ⊆ Finset.range nodes.length := by
    intro i hi
    exact Finset.mem_range.mpr (hstores.lt_length i (List.mem_toFinset.mp hi))
  simpa [List.toFinset_card_of_nodup hnodup] using Finset.card_le_card hsub

theorem search_spec {s : Shape U} (hstores : Stores nodes [s]) (hnodup : (indices [s]).Nodup)
    (hsound : s.Sound) (query : Bounds U) :
    loop .outOfFuel (searchPass nodes query) (nodes.length + 1) ([s.root], 0) =
      .ok (maxIntersecting query s.leaves) := by
  have hlength := length_indices_le hstores hnodup
  rw [indices, List.length_map] at hlength
  have hanswers : Answers query (maxIntersecting query s.leaves) nodes ([s.root], 0) [s] := by
    refine ⟨rfl, hstores, by simpa using hsound, fun n => ?_⟩
    rw [maxIntersecting_le_iff, List.flatMap_singleton]
    simp
  obtain ⟨r, hrun, rfl⟩ := loop_variant _ (fun r => r = maxIntersecting query s.leaves)
    (fun n state h => searchPass_spec n state h) ⟨[s], hanswers, rfl⟩ (Nat.lt_succ_of_le hlength)
  exact hrun

theorem Represents.findMaxOrdering {tree : BoundsTree U} {earlier : List (Bounds U × ℕ)}
    (h : Represents tree earlier) (query : Bounds U) :
    tree.findMaxOrdering query = .ok (maxIntersecting query earlier) := by
  rcases h with ⟨hroot, -, rfl⟩ | ⟨s, maxIdx, maxEntry, h⟩
  · rw [BoundsTree.findMaxOrdering, hroot]
    rfl
  rw [BoundsTree.findMaxOrdering, h.root]
  simp only [maxLeafOrder, h.maxLeaf, index_ok h.maxNode, ok_bind]
  by_cases hmeets : query.intersects maxEntry.1 = true
  · -- the fast path: no order is greater than that of this leaf
    have hanswer : maxIntersecting query earlier = maxEntry.2 := by
      refine le_antisymm (maxIntersecting_le_iff.mpr fun e he _ => h.max_le e he) ?_
      exact maxIntersecting_le_iff.mp le_rfl maxEntry h.max_mem hmeets
    simp only [hmeets, if_true, hanswer]
  · simp only [hmeets, Bool.false_eq_true, if_false]
    rw [index_ok (h.stores.root (List.mem_singleton_self s)), ok_bind,
      search_spec h.stores h.nodup h.sound, maxIntersecting_perm h.leaves]

/-- `insert_leaf` on a tree with a root. -/
theorem Holds.insertLeaf {tree : BoundsTree U} {earlier : List (Bounds U × ℕ)} {s : Shape U}
    {maxIdx : ℕ} {maxEntry : Bounds U × ℕ} (h : Holds tree earlier s maxIdx maxEntry)
    (bounds : Bounds U) (order : ℕ) :
    ∃ tree' s', tree.insertLeaf bounds order = .ok (tree', tree.nodes.length) ∧
      tree'.maxLeaf = tree.maxLeaf ∧ tree'.root = some s'.idx ∧
      Grown (tree.nodes ++ [⟨bounds, order, .leaf order⟩]) tree'.nodes tree.nodes.length
        (bounds, order) [s] [s'] ∧
      Joined (tree.nodes ++ [⟨bounds, order, .leaf order⟩]) tree'.nodes tree.nodes.length bounds
        order s s' := by
  have hold : ∀ i ∈ indices [s],
      (tree.nodes ++ [⟨bounds, order, .leaf order⟩])[i]? = tree.nodes[i]? :=
    fun i hi => List.getElem?_append_left (h.stores.lt_length i hi)
  have hstores := h.stores.of_frame hold
  have hleaf : (tree.nodes ++ [⟨bounds, order, .leaf order⟩])[tree.nodes.length]? =
      some ⟨bounds, order, .leaf order⟩ := List.getElem?_concat_length ..
  have hk : tree.nodes.length ∉ indices [s] :=
    fun hin => lt_irrefl _ (h.stores.lt_length _ hin)
  have hroot := index_ok (hstores.root (List.mem_singleton_self s))
  rw [BoundsTree.insertLeaf, h.root]
  simp only [insertBelow, hroot, ok_bind]
  cases s with
  | leaf ci cb co =>
    obtain ⟨cs, hpair, hgrown, hjoined⟩ := Grown.pair hstores hleaf
    exact ⟨_, _, rfl, rfl, rfl, hgrown, hjoined⟩
  | node i b m cs =>
    obtain ⟨nodes', path, nodes'', b', ds, hrun, hprop, hgrown, hjoined⟩ :=
      descend_spec hleaf [] (length_indices_le hstores h.nodup) hstores h.nodup hk h.sound
    refine ⟨⟨nodes'', some i, tree.maxLeaf⟩, .node i b' (max m order) ds, ?_, rfl, rfl, hgrown,
      hjoined⟩
    simp only [Shape.root, Shape.idx, hrun, ok_bind, List.nil_append, hprop]

/-- `insert`, with its search done. -/
theorem Represents.insert_eq {tree : BoundsTree U} {earlier : List (Bounds U × ℕ)}
    (h : Represents tree earlier) (bounds : Bounds U)
    (horder : maxIntersecting bounds earlier < u32Max) :
    tree.insert bounds = (do
      let inserted ← tree.insertLeaf bounds (maxIntersecting bounds earlier + 1)
      let tree ← inserted.1.updateMaxLeaf inserted.2 (maxIntersecting bounds earlier + 1)
      .ok (tree, maxIntersecting bounds earlier + 1)) := by
  rw [BoundsTree.insert, h.findMaxOrdering, ok_bind, succOrder, if_pos horder, ok_bind]

theorem insert_first {tree : BoundsTree U} (hroot : tree.root = none)
    (hmaxLeaf : tree.maxLeaf = none) (bounds : Bounds U) :
    ∃ tree', tree.insert bounds = .ok (tree', 1) ∧
      tree'.nodes = tree.nodes ++ [⟨bounds, 1, .leaf 1⟩] ∧
      Holds tree' [(bounds, 1)] (.leaf tree.nodes.length bounds 1) tree.nodes.length
        (bounds, 1) := by
  have hrepresents : Represents tree [] := Or.inl ⟨hroot, hmaxLeaf, rfl⟩
  have hrun := hrepresents.insert_eq bounds (show 0 < u32Max by decide)
  rw [show maxIntersecting bounds [] + 1 = 1 from rfl] at hrun
  rw [hrun]
  simp only [insertLeaf, hroot, ok_bind, updateMaxLeaf, hmaxLeaf]
  have hcell : (tree.nodes ++ [⟨bounds, 1, .leaf 1⟩])[tree.nodes.length]? =
      some ⟨bounds, 1, .leaf 1⟩ := List.getElem?_concat_length ..
  refine ⟨_, rfl, rfl, rfl, ?_, ?_, .leaf _ _ _, ?_, rfl, hcell, List.mem_cons_self, ?_⟩
  · intro c hc
    rw [List.flatMap_singleton, cells, List.mem_singleton] at hc
    rw [hc]
    exact hcell
  · rw [indices_leaf]
    exact List.nodup_singleton _
  · rw [Shape.leaves]
  · simp

/-- What an insertion does to a tree with a root. -/
theorem Holds.insert {tree : BoundsTree U} {earlier : List (Bounds U × ℕ)} {s : Shape U}
    {maxIdx : ℕ} {maxEntry : Bounds U × ℕ} (h : Holds tree earlier s maxIdx maxEntry)
    (bounds : Bounds U) {order : ℕ} (horder : order = maxIntersecting bounds earlier + 1)
    (hmax : maxIntersecting bounds earlier < u32Max) :
    ∃ tree' s' maxIdx' maxEntry', tree.insert bounds = .ok (tree', order) ∧
      Holds tree' ((bounds, order) :: earlier) s' maxIdx' maxEntry' ∧
      Grown (tree.nodes ++ [⟨bounds, order, .leaf order⟩]) tree'.nodes tree.nodes.length
        (bounds, order) [s] [s'] ∧
      Joined (tree.nodes ++ [⟨bounds, order, .leaf order⟩]) tree'.nodes tree.nodes.length bounds
        order s s' ∧
      ((maxIdx', maxEntry') = (tree.nodes.length, (bounds, order)) ∨
        (maxIdx', maxEntry') = (maxIdx, maxEntry)) := by
  rw [Represents.insert_eq (Or.inr ⟨s, maxIdx, maxEntry, h⟩) bounds hmax, ← horder]
  obtain ⟨tree', s', hrun, hmaxLeaf, hroot, hgrown, hjoined⟩ := h.insertLeaf bounds order
  have hk : tree.nodes.length ∉ indices [s] :=
    fun hin => lt_irrefl _ (h.stores.lt_length _ hin)
  have hstores : Stores (tree.nodes ++ [⟨bounds, order, .leaf order⟩]) [s] :=
    h.stores.of_frame fun i hi => List.getElem?_append_left (h.stores.lt_length i hi)
  have hleaves : s'.leaves.Perm ((bounds, order) :: earlier) := by
    have hleaves := hgrown.leaves
    rw [List.flatMap_singleton, List.flatMap_singleton] at hleaves
    exact hleaves.trans (h.leaves.cons _)
  -- the leaves keep their cells
  have hnew : tree'.nodes[tree.nodes.length]? = some ⟨bounds, order, .leaf order⟩ := by
    have hcell : (tree.nodes ++ [⟨bounds, order, .leaf order⟩])[tree.nodes.length]? =
        some ⟨bounds, order, .leaf order⟩ := List.getElem?_concat_length ..
    exact (hgrown.leafFrame _ _ _ hcell).trans hcell
  have hmaxNode : tree'.nodes[maxIdx]? = some ⟨maxEntry.1, maxEntry.2, .leaf maxEntry.2⟩ := by
    have hcell : (tree.nodes ++ [⟨bounds, order, .leaf order⟩])[maxIdx]? =
        some ⟨maxEntry.1, maxEntry.2, .leaf maxEntry.2⟩ :=
      (List.getElem?_append_left (List.getElem?_eq_some_iff.mp h.maxNode).1).trans h.maxNode
    exact (hgrown.leafFrame _ _ _ hcell).trans hcell
  rw [hrun, ok_bind]
  dsimp only
  rw [updateMaxLeaf, hmaxLeaf, h.maxLeaf]
  dsimp only
  rw [index_ok hmaxNode, ok_bind, ok_bind]
  have hholds (maxIdx : ℕ) (maxEntry : Bounds U × ℕ)
      (hnode : tree'.nodes[maxIdx]? = some ⟨maxEntry.1, maxEntry.2, .leaf maxEntry.2⟩)
      (hmem : maxEntry ∈ (bounds, order) :: earlier)
      (hle : ∀ e ∈ (bounds, order) :: earlier, e.2 ≤ maxEntry.2) :
      Holds { tree' with maxLeaf := some maxIdx } ((bounds, order) :: earlier) s' maxIdx maxEntry :=
    ⟨hroot, hgrown.stores, hgrown.nodup hstores h.nodup hk,
      hgrown.sound s' (List.mem_singleton_self _), hleaves, rfl, hnode, hmem, hle⟩
  split_ifs with hlt
  · refine ⟨_, s', _, (bounds, order), rfl, hholds _ _ hnew List.mem_cons_self ?_, hgrown, hjoined,
      Or.inl rfl⟩
    intro e he
    rcases List.mem_cons.mp he with rfl | he
    · exact le_rfl
    · exact (h.max_le e he).trans hlt.le
  · refine ⟨_, s', _, maxEntry, rfl,
      hholds _ _ hmaxNode (List.mem_cons_of_mem _ h.max_mem) ?_, hgrown, hjoined, Or.inr rfl⟩
    intro e he
    rcases List.mem_cons.mp he with rfl | he
    · exact not_lt.mp hlt
    · exact h.max_le e he

/-- The order of new bounds is one more than the greatest order of the bounds that they
intersect. -/
theorem Represents.insert {tree : BoundsTree U} {earlier : List (Bounds U × ℕ)}
    (h : Represents tree earlier) (bounds : Bounds U)
    (horder : maxIntersecting bounds earlier < u32Max) :
    ∃ tree', tree.insert bounds = .ok (tree', maxIntersecting bounds earlier + 1) ∧
      Represents tree' ((bounds, maxIntersecting bounds earlier + 1) :: earlier) := by
  rcases h with ⟨hroot, hmaxLeaf, rfl⟩ | ⟨s, maxIdx, maxEntry, h⟩
  · obtain ⟨tree', hrun, -, hholds⟩ := insert_first hroot hmaxLeaf bounds
    exact ⟨tree', hrun, Or.inr ⟨_, _, _, hholds⟩⟩
  · obtain ⟨tree', s', maxIdx', maxEntry', hrun, hholds, -⟩ := h.insert bounds rfl horder
    exact ⟨tree', hrun, Or.inr ⟨s', maxIdx', maxEntry', hholds⟩⟩

theorem Represents.insert_overflow {tree : BoundsTree U} {earlier : List (Bounds U × ℕ)}
    (h : Represents tree earlier) (bounds : Bounds U)
    (horder : u32Max ≤ maxIntersecting bounds earlier) :
    tree.insert bounds = .error .arithmeticOverflow := by
  rw [BoundsTree.insert, h.findMaxOrdering, ok_bind, succOrder, if_neg (not_lt.mpr horder)]
  rfl

/-! ### Runs -/

/-- A call on a bounds tree. -/
inductive Call (U : Type)
  | insert (bounds : Bounds U)
  | clear

/-- The orders that the insertions of a run return. -/
def run : BoundsTree U → List (Call U) → Result (List ℕ)
  | _, [] => .ok []
  | tree, .insert bounds :: calls => do
    let (tree, order) ← tree.insert bounds
    let orders ← run tree calls
    .ok (order :: orders)
  | tree, .clear :: calls => run tree.clear calls

/-- The orders of the insertions of a run, by a scan of the bounds inserted since the last
`clear`. -/
def naiveRun : List (Bounds U × ℕ) → List (Call U) → Result (List ℕ)
  | _, [] => .ok []
  | earlier, .insert bounds :: calls => do
    let order ← succOrder (maxIntersecting bounds earlier)
    let orders ← naiveRun ((bounds, order) :: earlier) calls
    .ok (order :: orders)
  | _, .clear :: calls => naiveRun [] calls

theorem Represents.run {tree : BoundsTree U} {earlier : List (Bounds U × ℕ)}
    (h : Represents tree earlier) (calls : List (Call U)) :
    BoundsTree.run tree calls = naiveRun earlier calls := by
  induction calls generalizing tree earlier with
  | nil => rfl
  | cons call calls ih =>
    cases call with
    | clear => exact ih (represents_clear tree)
    | insert bounds =>
      rw [BoundsTree.run, naiveRun, succOrder]
      split_ifs with horder
      · obtain ⟨tree', hrun, htree'⟩ := h.insert bounds horder
        rw [hrun, ok_bind, ok_bind]
        dsimp only
        rw [ih htree']
      · rw [h.insert_overflow bounds (not_lt.mp horder)]
        rfl

/-- A bounds tree assigns the orders of a naive scan. -/
theorem run_eq_naiveRun (calls : List (Call U)) :
    BoundsTree.run (empty : BoundsTree U) calls = naiveRun [] calls :=
  represents_empty.run calls

end BoundsTree

end Zui.Gpui
