/-
The tree that the nodes of a bounds tree represent.

A `Shape` is a tree with the index, the bounds and the order of every node.  A vector
of nodes stores it when each of its cells is in its place.  In a sound shape the bounds
of a node cover, and its order is at least, those of all leaves below it.

* `Sound`, `Stores` — the invariant of a shape, and that a vector stores it;
* `Built` — what insertions keep of a shape beyond that;
* `searchPass_spec` — one pass of the search keeps the greatest order that it can still find.
-/
import Zui.Gpui.BoundsTree

namespace Zui.Gpui

/-- A tree of indexed nodes. -/
inductive Shape (U : Type)
  | leaf (idx : ℕ) (bounds : Bounds U) (order : ℕ)
  | node (idx : ℕ) (bounds : Bounds U) (maxOrder : ℕ) (children : List (Shape U))

namespace Shape

variable {U : Type}

/-- The index of the root. -/
def idx : Shape U → ℕ
  | leaf idx _ _ => idx
  | node idx _ _ _ => idx

/-- The root as a node of the vector. -/
def root : Shape U → Node U
  | leaf _ bounds order => ⟨bounds, order, .leaf order⟩
  | node _ bounds maxOrder children => ⟨bounds, maxOrder, .internal (children.map idx)⟩

/-- The nodes with their indices. -/
def cells : Shape U → List (ℕ × Node U)
  | leaf idx bounds order => [(idx, ⟨bounds, order, .leaf order⟩)]
  | node i bounds maxOrder children =>
    (i, ⟨bounds, maxOrder, .internal (children.map idx)⟩) :: children.flatMap cells

/-- The bounds of the leaves with their orders. -/
def leaves : Shape U → List (Bounds U × ℕ)
  | leaf _ bounds order => [(bounds, order)]
  | node _ _ _ children => children.flatMap leaves

theorem root_mem_cells (s : Shape U) : (s.idx, s.root) ∈ s.cells := by
  cases s <;> simp [cells, idx, root]

variable [AddCommGroup U] [LinearOrder U]

/-- The bounds and the order of a node account for all leaves below it. -/
def Bounding (b : Bounds U) (m : ℕ) (ls : List (Bounds U × ℕ)) : Prop :=
  ∀ l ∈ ls, b.Covers l.1 ∧ l.2 ≤ m

/-- A shape that a search can rely on. -/
inductive Sound : Shape U → Prop
  | leaf (i : ℕ) (b : Bounds U) (o : ℕ) : Sound (.leaf i b o)
  | node {i : ℕ} {b : Bounds U} {m : ℕ} {cs : List (Shape U)} : cs ≠ [] → (∀ c ∈ cs, Sound c) →
      Bounding b m (cs.flatMap leaves) → Sound (.node i b m cs)

/-- A shape as insertions leave it: the children of a node are as many as they may be, the node
encloses them, and its order is the greatest of theirs, which is the one of the last child. -/
inductive Built : Shape U → Prop
  | leaf (i : ℕ) (b : Bounds U) (o : ℕ) : Built (.leaf i b o)
  | node {i : ℕ} {b : Bounds U} {m : ℕ} {cs : List (Shape U)} (htwo : 2 ≤ cs.length)
      (hmax : cs.length ≤ MAX_CHILDREN) (hchildren : ∀ c ∈ cs, Built c)
      (hencloses : ∀ c ∈ cs, b.Encloses c.root.bounds) (horder : ∀ c ∈ cs, c.root.maxOrder ≤ m)
      (hlast : ∃ c, cs.getLast? = some c ∧ c.root.maxOrder = m) : Built (.node i b m cs)

theorem Sound.bounding {s : Shape U} (h : s.Sound) :
    Bounding s.root.bounds s.root.maxOrder s.leaves := by
  cases h with
  | leaf i b o =>
    intro l hl
    rw [leaves, List.mem_singleton] at hl
    subst hl
    exact ⟨.refl b, Nat.le_refl o⟩
  | node _ _ hb =>
    rw [leaves]
    exact hb

end Shape

open Shape

variable {U : Type}

/-- Every node of the shapes is in its place. -/
def Stores (nodes : List (Node U)) (ss : List (Shape U)) : Prop :=
  ∀ c ∈ ss.flatMap cells, nodes[c.1]? = some c.2

/-- The indices of the shapes. -/
def indices (ss : List (Shape U)) : List ℕ := (ss.flatMap cells).map Prod.fst

@[simp] theorem indices_nil : indices ([] : List (Shape U)) = [] := rfl

@[simp] theorem indices_append (ss ss' : List (Shape U)) :
    indices (ss ++ ss') = indices ss ++ indices ss' := by
  simp [indices]

theorem indices_node (i : ℕ) (b : Bounds U) (m : ℕ) (cs : List (Shape U)) :
    indices [.node i b m cs] = i :: indices cs := by
  simp [indices, cells]

theorem indices_leaf (i : ℕ) (b : Bounds U) (o : ℕ) : indices [.leaf i b o] = [i] := by
  simp [indices, cells]

theorem idx_mem_indices {s : Shape U} {ss : List (Shape U)} (h : s ∈ ss) : s.idx ∈ indices ss :=
  List.mem_map.mpr ⟨_, List.mem_flatMap.mpr ⟨s, h, s.root_mem_cells⟩, rfl⟩

theorem indices_cons (s : Shape U) (ss : List (Shape U)) :
    indices (s :: ss) = indices [s] ++ indices ss := by
  rw [← List.singleton_append, indices_append]

theorem nodup_map_idx {ss : List (Shape U)} (h : (indices ss).Nodup) :
    (ss.map Shape.idx).Nodup := by
  induction ss with
  | nil => exact List.nodup_nil
  | cons s ss ih =>
    rw [indices_cons] at h
    obtain ⟨-, hss, hdisjoint⟩ := List.nodup_append.mp h
    refine List.nodup_cons.mpr ⟨fun hin => ?_, ih hss⟩
    obtain ⟨t, ht, hidx⟩ := List.mem_map.mp hin
    exact hdisjoint _ (idx_mem_indices (List.mem_singleton_self s)) _ (idx_mem_indices ht) hidx.symm

namespace Stores

variable {nodes : List (Node U)} {ss ss' : List (Shape U)}

theorem append_iff : Stores nodes (ss ++ ss') ↔ Stores nodes ss ∧ Stores nodes ss' := by
  simp only [Stores, List.flatMap_append, List.mem_append]
  constructor
  · intro h
    exact ⟨fun c hc => h c (Or.inl hc), fun c hc => h c (Or.inr hc)⟩
  · rintro ⟨h, h'⟩ c (hc | hc)
    · exact h c hc
    · exact h' c hc

theorem cons_iff {s : Shape U} : Stores nodes (s :: ss) ↔ Stores nodes [s] ∧ Stores nodes ss := by
  rw [← List.singleton_append]
  exact append_iff

theorem of_mem (h : Stores nodes ss) {s : Shape U} (hs : s ∈ ss) : Stores nodes [s] := by
  intro c hc
  rw [List.flatMap_singleton] at hc
  exact h c (List.mem_flatMap.mpr ⟨s, hs, hc⟩)

theorem root (h : Stores nodes ss) {s : Shape U} (hs : s ∈ ss) : nodes[s.idx]? = some s.root :=
  h _ (List.mem_flatMap.mpr ⟨s, hs, s.root_mem_cells⟩)

theorem children {i : ℕ} {b : Bounds U} {m : ℕ} {cs : List (Shape U)}
    (h : Stores nodes [.node i b m cs]) : Stores nodes cs := by
  intro c hc
  refine h c ?_
  rw [List.flatMap_singleton, cells]
  exact List.mem_cons_of_mem _ hc

theorem lt_length (h : Stores nodes ss) : ∀ i ∈ indices ss, i < nodes.length := by
  intro i hi
  obtain ⟨c, hc, rfl⟩ := List.mem_map.mp hi
  exact (List.getElem?_eq_some_iff.mp (h c hc)).1

theorem mapM_index (h : Stores nodes ss) :
    (ss.map Shape.idx).mapM (index nodes) = .ok (ss.map Shape.root) := by
  induction ss with
  | nil => rfl
  | cons s ss ih =>
    have hs := index_ok (h.root (List.mem_cons_self (a := s)))
    have hss : Stores nodes ss := fun c hc => h c (by
      rw [List.flatMap_cons]
      exact List.mem_append_right _ hc)
    rw [List.map_cons, List.mapM_cons, hs, ok_bind, ih hss]
    rfl

end Stores

/-! ### The search -/

section Search

variable [AddCommGroup U] [LinearOrder U]

/-- The greatest order of the bounds that intersect the query, or zero. -/
def maxIntersecting (query : Bounds U) (earlier : List (Bounds U × ℕ)) : ℕ :=
  ((earlier.filter fun e => e.1.intersects query).map Prod.snd).foldr max 0

theorem maxIntersecting_le_iff {query : Bounds U} {earlier : List (Bounds U × ℕ)} {n : ℕ} :
    maxIntersecting query earlier ≤ n ↔ ∀ e ∈ earlier, query.intersects e.1 = true → e.2 ≤ n := by
  induction earlier with
  | nil => simp [maxIntersecting]
  | cons e earlier ih =>
    have hcons : maxIntersecting query (e :: earlier) = if query.intersects e.1 then
        max e.2 (maxIntersecting query earlier) else maxIntersecting query earlier := by
      rw [maxIntersecting, List.filter_cons, Bounds.intersects_comm]
      split <;> rfl
    rw [hcons, List.forall_mem_cons, ← ih]
    split
    · rename_i h
      simp [h]
    · rename_i h
      simp [h]

/-- What is found so far and what the stack can still find, together. -/
def Answers (query : Bounds U) (answer : ℕ) (nodes : List (Node U)) (state : List (Node U) × ℕ)
    (ss : List (Shape U)) : Prop :=
  state.1 = ss.map Shape.root ∧ Stores nodes ss ∧ (∀ s ∈ ss, s.Sound) ∧
    ∀ n, answer ≤ n ↔ state.2 ≤ n ∧ ∀ l ∈ ss.flatMap leaves, query.intersects l.1 = true → l.2 ≤ n

theorem Answers.drop {query : Bounds U} {answer : ℕ} {nodes : List (Node U)}
    {stack : List (Node U)} {found : ℕ} {s : Shape U} {ss : List (Shape U)}
    (h : Answers query answer nodes (s.root :: stack, found) (s :: ss))
    (hdrop : ∀ l ∈ s.leaves, query.intersects l.1 = true → l.2 ≤ found) :
    Answers query answer nodes (stack, found) ss := by
  obtain ⟨hstack, hstores, hsound, hanswer⟩ := h
  refine ⟨(List.cons.inj hstack).2, (Stores.cons_iff.mp hstores).2,
    fun s' hs' => hsound s' (List.mem_cons_of_mem _ hs'), fun n => ?_⟩
  rw [hanswer]
  constructor
  · rintro ⟨hfound, hall⟩
    exact ⟨hfound, fun l hl => hall l (List.mem_append_right _ hl)⟩
  · rintro ⟨hfound, hall⟩
    refine ⟨hfound, fun l hl hq => ?_⟩
    rw [List.flatMap_cons] at hl
    rcases List.mem_append.mp hl with hin | hin
    · exact Nat.le_trans (hdrop l hin hq) hfound
    · exact hall l hin hq

/-- The children that are left out have no greater order than the one found. -/
theorem forall_opened {query : Bounds U} {found n : ℕ} {cs : List (Shape U)} (hn : found ≤ n)
    (hsound : ∀ c ∈ cs, c.Sound)
    (h : ∀ l ∈ (cs.filter fun c => c.root.maxOrder > found).flatMap leaves,
      query.intersects l.1 = true → l.2 ≤ n) :
    ∀ l ∈ cs.flatMap leaves, query.intersects l.1 = true → l.2 ≤ n := by
  intro l hl hq
  obtain ⟨c, hc, hlc⟩ := List.mem_flatMap.mp hl
  by_cases hopen : c.root.maxOrder > found
  · exact h l (List.mem_flatMap.mpr ⟨c, by simp [hc, hopen], hlc⟩) hq
  · have := ((hsound c hc).bounding l hlc).2
    omega

/-- A pass at an internal node that intersects. -/
theorem searchPass_node {query : Bounds U} {answer : ℕ} {nodes : List (Node U)} {found i m : ℕ}
    {b : Bounds U} {cs ss : List (Shape U)} (hstores : Stores nodes (.node i b m cs :: ss))
    (hsound : ∀ s ∈ Shape.node i b m cs :: ss, s.Sound)
    (hanswer : ∀ n, answer ≤ n ↔ found ≤ n ∧
      ∀ l ∈ (Shape.node i b m cs :: ss).flatMap leaves, query.intersects l.1 = true → l.2 ≤ n)
    (horder : found < m) (hmeets : query.intersects b = true) :
    ∃ state' m', BoundsTree.searchPass nodes query
        ((Shape.node i b m cs).root :: ss.map Shape.root, found) = .ok (.next state') ∧
      m' < ((Shape.node i b m cs :: ss).flatMap cells).length ∧
      ∃ ss', Answers query answer nodes state' ss' ∧ (ss'.flatMap cells).length = m' := by
  obtain ⟨hnode, hrest⟩ := Stores.cons_iff.mp hstores
  have hcs := hnode.children
  have hsoundcs : ∀ c ∈ cs, c.Sound := by
    cases hsound _ (List.mem_cons_self) with
    | node _ h _ => exact h
  -- the loop leaves out children whose orders are not above what it has found
  set opened := cs.filter fun c => c.root.maxOrder > found with hopened
  have hsub : ∀ c ∈ opened, c ∈ cs := fun c hc => (List.mem_filter.mp hc).1
  have hopen : BoundsTree.openChildren nodes (cs.map Shape.idx) found
      = .ok (opened.map Shape.root) := by
    rw [BoundsTree.openChildren, hcs.mapM_index, ok_bind, List.filter_map]
    rfl
  have hrun : BoundsTree.searchPass nodes query
      ((Shape.node i b m cs).root :: ss.map Shape.root, found)
        = .ok (.next ((opened.map Shape.root).reverse ++ ss.map Shape.root, found)) := by
    rw [BoundsTree.searchPass, if_neg (by simpa [Shape.root] using horder),
      if_neg (by simp [Shape.root, hmeets])]
    show (BoundsTree.openChildren nodes (cs.map Shape.idx) found >>= _) = _
    rw [hopen]
    rfl
  -- what is on the stack is fewer nodes, and has what was not found yet
  refine ⟨_, _, hrun, ?_, opened.reverse ++ ss, ⟨by simp, ?_, ?_, fun n => ?_⟩, rfl⟩
  · have hle : (opened.flatMap cells).length ≤ (cs.flatMap cells).length :=
      (List.filter_sublist.flatMap cells).length_le
    have hperm := (opened.reverse_perm.flatMap_right cells).length_eq
    simp only [List.flatMap_append, List.length_append, List.flatMap_cons, cells, List.length_cons]
    omega
  · refine Stores.append_iff.mpr ⟨fun c hc => ?_, hrest⟩
    obtain ⟨s, hs, hc⟩ := List.mem_flatMap.mp hc
    exact hcs c (List.mem_flatMap.mpr ⟨s, hsub s (List.mem_reverse.mp hs), hc⟩)
  · intro s hs
    rcases List.mem_append.mp hs with hin | hin
    · exact hsoundcs s (hsub s (List.mem_reverse.mp hin))
    · exact hsound s (List.mem_cons_of_mem _ hin)
  · rw [hanswer]
    refine and_congr_right fun hn => ?_
    simp only [List.flatMap_cons, List.flatMap_append, List.mem_append, leaves]
    constructor
    · rintro hall l (hl | hl) hq
      · obtain ⟨c, hc, hlc⟩ := List.mem_flatMap.mp hl
        exact hall l (Or.inl (List.mem_flatMap.mpr ⟨c, hsub c (List.mem_reverse.mp hc), hlc⟩)) hq
      · exact hall l (Or.inr hl) hq
    · rintro hall l (hl | hl) hq
      · refine forall_opened hn hsoundcs (fun l hl hq => hall l (Or.inl ?_) hq) l hl hq
        obtain ⟨c, hc, hlc⟩ := List.mem_flatMap.mp hl
        exact List.mem_flatMap.mpr ⟨c, List.mem_reverse.mpr hc, hlc⟩
      · exact hall l (Or.inr hl) hq

/-- A pass of the search gives up a node, or goes on with its children. -/
theorem searchPass_spec {query : Bounds U} {answer : ℕ} {nodes : List (Node U)} (n : ℕ)
    (state : List (Node U) × ℕ)
    (h : ∃ ss, Answers query answer nodes state ss ∧ (ss.flatMap cells).length = n) :
    (∃ state' m, BoundsTree.searchPass nodes query state = .ok (.next state') ∧ m < n ∧
      ∃ ss, Answers query answer nodes state' ss ∧ (ss.flatMap cells).length = m) ∨
    ∃ r, BoundsTree.searchPass nodes query state = .ok (.done r) ∧ r = answer := by
  obtain ⟨stack, found⟩ := state
  obtain ⟨ss, h, rfl⟩ := h
  obtain ⟨rfl, hstores, hsound, hanswer⟩ := h
  match ss with
  | [] =>
    refine Or.inr ⟨found, rfl, eq_of_forall_ge_iff fun n => ?_⟩
    simpa using (hanswer n).symm
  | s :: ss =>
    left
    have hfewer : (ss.flatMap cells).length < ((s :: ss).flatMap cells).length := by
      have := List.length_pos_of_mem s.root_mem_cells
      rw [List.flatMap_cons, List.length_append]
      omega
    have hb := (hsound s (by simp)).bounding
    rw [List.map_cons]
    by_cases horder : s.root.maxOrder ≤ found
    · -- No leaf below the node has a greater order than the one found.
      refine ⟨_, _, by rw [BoundsTree.searchPass, if_pos horder], hfewer, ss,
        Answers.drop ⟨rfl, hstores, hsound, hanswer⟩ ?_, rfl⟩
      exact fun l hl _ => Nat.le_trans (hb l hl).2 horder
    by_cases hmeets : query.intersects s.root.bounds = true
    · cases s with
      | leaf i b o =>
        refine ⟨_, _, by rw [BoundsTree.searchPass, if_neg horder, if_neg (by simp [hmeets])]; rfl,
          hfewer, ss, ⟨rfl, (Stores.cons_iff.mp hstores).2,
          fun s' hs' => hsound s' (List.mem_cons_of_mem _ hs'), fun n => ?_⟩, rfl⟩
        have hmeets : query.intersects b = true := hmeets
        rw [hanswer, List.flatMap_cons, leaves, List.singleton_append, List.forall_mem_cons]
        simp [hmeets, and_assoc]
      | node i b m cs => exact searchPass_node hstores hsound hanswer (not_le.mp horder) hmeets
    · -- What does not intersect the bounds of a node intersects no leaf below it.
      refine ⟨_, _, by rw [BoundsTree.searchPass, if_neg horder, if_pos (by simp [hmeets])], hfewer,
        ss, Answers.drop ⟨rfl, hstores, hsound, hanswer⟩ ?_, rfl⟩
      exact fun l hl hq => absurd ((hb l hl).1 query hq) hmeets

end Search

end Zui.Gpui
