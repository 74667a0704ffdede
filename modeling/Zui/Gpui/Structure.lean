/-
The vector of a bounds tree as a tree.

A route is a list of the positions of children on the way from the root.  In the vector that a run
of insertions leaves, every node has one route to it, so every node but the root has one parent; the
internal nodes enclose their children, and the last child has the greatest order.

* `BoundsTree.follow`, `BoundsTree.Reachable` — the nodes below the root of a vector;
* `Shape.descendant` — the same way through the shape that the vector stores;
* `BoundsTree.Traced` — a tree, its shape, and the leaves that were inserted into it;
* `BoundsTree.Structured` — what holds of the vector itself;
* `BoundsTree.trace_wellFormed` — the result over runs.
-/
import Zui.Gpui.Insertion

namespace Zui.Gpui

open Shape

variable {U : Type}

/-! ### Routes -/

namespace BoundsTree

/-- The indices of the children of a node. -/
def childrenAt (nodes : List (Node U)) (i : ℕ) : List ℕ :=
  match nodes[i]? with
  | some ⟨_, _, .internal children⟩ => children
  | _ => []

/-- The index of the node to which a route leads. -/
def follow (nodes : List (Node U)) : ℕ → List ℕ → Option ℕ
  | i, [] => some i
  | i, pos :: route =>
    match (childrenAt nodes i)[pos]? with
    | some child => follow nodes child route
    | none => none

/-- A node that some route from the root leads to. -/
def Reachable (nodes : List (Node U)) (rootIdx i : ℕ) : Prop :=
  ∃ route, follow nodes rootIdx route = some i

theorem follow_append (nodes : List (Node U)) (i : ℕ) (route route' : List ℕ) :
    follow nodes i (route ++ route') =
      (follow nodes i route).bind fun j => follow nodes j route' := by
  induction route generalizing i with
  | nil => rfl
  | cons pos route ih =>
    rw [List.cons_append, follow, follow]
    cases (childrenAt nodes i)[pos]? with
    | none => rfl
    | some child => exact ih child

theorem follow_child {nodes : List (Node U)} {rootIdx p pos i : ℕ} {route : List ℕ}
    (hp : follow nodes rootIdx route = some p) (hi : (childrenAt nodes p)[pos]? = some i) :
    follow nodes rootIdx (route ++ [pos]) = some i := by
  rw [follow_append, hp, Option.bind_some, follow, hi]
  rfl

theorem follow_concat {nodes : List (Node U)} {rootIdx pos i : ℕ} {route : List ℕ}
    (h : follow nodes rootIdx (route ++ [pos]) = some i) :
    ∃ p, follow nodes rootIdx route = some p ∧ (childrenAt nodes p)[pos]? = some i := by
  rw [follow_append] at h
  obtain ⟨p, hp, hi⟩ := Option.bind_eq_some_iff.mp h
  refine ⟨p, hp, ?_⟩
  rw [follow] at hi
  cases hchild : (childrenAt nodes p)[pos]? with
  | none => simp [hchild] at hi
  | some child => simpa [hchild, follow] using hi

end BoundsTree

/-! ### Routes through a shape -/

namespace Shape

/-- The shape to which a route leads. -/
def descendant : Shape U → List ℕ → Option (Shape U)
  | s, [] => some s
  | .leaf _ _ _, _ :: _ => none
  | .node _ _ _ cs, pos :: route => cs[pos]?.bind fun c => c.descendant route

theorem descendant_nil (s : Shape U) : s.descendant [] = some s := by
  cases s <;> rfl

theorem descendant_cons {i m pos : ℕ} {b : Bounds U} {cs : List (Shape U)} {route : List ℕ}
    {t : Shape U} (h : (Shape.node i b m cs).descendant (pos :: route) = some t) :
    ∃ c, cs[pos]? = some c ∧ c.descendant route = some t :=
  Option.bind_eq_some_iff.mp h

theorem descendant_induction {P : Shape U → Prop}
    (hchild : ∀ i b m cs, P (.node i b m cs) → ∀ c ∈ cs, P c) {s t : Shape U} {route : List ℕ}
    (h : s.descendant route = some t) (hs : P s) : P t := by
  induction route generalizing s with
  | nil =>
    rw [descendant_nil] at h
    exact Option.some.inj h ▸ hs
  | cons pos route ih =>
    cases s with
    | leaf i b o => cases h
    | node i b m cs =>
      obtain ⟨c, hc, h⟩ := descendant_cons h
      exact ih h (hchild i b m cs hs c (List.mem_of_getElem? hc))

theorem mem_indices_of_mem {s : Shape U} {ss : List (Shape U)} (hs : s ∈ ss) {i : ℕ}
    (hi : i ∈ indices [s]) : i ∈ indices ss := by
  obtain ⟨l, r, rfl⟩ := List.append_of_mem hs
  rw [indices_append, indices_cons]
  exact List.mem_append_right _ (List.mem_append_left _ hi)

theorem pos_unique {ss : List (Shape U)} (hnodup : (indices ss).Nodup) {p p' i : ℕ}
    {s s' : Shape U} (hs : ss[p]? = some s) (hs' : ss[p']? = some s') (hi : i ∈ indices [s])
    (hi' : i ∈ indices [s']) : p = p' := by
  induction ss generalizing p p' with
  | nil => cases hs
  | cons r ss ih =>
    rw [indices_cons] at hnodup
    obtain ⟨-, hss, hdisjoint⟩ := List.nodup_append.mp hnodup
    cases p with
    | zero =>
      cases p' with
      | zero => rfl
      | succ p' =>
        obtain rfl := Option.some.inj hs
        have hs' : ss[p']? = some s' := hs'
        exact absurd rfl (hdisjoint i hi i (mem_indices_of_mem (List.mem_of_getElem? hs') hi'))
    | succ p =>
      cases p' with
      | zero =>
        obtain rfl := Option.some.inj hs'
        have hs : ss[p]? = some s := hs
        exact absurd rfl (hdisjoint i hi' i (mem_indices_of_mem (List.mem_of_getElem? hs) hi))
      | succ p' => exact congrArg Nat.succ (ih hss hs hs')

theorem idx_mem_of_descendant {s t : Shape U} {route : List ℕ} (h : s.descendant route = some t) :
    t.idx ∈ indices [s] := by
  refine descendant_induction (P := fun t => ∀ i ∈ indices [t], i ∈ indices [s]) ?_ h
    (fun i hi => hi) t.idx (idx_mem_indices (List.mem_singleton_self t))
  intro i b m cs hall c hc j hj
  refine hall j ?_
  rw [indices_node]
  exact List.mem_cons_of_mem _ (mem_indices_of_mem hc hj)

theorem route_eq_nil {s t : Shape U} {route : List ℕ} (hnodup : (indices [s]).Nodup)
    (h : s.descendant route = some t) (hidx : t.idx = s.idx) : route = [] := by
  cases route with
  | nil => rfl
  | cons pos route =>
    cases s with
    | leaf i b o => cases h
    | node i b m cs =>
      obtain ⟨c, hc, h⟩ := descendant_cons h
      rw [indices_node] at hnodup
      have hin := mem_indices_of_mem (List.mem_of_getElem? hc) (idx_mem_of_descendant h)
      rw [hidx] at hin
      exact absurd hin (List.nodup_cons.mp hnodup).1

theorem route_unique {s t t' : Shape U} {route route' : List ℕ} (hnodup : (indices [s]).Nodup)
    (h : s.descendant route = some t) (h' : s.descendant route' = some t') (hidx : t.idx = t'.idx) :
    route = route' := by
  induction route generalizing s route' with
  | nil =>
    rw [descendant_nil] at h
    obtain rfl := Option.some.inj h
    exact (route_eq_nil hnodup h' hidx.symm).symm
  | cons pos route ih =>
    cases s with
    | leaf i b o => cases h
    | node i b m cs =>
      cases route' with
      | nil =>
        rw [descendant_nil] at h'
        obtain rfl := Option.some.inj h'
        exact route_eq_nil hnodup h hidx
      | cons pos' route' =>
        obtain ⟨c, hc, ht⟩ := descendant_cons h
        obtain ⟨c', hc', ht'⟩ := descendant_cons h'
        rw [indices_node] at hnodup
        have hcs := (List.nodup_cons.mp hnodup).2
        -- The first step is the same, as the children share no index.
        obtain rfl : pos = pos' := pos_unique hcs hc hc' (idx_mem_of_descendant ht)
          (hidx ▸ idx_mem_of_descendant ht')
        obtain rfl := Option.some.inj (hc.symm.trans hc')
        obtain ⟨l, r, rfl⟩ := List.append_of_mem (List.mem_of_getElem? hc)
        rw [indices_append, indices_cons] at hcs
        have hchild := (List.nodup_append.mp (List.nodup_append.mp hcs).2.1).1
        rw [ih hchild ht ht']

theorem exists_route [AddCommGroup U] [LinearOrder U] {s : Shape U} (h : s.Sound) :
    ∀ i ∈ indices [s], ∃ route t, s.descendant route = some t ∧ t.idx = i := by
  induction h with
  | leaf i b o =>
    intro j hj
    rw [indices_leaf, List.mem_singleton] at hj
    exact ⟨[], .leaf i b o, rfl, hj.symm⟩
  | @node i b m cs hne hcs hbounding ih =>
    intro j hj
    rw [indices_node] at hj
    rcases List.mem_cons.mp hj with rfl | hj
    · exact ⟨[], .node j b m cs, rfl, rfl⟩
    · obtain ⟨cell, hcell, rfl⟩ := mem_indices_iff.mp hj
      obtain ⟨c, hc, hcell⟩ := List.mem_flatMap.mp hcell
      obtain ⟨route, t, ht, hidx⟩ :=
        ih c hc cell.1 (mem_indices_iff.mpr ⟨cell, by simpa using hcell, rfl⟩)
      obtain ⟨pos, hlt, hpos⟩ := List.getElem_of_mem hc
      refine ⟨pos :: route, t, ?_, hidx⟩
      rw [descendant, List.getElem?_eq_getElem hlt, hpos]
      exact ht

end Shape

/-! ### A vector that stores a shape -/

namespace Stores

variable {nodes : List (Node U)} {s t : Shape U} {route : List ℕ}

/-- What is below a stored shape is stored. -/
theorem descendant (h : Stores nodes [s]) (ht : s.descendant route = some t) : Stores nodes [t] :=
  descendant_induction (P := fun t => Stores nodes [t])
    (fun _ _ _ _ hs _ hc => hs.children.of_mem hc) ht h

theorem childrenAt {i m : ℕ} {b : Bounds U} {cs : List (Shape U)}
    (h : Stores nodes [.node i b m cs]) : BoundsTree.childrenAt nodes i = cs.map Shape.idx := by
  have hroot : nodes[i]? = some ⟨b, m, .internal (cs.map Shape.idx)⟩ :=
    h.root (List.mem_singleton_self _)
  rw [BoundsTree.childrenAt, hroot]

theorem follow_eq (h : Stores nodes [s]) (route : List ℕ) :
    BoundsTree.follow nodes s.idx route = (s.descendant route).map Shape.idx := by
  induction route generalizing s with
  | nil => rw [descendant_nil]; rfl
  | cons pos route ih =>
    cases s with
    | leaf i b o =>
      have hroot : nodes[i]? = some ⟨b, o, .leaf o⟩ := h.root (List.mem_singleton_self _)
      rw [BoundsTree.follow, BoundsTree.childrenAt, Shape.idx, hroot]
      rfl
    | node i b m cs =>
      rw [BoundsTree.follow, Shape.idx, h.childrenAt, List.getElem?_map, Shape.descendant]
      cases hc : cs[pos]? with
      | none => rfl
      | some c => exact ih (h.children.of_mem (List.mem_of_getElem? hc))

theorem reachable_iff (h : Stores nodes [s]) {i : ℕ} :
    BoundsTree.Reachable nodes s.idx i ↔ ∃ route t, s.descendant route = some t ∧ t.idx = i := by
  refine exists_congr fun route => ?_
  rw [h.follow_eq, Option.map_eq_some_iff]

end Stores

/-! ### What holds of the vector -/

namespace BoundsTree

/-- A leaf that was inserted. -/
structure Inserted (U : Type) where
  idx : ℕ
  bounds : Bounds U
  order : ℕ

/-- The node of an inserted leaf. -/
def Inserted.node (e : Inserted U) : Node U := ⟨e.bounds, e.order, .leaf e.order⟩

/-- The bounds of an inserted leaf and its order. -/
def Inserted.entry (e : Inserted U) : Bounds U × ℕ := (e.bounds, e.order)

variable [AddCommGroup U] [LinearOrder U]

/-- An internal node and its children in the vector. -/
structure Parent (nodes : List (Node U)) (node : Node U) (children : NodeChildren) : Prop where
  two_le : 2 ≤ children.length
  le_max : children.length ≤ MAX_CHILDREN
  child : ∀ c ∈ children, ∃ child, nodes[c]? = some child ∧
    node.bounds.Encloses child.bounds ∧ child.maxOrder ≤ node.maxOrder
  last : ∃ c child, children.getLast? = some c ∧ nodes[c]? = some child ∧
    child.maxOrder = node.maxOrder

/-- A vector that is a tree with the inserted leaves. -/
structure Structured (tree : BoundsTree U) (rootIdx : ℕ) (inserted : List (Inserted U)) : Prop where
  root : tree.root = some rootIdx
  reachable : ∀ i, Reachable tree.nodes rootIdx i ↔ i < tree.nodes.length
  root_orphan : ∀ p pos : ℕ, (childrenAt tree.nodes p)[pos]? ≠ some rootIdx
  parent : ∀ i, Reachable tree.nodes rootIdx i → i ≠ rootIdx →
    ∃! slot : ℕ × ℕ, (childrenAt tree.nodes slot.1)[slot.2]? = some i
  leaf : ∀ e ∈ inserted, tree.nodes[e.idx]? = some e.node ∧
    ∃! route, follow tree.nodes rootIdx route = some e.idx
  distinct : (inserted.map Inserted.idx).Nodup
  internal : ∀ i node children, Reachable tree.nodes rootIdx i → tree.nodes[i]? = some node →
    node.kind = .internal children → Parent tree.nodes node children
  maxLeaf : ∃ e ∈ inserted, tree.maxLeaf = some e.idx ∧
    (∀ e' ∈ inserted, e'.order ≤ e.order) ∧
    ∀ i node, Reachable tree.nodes rootIdx i → tree.nodes[i]? = some node →
      node.maxOrder ≤ e.order

/-- A tree without a node, or with a root. -/
def WellFormed (tree : BoundsTree U) (inserted : List (Inserted U)) : Prop :=
  (tree = empty ∧ inserted = []) ∨ ∃ rootIdx, Structured tree rootIdx inserted

/-! ### The shape of the vector -/

/-- A tree with a root: its shape, which takes up the vector, and its leaf with the greatest
order. -/
structure Traced (tree : BoundsTree U) (inserted : List (Inserted U)) (s : Shape U)
    (top : Inserted U) : Prop where
  holds : Holds tree (inserted.map Inserted.entry) s top.idx top.entry
  built : s.Built
  filled : ∀ i < tree.nodes.length, i ∈ indices [s]
  leaf : ∀ e ∈ inserted, tree.nodes[e.idx]? = some e.node
  distinct : (inserted.map Inserted.idx).Nodup
  top_mem : top ∈ inserted

theorem maxOrder_le_of_descendant {s t : Shape U} {route : List ℕ} (hbuilt : s.Built)
    (h : s.descendant route = some t) : t.root.maxOrder ≤ s.root.maxOrder := by
  refine (descendant_induction (P := fun t => t.Built ∧ t.root.maxOrder ≤ s.root.maxOrder) ?_ h
    ⟨hbuilt, le_rfl⟩).2
  rintro i b m cs ⟨hnode, hle⟩ c hc
  cases hnode with
  | node _ _ hchildren _ horder _ => exact ⟨hchildren c hc, (horder c hc).trans hle⟩

theorem exists_leaf_maxOrder {s : Shape U} (hbuilt : s.Built) :
    ∃ l ∈ s.leaves, l.2 = s.root.maxOrder := by
  induction hbuilt with
  | leaf i b o =>
    rw [Shape.leaves]
    exact ⟨_, List.mem_singleton_self _, rfl⟩
  | node _ _ _ _ _ hlast ih =>
    obtain ⟨c, hc, hm⟩ := hlast
    have hmem := List.mem_of_getLast? hc
    obtain ⟨l, hl, ho⟩ := ih c hmem
    rw [Shape.leaves]
    exact ⟨l, List.mem_flatMap.mpr ⟨c, hmem, hl⟩, ho.trans hm⟩

theorem parent_of_built {nodes : List (Node U)} {i m : ℕ} {b : Bounds U} {cs : List (Shape U)}
    (hstores : Stores nodes [.node i b m cs]) (hbuilt : (Shape.node i b m cs).Built) :
    Parent nodes (Shape.node i b m cs).root (cs.map Shape.idx) := by
  have hroot (c : Shape U) (hc : c ∈ cs) : nodes[c.idx]? = some c.root := hstores.children.root hc
  cases hbuilt with
  | node htwo hmax _ hencloses horder hlast =>
    refine ⟨by simpa using htwo, by simpa using hmax, fun j hj => ?_, ?_⟩
    · obtain ⟨c, hc, rfl⟩ := List.mem_map.mp hj
      exact ⟨c.root, hroot c hc, hencloses c hc, horder c hc⟩
    · obtain ⟨c, hc, hm⟩ := hlast
      exact ⟨c.idx, c.root,
        by rw [List.getLast?_map, hc]; rfl, hroot c (List.mem_of_getLast? hc), hm⟩

namespace Traced

variable {tree : BoundsTree U} {inserted : List (Inserted U)} {s : Shape U} {top : Inserted U}

theorem existsUnique_route (h : Traced tree inserted s top) {i : ℕ} (hi : i < tree.nodes.length) :
    ∃! route, follow tree.nodes s.idx route = some i := by
  obtain ⟨route, t, ht, hidx⟩ := exists_route h.holds.sound i (h.filled i hi)
  refine ⟨route, ?_, fun route' h' => ?_⟩
  · dsimp only
    rw [h.holds.stores.follow_eq, ht, Option.map_some, hidx]
  · dsimp only at h'
    rw [h.holds.stores.follow_eq] at h'
    obtain ⟨t', ht', hidx'⟩ := Option.map_eq_some_iff.mp h'
    exact route_unique h.holds.nodup ht' ht (hidx'.trans hidx.symm)

theorem reachable_iff (h : Traced tree inserted s top) {i : ℕ} :
    Reachable tree.nodes s.idx i ↔ i < tree.nodes.length := by
  constructor
  · rw [h.holds.stores.reachable_iff]
    rintro ⟨route, t, ht, rfl⟩
    exact h.holds.stores.lt_length _ (idx_mem_of_descendant ht)
  · exact fun hi => (h.existsUnique_route hi).exists

theorem slot_lt (h : Traced tree inserted s top) {p pos i : ℕ}
    (hslot : (childrenAt tree.nodes p)[pos]? = some i) :
    p < tree.nodes.length ∧ i < tree.nodes.length := by
  have hp : p < tree.nodes.length := by
    by_contra hnot
    rw [childrenAt, List.getElem?_eq_none (not_lt.mp hnot)] at hslot
    cases hslot
  obtain ⟨route, hroute⟩ := h.reachable_iff.mpr hp
  exact ⟨hp, h.reachable_iff.mp ⟨_, follow_child hroute hslot⟩⟩

theorem slot_unique (h : Traced tree inserted s top) {p pos p' pos' i : ℕ}
    (hslot : (childrenAt tree.nodes p)[pos]? = some i)
    (hslot' : (childrenAt tree.nodes p')[pos']? = some i) : p = p' ∧ pos = pos' := by
  obtain ⟨hp, hi⟩ := h.slot_lt hslot
  obtain ⟨route, hroute⟩ := h.reachable_iff.mpr hp
  obtain ⟨route', hroute'⟩ := h.reachable_iff.mpr (h.slot_lt hslot').1
  -- Both places end the one route to the node.
  have hsame := (h.existsUnique_route hi).unique (follow_child hroute hslot)
    (follow_child hroute' hslot')
  obtain ⟨rfl, hpos⟩ := List.append_inj' hsame rfl
  exact ⟨Option.some.inj (hroute.symm.trans hroute'), (List.cons.inj hpos).1⟩

theorem structured (h : Traced tree inserted s top) : Structured tree s.idx inserted := by
  have hholds := h.holds
  refine ⟨hholds.root, fun i => h.reachable_iff, fun p pos hslot => ?_, fun i hi hne => ?_,
    fun e he => ⟨h.leaf e he, ?_⟩, h.distinct, fun i node children hi hnode hkind => ?_,
    top, h.top_mem, hholds.maxLeaf, fun e he => ?_, fun i node hi hnode => ?_⟩
  · -- A place of the root would end a second route to it.
    obtain ⟨hp, hroot⟩ := h.slot_lt hslot
    obtain ⟨route, hroute⟩ := h.reachable_iff.mpr hp
    have hsame := (h.existsUnique_route hroot).unique (follow_child hroute hslot)
      (show follow tree.nodes s.idx [] = some s.idx from rfl)
    exact absurd hsame (by simp)
  · obtain ⟨route, hroute⟩ := hi
    rcases List.eq_nil_or_concat route with rfl | ⟨route, pos, rfl⟩
    · exact absurd (Option.some.inj hroute).symm hne
    · rw [List.concat_eq_append] at hroute
      obtain ⟨p, -, hslot⟩ := follow_concat hroute
      refine ⟨(p, pos), hslot, fun slot hslot' => ?_⟩
      obtain ⟨hp, hpos⟩ := h.slot_unique hslot' hslot
      exact Prod.ext hp hpos
  · exact h.existsUnique_route (List.getElem?_eq_some_iff.mp (h.leaf e he)).1
  · obtain ⟨route, t, ht, rfl⟩ := hholds.stores.reachable_iff.mp hi
    have hstores := hholds.stores.descendant ht
    have hbuilt : t.Built := by
      refine descendant_induction (P := Shape.Built) (fun i b m cs hs c hc => ?_) ht h.built
      cases hs with
      | node _ _ hchildren _ _ _ => exact hchildren c hc
    obtain rfl : t.root = node :=
      Option.some.inj ((hstores.root (List.mem_singleton_self t)).symm.trans hnode)
    cases t with
    | leaf i b o => cases hkind
    | node i b m cs =>
      obtain rfl := NodeKind.internal.inj hkind
      exact parent_of_built hstores hbuilt
  · exact hholds.max_le _ (List.mem_map_of_mem he)
  · obtain ⟨route, t, ht, rfl⟩ := hholds.stores.reachable_iff.mp hi
    obtain rfl : t.root = node := Option.some.inj
      (((hholds.stores.descendant ht).root (List.mem_singleton_self t)).symm.trans hnode)
    obtain ⟨l, hl, horder⟩ := exists_leaf_maxOrder h.built
    have hmax := hholds.max_le l (hholds.leaves.mem_iff.mp hl)
    exact (maxOrder_le_of_descendant h.built ht).trans (horder ▸ hmax)

end Traced

/-! ### Runs -/

/-- A tree without a node, or one with a shape. -/
def Kept (tree : BoundsTree U) (inserted : List (Inserted U)) : Prop :=
  (tree = empty ∧ inserted = []) ∨ ∃ s top, Traced tree inserted s top

theorem Kept.wellFormed {tree : BoundsTree U} {inserted : List (Inserted U)}
    (h : Kept tree inserted) : WellFormed tree inserted := by
  rcases h with h | ⟨s, top, h⟩
  · exact Or.inl h
  · exact Or.inr ⟨s.idx, h.structured⟩

theorem Kept.represents {tree : BoundsTree U} {inserted : List (Inserted U)}
    (h : Kept tree inserted) : Represents tree (inserted.map Inserted.entry) := by
  rcases h with ⟨rfl, rfl⟩ | ⟨s, top, h⟩
  · exact represents_empty
  · exact Or.inr ⟨s, top.idx, top.entry, h.holds⟩

/-- An insertion into a tree with a root. -/
theorem Traced.insert {tree : BoundsTree U} {inserted : List (Inserted U)} {s : Shape U}
    {top : Inserted U} (h : Traced tree inserted s top) (bounds : Bounds U) {order : ℕ}
    (horder : order = maxIntersecting bounds (inserted.map Inserted.entry) + 1)
    (hmax : maxIntersecting bounds (inserted.map Inserted.entry) < u32Max) :
    ∃ tree', tree.insert bounds = .ok (tree', order) ∧
      Kept tree' (⟨tree.nodes.length, bounds, order⟩ :: inserted) := by
  obtain ⟨tree', s', maxIdx, maxEntry, hrun, hholds, hgrown, hjoined, htop⟩ :=
    h.holds.insert bounds horder hmax
  set new : Inserted U := ⟨tree.nodes.length, bounds, order⟩ with hnew
  have hkept : ∀ e ∈ inserted, tree'.nodes[e.idx]? = some e.node := by
    intro e he
    have hcell : (tree.nodes ++ [new.node])[e.idx]? = some e.node :=
      (List.getElem?_append_left (List.getElem?_eq_some_iff.mp (h.leaf e he)).1).trans (h.leaf e he)
    exact (hgrown.leafFrame _ _ _ hcell).trans hcell
  have hadded : tree'.nodes[tree.nodes.length]? = some new.node := by
    have hcell : (tree.nodes ++ [new.node])[tree.nodes.length]? = some new.node :=
      List.getElem?_concat_length ..
    exact (hgrown.leafFrame _ _ _ hcell).trans hcell
  have hdistinct : ((new :: inserted).map Inserted.idx).Nodup := by
    refine List.nodup_cons.mpr ⟨fun hin => ?_, h.distinct⟩
    obtain ⟨e, he, hidx⟩ := List.mem_map.mp hin
    have hlt := (List.getElem?_eq_some_iff.mp (h.leaf e he)).1
    rw [hidx] at hlt
    exact lt_irrefl _ hlt
  have hfilled : ∀ i < tree'.nodes.length, i ∈ indices [s'] := by
    intro i hi
    by_cases hold : i < tree.nodes.length
    · obtain ⟨fresh, hperm, -⟩ := hgrown.indices
      exact hperm.mem_iff.mpr (List.mem_append_right _ (h.filled i hold))
    · refine hjoined.gained i ?_
      rw [List.length_append, List.length_singleton]
      omega
  refine ⟨tree', hrun, Or.inr ⟨s', ?_⟩⟩
  -- The leaf with the greatest order is the new one or the one so far.
  obtain ⟨top', hmem, hidx, hentry⟩ : ∃ top' ∈ new :: inserted,
      top'.idx = maxIdx ∧ top'.entry = maxEntry := by
    rcases htop with htop | htop
    · exact ⟨new, List.mem_cons_self, (congrArg Prod.fst htop).symm, (congrArg Prod.snd htop).symm⟩
    · exact ⟨top, List.mem_cons_of_mem _ h.top_mem, (congrArg Prod.fst htop).symm,
        (congrArg Prod.snd htop).symm⟩
  refine ⟨top', ?_, hjoined.built h.built, hfilled, fun e he => ?_, hdistinct, hmem⟩
  · rw [hidx, hentry]
    exact hholds
  · rcases List.mem_cons.mp he with rfl | he
    · exact hadded
    · exact hkept e he

theorem Kept.insert {tree : BoundsTree U} {inserted : List (Inserted U)} (h : Kept tree inserted)
    (bounds : Bounds U) {order : ℕ}
    (horder : order = maxIntersecting bounds (inserted.map Inserted.entry) + 1)
    (hmax : maxIntersecting bounds (inserted.map Inserted.entry) < u32Max) :
    ∃ tree', tree.insert bounds = .ok (tree', order) ∧
      Kept tree' (⟨tree.nodes.length, bounds, order⟩ :: inserted) := by
  rcases h with ⟨rfl, rfl⟩ | ⟨s, top, h⟩
  · obtain ⟨tree', hrun, hnodes, hholds⟩ := insert_first
      (show (empty : BoundsTree U).root = none from rfl) rfl bounds
    obtain rfl : order = 1 := horder
    refine ⟨tree', hrun, Or.inr ⟨.leaf 0 bounds 1, ⟨0, bounds, 1⟩, hholds, .leaf _ _ _, ?_, ?_, ?_,
      List.mem_cons_self⟩⟩
    · intro i hi
      rw [hnodes] at hi
      obtain rfl : i = 0 := Nat.lt_one_iff.mp hi
      rw [indices_leaf]
      exact List.mem_cons_self
    · intro e he
      rw [List.mem_singleton.mp he, hnodes]
      rfl
    · exact List.nodup_singleton _
  · exact h.insert bounds horder hmax

/-- The tree after a run, and the leaves inserted since the last `clear`. -/
def trace : BoundsTree U → List (Inserted U) → List (Call U) →
    Result (BoundsTree U × List (Inserted U))
  | tree, inserted, [] => .ok (tree, inserted)
  | tree, inserted, .insert bounds :: calls => do
    let (tree', order) ← tree.insert bounds
    trace tree' (⟨tree.nodes.length, bounds, order⟩ :: inserted) calls
  | tree, _, .clear :: calls => trace tree.clear [] calls

/-- A run from a tree with a shape, whose orders are at most the number of the insertions. -/
theorem Kept.trace {tree : BoundsTree U} {inserted : List (Inserted U)} (h : Kept tree inserted)
    (horders : ∀ e ∈ inserted, e.order ≤ inserted.length) (calls : List (Call U)) :
    (∃ tree' inserted', BoundsTree.trace tree inserted calls = .ok (tree', inserted') ∧
      Kept tree' inserted') ∨
    (BoundsTree.trace tree inserted calls = .error .arithmeticOverflow ∧
      u32Max ≤ inserted.length + calls.length) := by
  induction calls generalizing tree inserted with
  | nil => exact Or.inl ⟨tree, inserted, rfl, h⟩
  | cons call calls ih =>
    cases call with
    | clear =>
      have hclear : Kept tree.clear [] := Or.inl ⟨rfl, rfl⟩
      rw [List.length_cons]
      rcases ih hclear (by simp) with hok | ⟨herror, hlength⟩
      · exact Or.inl hok
      · rw [List.length_nil] at hlength
        exact Or.inr ⟨herror, by omega⟩
    | insert bounds =>
      have hle : maxIntersecting bounds (inserted.map Inserted.entry) ≤ inserted.length := by
        refine maxIntersecting_le_iff.mpr fun entry hentry _ => ?_
        obtain ⟨e, he, rfl⟩ := List.mem_map.mp hentry
        exact horders e he
      rw [BoundsTree.trace, List.length_cons]
      by_cases hmax : maxIntersecting bounds (inserted.map Inserted.entry) < u32Max
      · obtain ⟨tree', hrun, hkept⟩ := h.insert bounds rfl hmax
        rw [hrun, ok_bind]
        dsimp only
        have hnext := ih hkept (fun e he => ?_)
        · rw [List.length_cons, Nat.add_right_comm, Nat.add_assoc] at hnext
          exact hnext
        · rw [List.length_cons]
          rcases List.mem_cons.mp he with rfl | he
          · exact Nat.succ_le_succ hle
          · exact (horders e he).trans (Nat.le_succ _)
      · refine Or.inr ⟨?_, by omega⟩
        rw [h.represents.insert_overflow bounds (not_lt.mp hmax)]
        rfl

/-- A run ends with a vector that is a tree with the inserted leaves.  Only a run with more calls
than there are orders can fail, by an overflow. -/
theorem trace_wellFormed (calls : List (Call U)) :
    (∃ tree inserted, BoundsTree.trace (empty : BoundsTree U) [] calls = .ok (tree, inserted) ∧
      WellFormed tree inserted) ∨
    (BoundsTree.trace (empty : BoundsTree U) [] calls = .error .arithmeticOverflow ∧
      u32Max ≤ calls.length) := by
  have hkept : Kept (empty : BoundsTree U) [] := Or.inl ⟨rfl, rfl⟩
  rcases hkept.trace (by simp) calls with ⟨tree, inserted, hrun, h⟩ | ⟨herror, hlength⟩
  · exact Or.inl ⟨tree, inserted, hrun, h.wellFormed⟩
  · rw [List.length_nil, Nat.zero_add] at hlength
    exact Or.inr ⟨herror, hlength⟩

end BoundsTree

end Zui.Gpui
