/-
Moving a cursor to the next or previous item that a filter accepts.

`searchForward` and `searchBackward` skip whole subtrees whose summary the filter
rejects.  `Skipped` says that a run of items was skipped so, in pieces; for a
filter that accepts a sum exactly when it accepts a part of it, none of the items
was accepted (`Skipped.all_rejected`).

* `searchForward_spec` — the move to the right;
* `searchBackward_spec` — the move to the left.
-/
import Zui.SumTree.Place

namespace Zui

namespace Cursor

open SumTree

section Skipped

variable {T S : Type} [Zero S] [Add S] [Item T S]

/-- Items that were skipped in runs whose sum the filter rejects. -/
inductive Skipped (filterNode : S → Bool) : List T → Prop
  | nil : Skipped filterNode []
  | run {xs : List T} : xs ≠ [] → filterNode (sumItems xs) = false → Skipped filterNode xs
  | append {xs ys : List T} : Skipped filterNode xs → Skipped filterNode ys →
      Skipped filterNode (xs ++ ys)

/-- A filter that accepts a sum exactly when it accepts a part of it. -/
def Additive (filterNode : S → Bool) : Prop :=
  ∀ a b, filterNode (a + b) = (filterNode a || filterNode b)

variable {filterNode : S → Bool}

theorem Additive.sumItems_eq [LawfulSummary S] (hf : Additive filterNode) (xs : List T)
    (hne : xs ≠ []) : filterNode (sumItems xs) = xs.any fun x => filterNode (Item.summary x) := by
  induction xs using List.reverseRecOn with
  | nil => exact absurd rfl hne
  | append_singleton xs x ih =>
    by_cases hxs : xs = []
    · subst hxs
      simp [sumItems_singleton]
    · rw [sumItems_concat, hf, ih hxs, List.any_append]
      simp

/-- An additive filter accepts no skipped item. -/
theorem Skipped.all_rejected [LawfulSummary S] (hf : Additive filterNode) {xs : List T}
    (hs : Skipped filterNode xs) : ∀ x ∈ xs, filterNode (Item.summary x) = false := by
  induction hs with
  | nil => simp
  | @run xs hne hsum =>
    rw [hf.sumItems_eq xs hne] at hsum
    simpa using hsum
  | append _ _ ihx ihy =>
    intro x hx
    rcases List.mem_append.mp hx with hx | hx
    · exact ihx x hx
    · exact ihy x hx

end Skipped

variable {T S D : Type} [Zero S] [Add S] [Item T S] [LawfulSummary S] [Dimension D S]
  {Pos : List T → D → Prop} {filterNode : S → Bool} {root : SumTree T S}

/-! ### Forward -/

omit [LawfulSummary S] in
theorem skipTrees_spec (filterNode : S → Bool) (hpos : Tracks (S := S) Pos) {h : ℕ} :
    ∀ {ts : List (SumTree T S)} {done : List T} (entry : StackEntry T S D) {p : D},
    (∀ t ∈ ts, WF h t) → Pos done entry.position → Pos done p →
    ∃ passed below p' q, ts = passed ++ below ∧
      skipChildren filterNode (ts.map SumTree.summary) entry p
        = (⟨entry.tree, entry.index + passed.length, p'⟩, q, !below.isEmpty) ∧
      Pos (done ++ listItems passed) p' ∧ Pos (done ++ listItems passed) q ∧
      Skipped filterNode (listItems passed) := by
  intro ts
  induction ts with
  | nil =>
    intro done entry p _ hentry hp
    exact ⟨[], [], entry.position, p, rfl, rfl, by simpa using hentry, by simpa using hp,
      by simpa using Skipped.nil⟩
  | cons t ts ih =>
    intro done entry p hts hentry hp
    have ht : WF h t := hts t (by simp)
    rw [List.map_cons, skipChildren]
    by_cases hf : filterNode t.summary = true
    · rw [if_pos hf]
      exact ⟨[], t :: ts, entry.position, p, rfl, rfl, by simpa using hentry, by simpa using hp,
        by simpa using Skipped.nil⟩
    · have hone : Skipped filterNode t.toList :=
        .run ht.toList_ne_nil (by rw [← ht.summary_eq]; simpa using hf)
      obtain ⟨passed, below, p', q, rfl, hrun, hp', hq, hskip⟩ :=
        ih ⟨entry.tree, entry.index + 1, Dimension.addSummary entry.position t.summary⟩
          (fun u hu => hts u (by simp [hu])) (hpos.tree ht hentry) (hpos.tree ht hp)
      refine ⟨t :: passed, below, p', q, rfl, ?_, by simpa using hp', by simpa using hq,
        by rw [listItems_cons]; exact .append hone hskip⟩
      rw [if_neg hf, hrun]
      simp [Nat.add_assoc, Nat.add_comm 1]

theorem skipItems_spec (filterNode : S → Bool) (hpos : Tracks (S := S) Pos) :
    ∀ (xs : List T) {done : List T} (entry : StackEntry T S D) {p : D}, Pos done p →
    ∃ passed below p' q, xs = passed ++ below ∧
      skipChildren filterNode (xs.map Item.summary) entry p
        = (⟨entry.tree, entry.index + passed.length, p'⟩, q, !below.isEmpty) ∧
      Pos (done ++ passed) q ∧ Skipped filterNode passed ∧
      ∀ x ∈ below.head?, filterNode (Item.summary x) = true := by
  intro xs
  induction xs with
  | nil =>
    intro done entry p hp
    exact ⟨[], [], entry.position, p, rfl, by simp [skipChildren], by simpa using hp, .nil, by simp⟩
  | cons x xs ih =>
    intro done entry p hp
    rw [List.map_cons, skipChildren]
    by_cases hf : filterNode (Item.summary x) = true
    · rw [if_pos hf]
      exact ⟨[], x :: xs, entry.position, p, rfl, by simp, by simpa using hp, .nil,
        by simpa using hf⟩
    · have hone : Skipped filterNode [x] :=
        .run (by simp) (by rw [sumItems_singleton]; simpa using hf)
      obtain ⟨passed, below, p', q, rfl, hrun, hq, hskip, hstop⟩ := ih ⟨entry.tree,
        entry.index + 1, Dimension.addSummary entry.position (Item.summary x)⟩ (hpos.item x hp)
      refine ⟨x :: passed, below, p', q, rfl, ?_, by simpa using hq, .append hone hskip, hstop⟩
      rw [if_neg hf, hrun]
      simp [Nat.add_assoc, Nat.add_comm 1]

/-- A state of the loop of `search_forward` that started behind `start` and has
skipped `skipped`. -/
structure Searching (Pos : List T → D → Prop) (filterNode : S → Bool) (root : SumTree T S)
    (start skipped todo : List T) (s : Forward T S D) : Prop where
  stack : (s.descend = false ∧ Returned Pos root s.stack (start ++ skipped) todo) ∨
    (s.descend = true ∧ Frontier Pos root s.stack (start ++ skipped) todo)
  position : Pos (start ++ skipped) s.position
  skipped : Skipped filterNode skipped

/-- How `search_forward` ends. -/
structure Found (Pos : List T → D → Prop) (filterNode : S → Bool) (root : SumTree T S)
    (start skipped : List T) (r : Landed T S D) : Prop where
  stack : (r.found = false ∧ r.stack = [] ∧ root.toList = start ++ skipped) ∨
    ∃ x todo, r.found = true ∧ OnItem Pos root r.stack (start ++ skipped) x todo ∧
      filterNode (Item.summary x) = true
  position : Pos (start ++ skipped) r.position
  skipped : Skipped filterNode skipped

/-- The measure of the loop. -/
def Forward.measure (s : Forward T S D) : ℕ :=
  if s.descend then aheadOfTop s.stack else ahead s.stack

/-- What a pass makes of a state: another one with less left to do, or the end. -/
def ForwardStep (Pos : List T → D → Prop) (filterNode : S → Bool) (root : SumTree T S)
    (start : List T) (n : ℕ) (s : Forward T S D) : Prop :=
  (∃ s', searchForwardPass filterNode s = .ok (.next s') ∧
    (∃ skipped todo, Searching Pos filterNode root start skipped todo s') ∧ s'.measure < n) ∨
  (∃ r, searchForwardPass filterNode s = .ok (.done r) ∧
    ∃ skipped, Found Pos filterNode root start skipped r)

omit [LawfulSummary S] in
/-- A pass that starts between two children. -/
theorem searchForwardPass_internal (hpos : Tracks (S := S) Pos) (hr : Valid root)
    (hheight : root.height ≤ 15) {start skipped pre post : List T} {h : ℕ} {s : S} {ss : List S}
    {l r : List (SumTree T S)} {rest : List (StackEntry T S D)} {p q : D}
    (hp : Path Pos root rest (.internal h s ss (l ++ r)) pre post)
    (hdone : start ++ skipped = pre ++ listItems l) (hentry : Pos (start ++ skipped) p)
    (hq : Pos (start ++ skipped) q) (hskip : Skipped filterNode skipped) :
    ForwardStep Pos filterNode root start
      (aheadOfTop (⟨.internal h s ss (l ++ r), l.length, p⟩ :: rest))
      ⟨⟨.internal h s ss (l ++ r), l.length, p⟩ :: rest, q, true⟩ := by
  left
  obtain ⟨hv, hlen⟩ := hp.valid hr
  obtain ⟨_, _, rfl, hts, hheight'⟩ := hv.children
  rw [height_internal] at hlen
  obtain ⟨passed, below, p', q', rfl, hrun, hp', hq', hskip'⟩ := skipTrees_spec filterNode hpos
    ⟨.internal h s ((l ++ r).map SumTree.summary) (l ++ r), l.length, p⟩
    (fun t ht => hts t (List.mem_append_right l ht)) hentry hq
  have hskipped : Skipped filterNode (skipped ++ listItems passed) := .append hskip hskip'
  have hitems : start ++ (skipped ++ listItems passed) = pre ++ listItems (l ++ passed) := by
    rw [← List.append_assoc, hdone, listItems_append, List.append_assoc]
  have hdrop : ((l ++ (passed ++ below)).map SumTree.summary).drop l.length
      = (passed ++ below).map SumTree.summary := by
    rw [List.map_append]
    exact List.drop_left' (List.length_map _)
  rw [List.append_assoc] at hp' hq'
  simp only [searchForwardPass, if_true, hdrop, hrun]
  cases below with
  | nil =>
    -- No child is left: the node is left, too.
    have hnone : (l ++ (passed ++ []))[l.length + passed.length]? = none := by simp
    rw [hnone]
    refine ⟨_, rfl, ⟨skipped ++ listItems passed, post, Or.inl ⟨rfl, ?_⟩, hq', hskipped⟩, ?_⟩
    · rw [hitems]
      simpa using hp.returned
    · have hmeasure := remaining_pos (.internal h s ((l ++ (passed ++ [])).map SumTree.summary)
        (l ++ (passed ++ []))) l.length
      simp only [Forward.measure, Bool.false_eq_true, if_false, aheadOfTop]
      omega
  | cons c below =>
    -- The search goes on inside the child `c`.
    have hsome : (l ++ (passed ++ c :: below))[l.length + passed.length]? = some c := by simp
    have hpush : ∀ e e' : StackEntry T S D, pushEntry (e :: rest) e' = .ok (e' :: e :: rest) :=
      fun e e' => pushEntry_ok (by rw [List.length_cons]; omega)
    have hpath : Path Pos root rest (.internal h s ((l ++ (passed ++ c :: below)).map
        SumTree.summary) ((l ++ passed) ++ c :: below)) pre post := by
      rw [List.append_assoc]
      exact hp
    have hfront := (hpath.down (hitems ▸ hp')).frontier (hitems ▸ hq')
    rw [hsome]
    simp only [hpush, ok_bind]
    refine ⟨_, rfl, ⟨skipped ++ listItems passed, c.toList ++ (listItems below ++ post),
      Or.inr ⟨rfl, ?_⟩, hq', hskipped⟩, ?_⟩
    · rw [hitems]
      simpa [List.append_assoc] using hfront
    · simp only [Forward.measure, if_true]
      exact aheadOfTop_push rest

/-- A pass that starts between two items. -/
theorem searchForwardPass_leaf (hpos : Tracks (S := S) Pos) (hr : Valid root)
    {start skipped pre post : List T} {s : S} {ss : List S} {l r : List T}
    {rest : List (StackEntry T S D)} {p q : D}
    (hp : Path Pos root rest (.leaf s (l ++ r) ss) pre post) (hdone : start ++ skipped = pre ++ l)
    (hq : Pos (start ++ skipped) q) (hskip : Skipped filterNode skipped) :
    ForwardStep Pos filterNode root start
      (aheadOfTop (⟨.leaf s (l ++ r) ss, l.length, p⟩ :: rest))
      ⟨⟨.leaf s (l ++ r) ss, l.length, p⟩ :: rest, q, true⟩ := by
  obtain ⟨-, rfl⟩ := (hp.valid hr).1.leafItems
  obtain ⟨passed, below, p', q', rfl, hrun, hq', hskip', hstop⟩ := skipItems_spec filterNode hpos r
    ⟨.leaf s (l ++ r) ((l ++ r).map Item.summary), l.length, p⟩ hq
  have hskipped : Skipped filterNode (skipped ++ passed) := .append hskip hskip'
  have hitems : start ++ (skipped ++ passed) = pre ++ (l ++ passed) := by
    rw [← List.append_assoc, hdone, List.append_assoc]
  have hdrop : ((l ++ (passed ++ below)).map (Item.summary (S := S))).drop l.length
      = (passed ++ below).map Item.summary := by
    rw [List.map_append]
    exact List.drop_left' (List.length_map _)
  rw [List.append_assoc] at hq'
  rw [ForwardStep]
  simp only [searchForwardPass, if_true, ok_bind, hdrop, hrun]
  cases below with
  | nil =>
    left
    refine ⟨_, rfl, ⟨skipped ++ passed, post, Or.inl ⟨rfl, ?_⟩, hq', hskipped⟩, ?_⟩
    · rw [hitems]
      simpa using hp.returned
    · simp [Forward.measure, aheadOfTop, remaining]
  | cons x below =>
    right
    have hpath : Path Pos root rest (.leaf s ((l ++ passed) ++ x :: below)
        ((l ++ (passed ++ x :: below)).map Item.summary)) pre post := by
      rw [List.append_assoc]
      exact hp
    have hon := OnItem.leaf (p := p') hpath
    refine ⟨_, rfl, skipped ++ passed, Or.inr ⟨x, below ++ post, rfl, ?_, hstop x rfl⟩, hq',
      hskipped⟩
    rw [hitems]
    simpa [List.append_assoc] using hon

theorem searchForwardPass_frontier (hpos : Tracks (S := S) Pos) (hr : Valid root)
    (hheight : root.height ≤ 15) {start skipped todo : List T} {stack : List (StackEntry T S D)}
    {p : D} (hf : Frontier Pos root stack (start ++ skipped) todo) (hp : Pos (start ++ skipped) p)
    (hskip : Skipped filterNode skipped) :
    ForwardStep Pos filterNode root start (aheadOfTop stack) ⟨stack, p, true⟩ := by
  generalize hdone : start ++ skipped = done at hf
  cases hf with
  | internal hpath hentry =>
    exact searchForwardPass_internal hpos hr hheight hpath hdone (hdone ▸ hentry) hp hskip
  | leaf hpath => exact searchForwardPass_leaf hpos hr hpath hdone hp hskip

omit [Zero S] [Add S] [Item T S] [LawfulSummary S] in
/-- Coming back from a child is moving on to what lies behind it. -/
theorem searchForwardPass_ascending {h : ℕ} {s : S} {ss : List S} {cs : List (SumTree T S)} {i : ℕ}
    {p : D} {rest : List (StackEntry T S D)} {position : D} :
    searchForwardPass filterNode ⟨⟨.internal h s ss cs, i, p⟩ :: rest, position, false⟩
      = searchForwardPass filterNode ⟨⟨.internal h s ss cs, i + 1, position⟩ :: rest,
        position, true⟩ :=
  rfl

theorem searchForwardPass_spec (hpos : Tracks (S := S) Pos) (hr : Valid root)
    (hheight : root.height ≤ 15) {start : List T} (s : Forward T S D)
    (hs : ∃ skipped todo, Searching Pos filterNode root start skipped todo s) :
    ForwardStep Pos filterNode root start s.measure s := by
  obtain ⟨skipped, todo, hstack, hp, hskip⟩ := hs
  obtain ⟨stack, position, descend⟩ := s
  rcases hstack with ⟨hdesc, hret⟩ | ⟨hdesc, hf⟩
  · simp only at hdesc hret hp
    subst hdesc
    generalize hdone : start ++ skipped = done at hret
    cases hret with
    | root =>
      exact Or.inr ⟨_, rfl, skipped, Or.inl ⟨rfl, rfl, hdone.symm⟩, hp, hskip⟩
    | @child rest h s ss l r c pre post p hpath =>
      have hf := (Returned.child (p := p) hpath).frontier (hdone ▸ hp)
      rw [← hdone] at hf
      have hstep := searchForwardPass_frontier hpos hr hheight hf hp hskip
      rw [ForwardStep, searchForwardPass_ascending]
      exact hstep
  · simp only at hdesc hf hp
    subst hdesc
    exact searchForwardPass_frontier hpos hr hheight hf hp hskip

theorem searchForwardLoop_spec (filterNode : S → Bool) (hpos : Tracks (S := S) Pos)
    (hr : Valid root) (hheight : root.height ≤ 15) {start todo : List T}
    {stack : List (StackEntry T S D)} {p : D} (hf : Frontier Pos root stack start todo)
    (hp : Pos start p) :
    ∃ r, loop .outOfFuel (searchForwardPass filterNode) (stackFuel stack) ⟨stack, p, true⟩ = .ok r ∧
      ∃ skipped, Found Pos filterNode root start skipped r := by
  have hstart : Searching Pos filterNode root start [] todo ⟨stack, p, true⟩ :=
    ⟨Or.inr ⟨rfl, by simpa using hf⟩, by simpa using hp, .nil⟩
  exact loop_spec (fun s => ∃ skipped todo, Searching Pos filterNode root start skipped todo s)
    Forward.measure _ (searchForwardPass_spec hpos hr hheight) ⟨[], todo, hstart⟩
    (by simpa [Forward.measure] using aheadOfTop_lt stack)

omit [Zero S] [Add S] [Item T S] [LawfulSummary S] in
theorem searchForwardPass_leave {f : S → Bool} {s t : S} {x : List T} {ss : List S} {i : ℕ}
    {p q : D} {r : List (StackEntry T S D)} (h : index ss i = .ok t) :
    searchForwardPass f ⟨⟨.leaf s x ss, i, p⟩ :: r, q, false⟩ = searchForwardPass f
      ⟨⟨.leaf s x ss, i + 1, Dimension.addSummary p t⟩ :: r, Dimension.addSummary q t, true⟩ := by
  simp only [searchForwardPass, Bool.false_eq_true, if_false, h, ok_bind, if_true]

omit [Zero S] [Add S] [Item T S] [LawfulSummary S] in
theorem startForward_of_stack {c : Cursor T S D} (h : c.stack.isEmpty = false) :
    c.startForward = .ok (c, false) := by
  simp [startForward, h]

/-- What a search to the right leaves, when `start` lies behind it: the next item
that the filter accepts, or the end. -/
def SearchedForward (Pos : List T → D → Prop) (filterNode : S → Bool) (root : SumTree T S)
    (start : List T) (c : Cursor T S D) : Prop :=
  c.tree = root ∧ ∃ p skipped, c.At Pos p ∧ Skipped filterNode skipped ∧
    p.Lands (fun x => filterNode (Item.summary x) = true) root.toList (start ++ skipped)

omit [LawfulSummary S] in
/-- The end of `search_forward`, after its loop. -/
theorem searchForward_of_loop {c : Cursor T S D} {start : List T} {descend : Bool}
    {self : Cursor T S D} (hstart : c.startForward = .ok (self, descend))
    (htree : self.tree = c.tree) (hd : self.didSeek = true) {r : Landed T S D}
    (hend : r.found = true → self.atEnd = false)
    (hloop : loop .outOfFuel (searchForwardPass filterNode) (stackFuel self.stack)
      ⟨self.stack, self.position, descend⟩ = .ok r)
    (hfound : ∃ skipped, Found Pos filterNode c.tree start skipped r) :
    ∃ c', c.searchForward filterNode = .ok c' ∧
      SearchedForward Pos filterNode c.tree start c' := by
  obtain ⟨skipped, hstack, hp, hskip⟩ := hfound
  obtain ⟨stack, position, found⟩ := r
  simp only at hstack hp hend
  obtain ⟨tree, stack', position', didSeek, atEnd⟩ := self
  simp only at htree hd hend hloop
  subst htree hd
  have hrun : c.searchForward filterNode = .ok ⟨c.tree, stack, position, true,
      if found then atEnd else stack.isEmpty⟩ := by
    rw [searchForward, hstart, ok_bind]
    simp only [hloop, ok_bind]
  refine ⟨_, hrun, rfl, ?_⟩
  rcases hstack with ⟨rfl, rfl, hitems⟩ | ⟨x, todo, rfl, hon, hstop⟩
  · exact ⟨.afterLast, skipped, ⟨rfl, rfl, by rw [hitems]; exact hp, rfl⟩, hskip, hitems⟩
  · exact ⟨.item (start ++ skipped) x todo, skipped, ⟨rfl, hon, hp, hend rfl⟩, hskip,
      rfl, hon.items,
      hstop⟩

theorem searchForward_of_nil (hpos : Tracks (S := S) Pos) {c : Cursor T S D} (hr : Valid c.tree)
    (hheight : c.tree.height ≤ 15) (hstack : c.stack = []) (hp : Pos [] c.position)
    (hend : c.atEnd = c.tree.isEmpty) :
    ∃ c', c.searchForward filterNode = .ok c' ∧ SearchedForward Pos filterNode c.tree [] c' := by
  by_cases hempty : c.tree.isEmpty = true
  · -- An empty tree: the stack stays empty.
    have hitems : c.tree.toList = [] := by
      rw [hr.isEmpty_eq] at hempty
      simpa using hempty
    have hstart : c.startForward = .ok ({ c with didSeek := true }, false) := by
      simp [startForward, hstack, hend, hempty]
    refine searchForward_of_loop (r := ⟨[], c.position, false⟩) hstart rfl rfl (by simp) ?_
      ⟨[], Or.inl ⟨rfl, rfl, hitems⟩, hp, .nil⟩
    rw [hstack]
    rfl
  · have hstart : c.startForward = .ok ({ c with
        stack := [⟨c.tree, 0, Dimension.zero S⟩], didSeek := true }, true) := by
      simp [startForward, hstack, hend, hempty, pushEntry]
    obtain ⟨r, hloop, hfound⟩ := searchForwardLoop_spec filterNode hpos hr hheight
      (Path.root.frontier hpos.zero) hp
    refine searchForward_of_loop hstart rfl rfl (fun _ => ?_) hloop hfound
    rw [hend]
    simpa using hempty

/-- **Searching forward.**  The cursor moves to the next item that the filter
accepts, or behind the last one; the items between were skipped. -/
theorem searchForward_spec (filterNode : S → Bool) (hpos : Tracks (S := S) Pos) {c : Cursor T S D}
    (hr : Valid c.tree) (hheight : c.tree.height ≤ 15) {p : Place T} (hat : c.At Pos p) :
    ∃ c', c.searchForward filterNode = .ok c' ∧
      SearchedForward Pos filterNode c.tree (p.upTo c.tree.toList) c' := by
  match p, hat with
  | .fresh, hat => exact searchForward_of_nil hpos hr hheight hat.2.1 hat.2.2.1 hat.2.2.2
  | .beforeFirst, hat => exact searchForward_of_nil hpos hr hheight hat.2.1 hat.2.2.1 hat.2.2.2
  | .afterLast, hat =>
    obtain ⟨hd, hstack, hp, hend⟩ := hat
    have hstart : c.startForward = .ok ({ c with didSeek := true }, false) := by
      simp [startForward, hstack, hend]
    refine searchForward_of_loop (r := ⟨[], c.position, false⟩) hstart rfl rfl (by simp) ?_
      ⟨[], Or.inl ⟨rfl, rfl, by simp [Place.upTo, Place.done, Place.current]⟩, ?_, .nil⟩
    · rw [hstack]
      rfl
    · simpa [Place.upTo, Place.done, Place.current] using hp
  | .item done x todo, hat =>
    obtain ⟨tree, stack, position, didSeek, atEnd⟩ := c
    obtain ⟨hd, hon, hp, hend⟩ := hat
    simp only at hd hon hp hend hr hheight
    subst hd hend
    cases hon with
    | @leaf rest s ss l r pre post x q hpath =>
      obtain ⟨-, rfl⟩ := (hpath.valid hr).1.leafItems
      have hleave := searchForwardPass_leave (f := filterNode) (s := s) (x := l ++ x :: r) (p := q)
        (q := position) (r := rest) (index_map_append (Item.summary (S := S)) l r x)
      have hpath' : Path Pos tree rest (.leaf s ((l ++ [x]) ++ r)
          ((l ++ x :: r).map (Item.summary (S := S)))) pre post := by
        simpa using hpath
      have hfront := Frontier.leaf (p := Dimension.addSummary q (Item.summary x : S)) hpath'
      have heq : (l ++ [x]) ++ r = l ++ x :: r := by simp
      have hdone : pre ++ (l ++ [x]) = pre ++ l ++ [x] := by simp
      rw [heq, List.length_append, List.length_singleton, hdone] at hfront
      obtain ⟨res, hloop, hfound⟩ :=
        searchForwardLoop_spec filterNode hpos hr hheight hfront (hpos.item x hp)
      refine searchForward_of_loop (startForward_of_stack rfl) rfl rfl (fun _ => rfl) ?_ hfound
      rw [loop_congr hleave]
      exact hloop

/-! ### Backward -/

section Behind

variable {T S D : Type} {Pos : List T → D → Prop} {root node : SumTree T S}
  {stack : List (StackEntry T S D)} {pre post : List T}

/-- The top of the stack is behind a child or item that is still to come: `done`
lies before its index, `todo` from there on. -/
inductive Behind (Pos : List T → D → Prop) (root : SumTree T S) :
    List (StackEntry T S D) → List T → List T → Prop
  | root : Behind Pos root [] [] root.toList
  | internal {stack : List (StackEntry T S D)} {h : ℕ} {s : S} {ss : List S}
      {l r : List (SumTree T S)} {pre post : List T} {p : D} :
      Path Pos root stack (.internal h s ss (l ++ r)) pre post →
      Behind Pos root (⟨.internal h s ss (l ++ r), l.length, p⟩ :: stack)
        (pre ++ listItems l) (listItems r ++ post)
  | leaf {stack : List (StackEntry T S D)} {s : S} {ss : List S} {l r pre post : List T} {p : D} :
      Path Pos root stack (.leaf s (l ++ r) ss) pre post →
      Behind Pos root (⟨.leaf s (l ++ r) ss, l.length, p⟩ :: stack) (pre ++ l) (r ++ post)

theorem Path.behind [Zero S] [Add S] [Item T S] (hr : Valid root)
    (hp : Path Pos root stack node pre post) (p : D) :
    Behind Pos root (⟨node, node.childSummaries.length, p⟩ :: stack) (pre ++ node.toList) post := by
  match node, hp with
  | .internal h s ss cs, hp =>
    obtain ⟨_, _, rfl, _, _⟩ := (hp.valid hr).1.children
    have := Behind.internal (l := cs) (r := []) (p := p) (by simpa using hp)
    simpa using this
  | .leaf s xs ss, hp =>
    obtain ⟨-, rfl⟩ := (hp.valid hr).1.leafItems
    have := Behind.leaf (l := xs) (r := []) (p := p) (by simpa using hp)
    simpa using this

/-- Leaving a node to the left. -/
theorem Path.left (hp : Path Pos root stack node pre post) :
    Behind Pos root stack pre (node.toList ++ post) := by
  cases hp with
  | root =>
    have hb : Behind Pos root [] [] root.toList := .root
    simpa using hb
  | @down stack h s ss l r _ pre post p hp _ =>
    have := Behind.internal (p := p) hp
    simpa using this

theorem OnItem.behind {x : T} (hon : OnItem Pos root stack pre x post) :
    Behind Pos root stack pre (x :: post) := by
  cases hon with
  | leaf hp => exact .leaf hp

/-- The backward passes that are left in a node, up to the child at an index. -/
def passed : SumTree T S → ℕ → ℕ
  | .internal _ _ _ childTrees, i => weights (childTrees.take i) + 1
  | .leaf _ items _, i => (items.take i).length + 1

theorem passed_internal (h : ℕ) (s : S) (ss : List S) (cs : List (SumTree T S)) (i : ℕ) :
    passed (.internal h s ss cs) i = weights (cs.take i) + 1 := rfl

theorem passed_le (t : SumTree T S) (i : ℕ) : passed t i ≤ t.weight := by
  cases t with
  | internal h s ss cs =>
    have h := weights_append (cs.take i) (cs.drop i)
    rw [List.take_append_drop] at h
    rw [passed, weight]
    omega
  | leaf s xs ss =>
    rw [passed, weight, List.length_take]
    omega

theorem passed_pos (t : SumTree T S) (i : ℕ) : 0 < passed t i := by
  cases t <;> simp [passed]

theorem childSummaries_pos [Zero S] [Add S] [Item T S] {h : ℕ} {t : SumTree T S} (ht : WF h t) :
    1 ≤ t.childSummaries.length := by
  cases ht with
  | leaf hne _ => simpa [Nat.one_le_iff_ne_zero] using hne
  | internal hne _ _ => simpa [Nat.one_le_iff_ne_zero] using hne

/-- The backward passes that are left before the children that a stack points at. -/
def behind (stack : List (StackEntry T S D)) : ℕ :=
  (stack.map fun entry => passed entry.tree entry.index).sum

/-- The measure of the loop.  A node that is being entered still has all of its
children to come. -/
def Backward.measure (s : Backward T S D) : ℕ :=
  match s.stack with
  | [] => 0
  | entry :: rest =>
    passed entry.tree (if s.descending then entry.index + 1 else entry.index) + behind rest

theorem Backward.measure_false (stack : List (StackEntry T S D)) (position : D) :
    Backward.measure ⟨stack, position, false⟩ = behind stack := by
  cases stack <;> rfl

end Behind

omit [Zero S] [Add S] [LawfulSummary S] [Item T S] in
theorem searchBackwardPass_leave {t : SumTree T S} {p position : D}
    {rest : List (StackEntry T S D)} :
    searchBackwardPass filterNode ⟨⟨t, 0, p⟩ :: rest, position, false⟩
      = .ok (.next ⟨rest, parentPosition rest, false⟩) := by
  simp [searchBackwardPass]

omit [Zero S] [Add S] [Item T S] [LawfulSummary S] in
/-- What a pass does at a child. -/
theorem searchBackwardPass_child {h : ℕ} {s : S} {l r : List (SumTree T S)} {c : SumTree T S}
    {p q position : D} {rest : List (StackEntry T S D)}
    (hq : (l.map SumTree.summary).foldl Dimension.addSummary (parentPosition rest) = q) :
    searchBackwardPass filterNode
        ⟨⟨.internal h s ((l ++ c :: r).map SumTree.summary) (l ++ c :: r), l.length + 1, p⟩ :: rest,
          position, false⟩
      = if filterNode c.summary then do
          let last ← checkedSub c.childSummaries.length 1
          let stack ← pushEntry (⟨.internal h s ((l ++ c :: r).map SumTree.summary) (l ++ c :: r),
            l.length, q⟩ :: rest) ⟨c, last, Dimension.zero S⟩
          .ok (.next ⟨stack, q, true⟩)
        else .ok (.next ⟨⟨.internal h s ((l ++ c :: r).map SumTree.summary) (l ++ c :: r), l.length,
          q⟩ :: rest, q, false⟩) := by
  simp only [searchBackwardPass, childSummaries_internal, Nat.succ_ne_zero, and_false,
    if_false, Bool.false_eq_true, Nat.add_sub_cancel, sliceTo_map_append, ok_bind,
    index_map_append, hq, index_append]
  cases filterNode c.summary <;> rfl

omit [Zero S] [Add S] [LawfulSummary S] in
/-- What a pass does at an item. -/
theorem searchBackwardPass_item {s : S} {l r : List T} {x : T} {p q position : D}
    {rest : List (StackEntry T S D)}
    (hq : (l.map Item.summary).foldl Dimension.addSummary (parentPosition rest) = q) :
    searchBackwardPass filterNode
        ⟨⟨.leaf s (l ++ x :: r) ((l ++ x :: r).map Item.summary), l.length + 1, p⟩ :: rest,
          position, false⟩
      = if filterNode (Item.summary x) then
          .ok (.done (⟨.leaf s (l ++ x :: r) ((l ++ x :: r).map Item.summary), l.length, q⟩ :: rest,
            q))
        else .ok (.next ⟨⟨.leaf s (l ++ x :: r) ((l ++ x :: r).map Item.summary), l.length, q⟩ ::
          rest, q, false⟩) := by
  simp only [searchBackwardPass, childSummaries_leaf, Nat.succ_ne_zero, and_false,
    if_false, Bool.false_eq_true, Nat.add_sub_cancel, sliceTo_map_append, ok_bind,
    index_map_append, hq]
  cases filterNode (Item.summary x) <;> rfl

/-- A state of the loop of `search_backward` that started before `start` and has
skipped `skipped`. -/
structure SearchingBack (Pos : List T → D → Prop) (filterNode : S → Bool) (root : SumTree T S)
    (done skipped start : List T) (s : Backward T S D) : Prop where
  stack : (s.descending = false ∧ Behind Pos root s.stack done (skipped ++ start)) ∨
    (s.descending = true ∧ ∃ tree i p rest, s.stack = ⟨tree, i, p⟩ :: rest ∧
      Behind Pos root (⟨tree, i + 1, p⟩ :: rest) done (skipped ++ start))
  position : s.stack = [] → Pos [] s.position
  skipped : Skipped filterNode skipped

/-- How `search_backward` ends. -/
structure FoundBack (Pos : List T → D → Prop) (filterNode : S → Bool) (root : SumTree T S)
    (skipped start : List T) (r : List (StackEntry T S D) × D) : Prop where
  stack : (r.1 = [] ∧ Pos [] r.2 ∧ root.toList = skipped ++ start) ∨
    ∃ done x, OnItem Pos root r.1 done x (skipped ++ start) ∧ Pos done r.2 ∧
      filterNode (Item.summary x) = true
  skipped : Skipped filterNode skipped

/-- What a pass makes of a state: another one with less left to do, or the end. -/
def BackwardStep (Pos : List T → D → Prop) (filterNode : S → Bool) (root : SumTree T S)
    (start : List T) (n : ℕ) (s : Backward T S D) : Prop :=
  (∃ s', searchBackwardPass filterNode s = .ok (.next s') ∧
    (∃ done skipped, SearchingBack Pos filterNode root done skipped start s') ∧ s'.measure < n) ∨
  (∃ r, searchBackwardPass filterNode s = .ok (.done r) ∧
    ∃ skipped, FoundBack Pos filterNode root skipped start r)

omit [LawfulSummary S] in
theorem backwardStep_leave (hpos : Tracks (S := S) Pos) {node : SumTree T S}
    {pre post skipped start : List T} {p position : D} {rest : List (StackEntry T S D)}
    (hp : Path Pos root rest node pre post) (htodo : skipped ++ start = node.toList ++ post)
    (hskip : Skipped filterNode skipped) :
    BackwardStep Pos filterNode root start (behind (⟨node, 0, p⟩ :: rest))
      ⟨⟨node, 0, p⟩ :: rest, position, false⟩ := by
  left
  refine ⟨_, searchBackwardPass_leave, ⟨pre, skipped, Or.inl ⟨rfl, ?_⟩, ?_, hskip⟩, ?_⟩
  · rw [htodo]
    exact hp.left
  · rintro rfl
    exact hpos.zero
  · have := passed_pos node 0
    simp only [Backward.measure_false, behind, List.map_cons, List.sum_cons]
    omega

omit [LawfulSummary S] in
/-- A pass over an internal node that was not just entered. -/
theorem searchBackwardPass_internal (hpos : Tracks (S := S) Pos) (hr : Valid root)
    (hheight : root.height ≤ 15) {skipped start : List T} {rest : List (StackEntry T S D)}
    {position p : D} {h : ℕ} {s : S} {ss : List S} {l r : List (SumTree T S)} {pre post : List T}
    (hp : Path Pos root rest (.internal h s ss (l ++ r)) pre post)
    (htodo : skipped ++ start = listItems r ++ post) (hskip : Skipped filterNode skipped) :
    BackwardStep Pos filterNode root start
      (behind (⟨.internal h s ss (l ++ r), l.length, p⟩ :: rest))
      ⟨⟨.internal h s ss (l ++ r), l.length, p⟩ :: rest, position, false⟩ := by
  obtain ⟨hv, hlen⟩ := hp.valid hr
  obtain ⟨_, _, rfl, hts, hheight'⟩ := hv.children
  rw [height_internal] at hlen
  rcases List.eq_nil_or_concat l with rfl | ⟨l, c, rfl⟩
  · -- The first child was dealt with: the node is left.
    exact backwardStep_leave hpos hp htodo hskip
  · left
    rw [List.concat_eq_append] at *
    have hc : WF (h - 1) c := hts c (by simp)
    have heq : l ++ [c] ++ r = l ++ c :: r := by simp
    have hpath : Path Pos root rest (.internal h s ((l ++ c :: r).map SumTree.summary)
        (l ++ c :: r)) pre post := by simpa using hp
    have htake : (l ++ c :: r).take (l.length + 1) = l ++ [c] := by
      rw [← heq]
      exact List.take_left' (by simp)
    have htake' : (l ++ c :: r).take l.length = l := List.take_left' rfl
    have hl : ∀ t ∈ l, WF (h - 1) t := fun t ht => hts t (by simp [ht])
    -- the position in front of `c` is summed anew from the parent's
    have hq := hpos.children hl (hp.parentPosition hpos)
    obtain ⟨q, hfold⟩ : ∃ q, (l.map SumTree.summary).foldl Dimension.addSummary
        (parentPosition rest) = q := ⟨_, rfl⟩
    rw [hfold] at hq
    rw [List.length_append, List.length_singleton, heq, searchBackwardPass_child hfold]
    by_cases hf : filterNode c.summary = true
    · -- The search goes on inside the child `c`, from its right end.
      have hlast : checkedSub c.childSummaries.length 1 = .ok (c.childSummaries.length - 1) :=
        checkedSub_ok (childSummaries_pos hc)
      rw [if_pos hf, hlast, ok_bind, pushEntry_ok (by rw [List.length_cons]; omega), ok_bind]
      refine ⟨_, rfl, ⟨pre ++ listItems l ++ c.toList, skipped, Or.inr ⟨rfl, _, _, _, _, rfl, ?_⟩,
        by simp, hskip⟩, ?_⟩
      · rw [Nat.sub_add_cancel (childSummaries_pos hc), htodo]
        exact (hpath.down hq).behind hr _
      · have hchild := passed_le c (c.childSummaries.length - 1 + 1)
        simp only [Backward.measure, if_true, behind, List.map_cons, List.sum_cons, passed_internal,
          htake, htake', weights_append, weights]
        omega
    · -- The child `c` is skipped as a whole.
      have hone : Skipped filterNode c.toList :=
        .run hc.toList_ne_nil (by rw [← hc.summary_eq]; simpa using hf)
      rw [if_neg hf]
      refine ⟨_, rfl, ⟨pre ++ listItems l, c.toList ++ skipped, Or.inl ⟨rfl, ?_⟩, by simp,
        .append hone hskip⟩, ?_⟩
      · have hb := Behind.internal (p := q) hpath
        rw [List.append_assoc, htodo]
        simpa using hb
      · simp only [Backward.measure_false, behind, List.map_cons, List.sum_cons, passed_internal,
          htake, htake', weights_append, weights]
        omega

/-- A pass over a leaf that was not just entered. -/
theorem searchBackwardPass_leaf (hpos : Tracks (S := S) Pos) (hr : Valid root)
    {skipped start : List T} {rest : List (StackEntry T S D)} {position p : D} {s : S}
    {ss : List S} {l r pre post : List T} (hp : Path Pos root rest (.leaf s (l ++ r) ss) pre post)
    (htodo : skipped ++ start = r ++ post) (hskip : Skipped filterNode skipped) :
    BackwardStep Pos filterNode root start (behind (⟨.leaf s (l ++ r) ss, l.length, p⟩ :: rest))
      ⟨⟨.leaf s (l ++ r) ss, l.length, p⟩ :: rest, position, false⟩ := by
  obtain ⟨-, rfl⟩ := (hp.valid hr).1.leafItems
  rcases List.eq_nil_or_concat l with rfl | ⟨l, x, rfl⟩
  · exact backwardStep_leave hpos hp htodo hskip
  · rw [List.concat_eq_append] at *
    have heq : l ++ [x] ++ r = l ++ x :: r := by simp
    have hpath : Path Pos root rest (.leaf s (l ++ x :: r) ((l ++ x :: r).map Item.summary)) pre
        post := by simpa using hp
    have hq : Pos (pre ++ l) _ := hpos.items (hp.parentPosition hpos)
    obtain ⟨q, hfold⟩ : ∃ q, (l.map (Item.summary (S := S))).foldl Dimension.addSummary
        (parentPosition rest) = q := ⟨_, rfl⟩
    rw [hfold] at hq
    rw [BackwardStep, List.length_append, List.length_singleton, heq, searchBackwardPass_item hfold]
    by_cases hf : filterNode (Item.summary x) = true
    · right
      have hon := OnItem.leaf (p := q) hpath
      rw [if_pos hf]
      refine ⟨_, rfl, skipped, Or.inr ⟨pre ++ l, x, ?_, hq, hf⟩, hskip⟩
      rw [htodo]
      exact hon
    · left
      have hone : Skipped filterNode [x] :=
        .run (by simp) (by rw [sumItems_singleton]; simpa using hf)
      rw [if_neg hf]
      refine ⟨_, rfl, ⟨pre ++ l, [x] ++ skipped, Or.inl ⟨rfl, ?_⟩, by simp, .append hone hskip⟩, ?_⟩
      · have hb := Behind.leaf (p := q) hpath
        rw [List.append_assoc, htodo]
        simpa using hb
      · simp only [Backward.measure_false, behind, List.map_cons, List.sum_cons, passed]
        simp

theorem searchBackwardPass_spec (hpos : Tracks (S := S) Pos) (hr : Valid root)
    (hheight : root.height ≤ 15) {start : List T} (s : Backward T S D)
    (hs : ∃ done skipped, SearchingBack Pos filterNode root done skipped start s) :
    BackwardStep Pos filterNode root start s.measure s := by
  obtain ⟨done, skipped, hstack, hp, hskip⟩ := hs
  obtain ⟨stack, position, descending⟩ := s
  have hbehind : ∀ {stack : List (StackEntry T S D)}, stack ≠ [] →
      Behind Pos root stack done (skipped ++ start) →
      BackwardStep Pos filterNode root start (behind stack) ⟨stack, position, false⟩ := by
    intro stack hne hb
    generalize htodo : skipped ++ start = todo at hb
    cases hb with
    | root => exact absurd rfl hne
    | internal hpath => exact searchBackwardPass_internal hpos hr hheight hpath htodo hskip
    | leaf hpath => exact searchBackwardPass_leaf hpos hr hpath htodo hskip
  rcases hstack with ⟨hdesc, hb⟩ | ⟨hdesc, tree, i, p, rest, hstack, hb⟩
  · simp only at hdesc hb hp
    subst hdesc
    rw [Backward.measure_false]
    by_cases hnil : stack = []
    · -- Nothing is left: the cursor is before the first item.
      subst hnil
      generalize htodo : skipped ++ start = todo at hb
      cases hb with
      | root => exact Or.inr ⟨_, rfl, skipped, Or.inl ⟨rfl, hp rfl, htodo.symm⟩, hskip⟩
    · exact hbehind hnil hb
  · simp only at hdesc hstack
    subst hdesc hstack
    -- A node that was just entered is like one whose last child is still to come.
    exact hbehind (by simp) hb

theorem searchBackwardLoop_spec (filterNode : S → Bool) (hpos : Tracks (S := S) Pos)
    (hr : Valid root) (hheight : root.height ≤ 15) {done start : List T}
    {stack : List (StackEntry T S D)} {position : D} (hb : Behind Pos root stack done start)
    (hp : stack = [] → Pos [] position) :
    ∃ r, loop .outOfFuel (searchBackwardPass filterNode) (stackFuel stack)
        ⟨stack, position, false⟩ = .ok r ∧
      ∃ skipped, FoundBack Pos filterNode root skipped start r := by
  have hfirst : SearchingBack Pos filterNode root done [] start ⟨stack, position, false⟩ :=
    ⟨Or.inl ⟨rfl, hb⟩, hp, .nil⟩
  have hfuel : behind stack < stackFuel stack := by
    rw [stackFuel, Nat.lt_succ_iff, behind]
    exact List.sum_le_sum fun entry _ => passed_le entry.tree _
  exact loop_spec
    (fun s => ∃ done skipped, SearchingBack Pos filterNode root done skipped start s)
    Backward.measure _ (searchBackwardPass_spec hpos hr hheight) ⟨done, [], hfirst⟩
    (by rw [Backward.measure_false]; exact hfuel)

/-- What a search to the left leaves, when `start` lies behind it: the previous item
that the filter accepts, or the place before the first one. -/
def SearchedBackward (Pos : List T → D → Prop) (filterNode : S → Bool) (root : SumTree T S)
    (start : List T) (c : Cursor T S D) : Prop :=
  c.tree = root ∧ ∃ p skipped, c.At Pos p ∧ Skipped filterNode skipped ∧
    p.LandsBack (fun x => filterNode (Item.summary x) = true) root.toList (skipped ++ start)

theorem searchBackward_of_behind (filterNode : S → Bool) (hpos : Tracks (S := S) Pos)
    {c self : Cursor T S D} (hr : Valid c.tree) (hheight : c.tree.height ≤ 15)
    {done start : List T} (hstart : c.startBackward = .ok self) (htree : self.tree = c.tree)
    (hd : self.didSeek = true) (hend : self.atEnd = c.tree.isEmpty)
    (hb : Behind Pos c.tree self.stack done start) (hp : self.stack = [] → Pos [] self.position) :
    ∃ c', c.searchBackward filterNode = .ok c' ∧
      SearchedBackward Pos filterNode c.tree start c' := by
  obtain ⟨⟨stack, position⟩, hloop, skipped, hstack, hskip⟩ :=
    searchBackwardLoop_spec filterNode hpos hr hheight hb hp
  have hrun : c.searchBackward filterNode
      = .ok ⟨c.tree, stack, position, true, c.tree.isEmpty⟩ := by
    rw [searchBackward, hstart, ok_bind, hloop, ok_bind, htree, hd, hend]
  refine ⟨_, hrun, rfl, ?_⟩
  rcases hstack with ⟨rfl, hp', hitems⟩ | ⟨done', x, hon, hp', hstop⟩
  · exact ⟨.beforeFirst, skipped, ⟨rfl, rfl, hp', rfl⟩, hskip, hitems⟩
  · refine ⟨.item done' x (skipped ++ start), skipped, ⟨rfl, hon, hp', ?_⟩, hskip, rfl, hon.items,
      hstop⟩
    rw [hr.isEmpty_eq, hon.items]
    simp

theorem searchBackward_of_nil (filterNode : S → Bool) (hpos : Tracks (S := S) Pos)
    {c : Cursor T S D} (hr : Valid c.tree) (hheight : c.tree.height ≤ 15) (hstack : c.stack = [])
    (hend : c.didSeek = true → c.atEnd = true) :
    ∃ c', c.searchBackward filterNode = .ok c' ∧ SearchedBackward Pos filterNode c.tree [] c' := by
  have hstart : c.startBackward = (if c.tree.isEmpty then .ok { c with
        didSeek := true, position := Dimension.zero S, atEnd := c.tree.isEmpty }
      else do
        let stack ← pushEntry c.stack ⟨c.tree, c.tree.childSummaries.length,
          Dimension.addSummary (Dimension.zero S) c.tree.summary⟩
        .ok { c with
          didSeek := true, position := Dimension.zero S, atEnd := c.tree.isEmpty, stack }) := by
    cases hd : c.didSeek with
    | false => simp [startBackward, hd]
    | true => simp [startBackward, hd, hend hd]
  by_cases hempty : c.tree.isEmpty = true
  · have hitems : c.tree.toList = [] := by
      rw [hr.isEmpty_eq] at hempty
      simpa using hempty
    have hb : Behind Pos c.tree [] [] c.tree.toList := .root
    rw [hitems, ← hstack] at hb
    rw [if_pos hempty] at hstart
    exact searchBackward_of_behind filterNode hpos hr hheight hstart rfl rfl rfl hb
      fun _ => hpos.zero
  · rw [if_neg hempty, pushEntry_ok (by simp [hstack]), ok_bind, hstack] at hstart
    exact searchBackward_of_behind filterNode hpos hr hheight hstart rfl rfl rfl
      (Path.root.behind hr _) (by simp)

/-- **Searching backward.**  The cursor moves to the previous item that the filter
accepts, or before the first one; the items between were skipped. -/
theorem searchBackward_spec (filterNode : S → Bool) (hpos : Tracks (S := S) Pos)
    {c : Cursor T S D} (hr : Valid c.tree) (hheight : c.tree.height ≤ 15) {p : Place T}
    (hat : c.At Pos p) :
    ∃ c', c.searchBackward filterNode = .ok c' ∧
      SearchedBackward Pos filterNode c.tree (p.onward c.tree.toList) c' := by
  match p, hat with
  | .fresh, hat =>
    exact searchBackward_of_nil filterNode hpos hr hheight hat.2.1 (by simp [hat.1])
  | .afterLast, hat =>
    exact searchBackward_of_nil filterNode hpos hr hheight hat.2.1 fun _ => hat.2.2.2
  | .beforeFirst, hat =>
    obtain ⟨hd, hstack, hp, hend⟩ := hat
    have hb : Behind Pos c.tree [] [] c.tree.toList := .root
    by_cases hempty : c.tree.isEmpty = true
    · -- In an empty tree the two ends are one.
      have hitems : c.tree.toList = [] := by
        rw [hr.isEmpty_eq] at hempty
        simpa using hempty
      rw [Place.onward, hitems]
      exact searchBackward_of_nil filterNode hpos hr hheight hstack fun _ => hend.trans hempty
    · have hstart : c.startBackward = .ok c := by simp [startBackward, hd, hend, hempty]
      rw [← hstack] at hb
      exact searchBackward_of_behind filterNode hpos hr hheight hstart rfl hd hend hb fun _ => hp
  | .item done x todo, hat =>
    obtain ⟨hd, hon, hp, hend⟩ := hat
    have hempty : c.tree.isEmpty = false := by
      rw [hr.isEmpty_eq, hon.items]
      simp
    have hstart : c.startBackward = .ok c := by simp [startBackward, hd, hend]
    refine searchBackward_of_behind filterNode hpos hr hheight hstart rfl hd
      (hend.trans hempty.symm) hon.behind fun hnil => ?_
    have := hon.stack_ne_nil
    rw [hnil] at this
    exact absurd this (by simp)

end Cursor

end Zui
