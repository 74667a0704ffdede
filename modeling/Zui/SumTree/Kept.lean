/-
What a cursor keeps, on trees of any number of levels.

The place of a cursor is known on trees of at most 16 levels (`Move.runAll_spec`).  On
deeper trees a call may panic, but it need not: a search whose filter accepts nothing never
goes below the root.  `Kept` is what holds of a cursor in any case, after any run of calls
that did not panic, whatever the targets and filters were: its stack holds nodes of
the tree, and when it ran off the start of the tree its position is zero.

* `searchBackwardPass_kept`, `searchForwardPass_kept`, `seekPass_kept` — the passes;
* `Move.run_kept`, `Move.runAll_kept` — the calls, and the runs of calls;
* `searchBackward_off` — a backward search that finds nothing ends before the first item.
-/
import Zui.SumTree.Machine

namespace Zui

namespace SumTree

variable {T S : Type} [Zero S] [Add S] [Item T S]

theorem Valid.child {h : ℕ} {s : S} {ss : List S} {cs : List (SumTree T S)} {u : SumTree T S}
    (ht : Valid (.internal h s ss cs)) (hu : u ∈ cs) : Valid u := by
  rcases ht with hnew | ⟨k, hw⟩
  · exact absurd hnew (by simp [new])
  · cases hw with
    | internal _ _ hcs => exact (hcs u hu).valid

theorem Valid.length_itemSummaries {s : S} {xs : List T} {ss : List S}
    (ht : Valid (.leaf s xs ss)) : ss.length = xs.length := by
  rcases ht with hnew | ⟨k, hw⟩
  · cases hnew
    rfl
  · cases hw with
    | leaf => exact List.length_map _

end SumTree

namespace Cursor

open SumTree

variable {T S D : Type}

/-- The nodes on a stack are valid. -/
def Nodes [Zero S] [Add S] [Item T S] (stack : List (StackEntry T S D)) : Prop :=
  ∀ entry ∈ stack, Valid entry.tree

/-- A stack whose top is at an item of a leaf. -/
def AtItem (stack : List (StackEntry T S D)) : Prop :=
  ∃ s xs ss i p rest, stack = ⟨.leaf s xs ss, i, p⟩ :: rest ∧ i < xs.length

/-- The cursor was moved, and is before the first item of a tree. -/
structure BeforeFirst [Dimension D S] (t : SumTree T S) (c : Cursor T S D) : Prop where
  tree : c.tree = t
  didSeek : c.didSeek = true
  stack : c.stack = []
  position : c.position = Dimension.zero S
  atEnd : c.atEnd = false

/-- What holds of a cursor after any run of calls. -/
structure Kept [Zero S] [Add S] [Item T S] [Dimension D S] (t : SumTree T S) (c : Cursor T S D) :
    Prop where
  tree : c.tree = t
  nodes : Nodes c.stack
  start : c.didSeek = true → c.stack = [] → c.atEnd = false → c.position = Dimension.zero S

/-- A cursor whose stack is at an item has an item, once it was moved. -/
theorem AtItem.item [Dimension D S] {c : Cursor T S D} (h : AtItem c.stack) :
    c.item ≠ .ok none := by
  obtain ⟨s, xs, ss, i, p, rest, hstack, hi⟩ := h
  have hget : xs[i]? = some xs[i] := List.getElem?_eq_getElem hi
  intro hitem
  rw [Cursor.item, hstack] at hitem
  cases hd : c.didSeek with
  | false => simp [assertDidSeek, hd] at hitem
  | true => simp [assertDidSeek, hd, index, Nat.ne_of_lt hi, hget] at hitem

section Passes

variable [Zero S] [Add S] [Item T S] [Dimension D S] {A : Type} [SeekAggregate A T S]
  {t : SumTree T S} {c c' : Cursor T S D} {target : SeekTarget D} {bias : Bias}
  {filterNode : S → Bool}

omit [Dimension D S] in
theorem Nodes.push {stack stack' : List (StackEntry T S D)} {entry : StackEntry T S D}
    (h : Nodes stack) (hentry : Valid entry.tree) (hpush : pushEntry stack entry = .ok stack') :
    Nodes stack' ∧ stack' ≠ [] := by
  rw [pushEntry] at hpush
  split at hpush
  · cases hpush
    exact ⟨by simpa [Nodes] using ⟨hentry, h⟩, by simp⟩
  · exact absurd hpush (by simp)

omit [Dimension D S] in
theorem Nodes.top {entry entry' : StackEntry T S D} {rest : List (StackEntry T S D)}
    (h : Nodes (entry :: rest)) (htree : entry'.tree = entry.tree) : Nodes (entry' :: rest) := by
  intro e he
  rcases List.mem_cons.mp he with rfl | he
  · exact htree ▸ h entry (by simp)
  · exact h e (by simp [he])

omit [Dimension D S] in
theorem Nodes.tail {entry : StackEntry T S D} {rest : List (StackEntry T S D)}
    (h : Nodes (entry :: rest)) : Nodes rest := fun e he => h e (by simp [he])

/-! ### Backward -/

/-- A search backward that runs, or has run, off the start is at the position zero. -/
def BackwardKept (stack : List (StackEntry T S D)) (position : D) : Prop :=
  Nodes stack ∧ (stack = [] → position = Dimension.zero S)

theorem parentPosition_kept {rest : List (StackEntry T S D)} (h : Nodes rest) :
    BackwardKept rest (parentPosition rest) := by
  refine ⟨h, ?_⟩
  rintro rfl
  rfl

/-- One pass of a search backward goes on like that, or ends off the start or at an item. -/
theorem searchBackwardPass_kept {s : Backward T S D}
    {r : Pass (Backward T S D) (List (StackEntry T S D) × D)}
    (hs : BackwardKept s.stack s.position) (hrun : searchBackwardPass filterNode s = .ok r) :
    (∃ s', r = .next s' ∧ BackwardKept s'.stack s'.position) ∨
    ∃ b, r = .done b ∧ BackwardKept b.1 b.2 ∧ (b.1 = [] ∨ AtItem b.1) := by
  obtain ⟨stack, position, descending⟩ := s
  obtain ⟨hnodes, hzero⟩ := hs
  match stack with
  | [] =>
    cases hrun
    exact Or.inr ⟨_, rfl, ⟨hnodes, hzero⟩, Or.inl rfl⟩
  | entry :: rest =>
    rw [searchBackwardPass] at hrun
    by_cases hleave : descending = false ∧ entry.index = 0
    · -- The entry is left, for the parent or for the start of the tree.
      simp only [if_pos hleave] at hrun
      cases hrun
      exact Or.inl ⟨_, rfl, parentPosition_kept hnodes.tail⟩
    · simp only [if_neg hleave, bind_eq_ok] at hrun
      obtain ⟨before, -, summary, hsummary, hrun⟩ := hrun
      obtain ⟨tree, i, p⟩ := entry
      have hvalid : Valid tree := hnodes ⟨tree, i, p⟩ (by simp)
      cases tree with
      | internal h s ss cs =>
        simp only at hrun
        split at hrun
        · simp only [bind_eq_ok] at hrun
          obtain ⟨u, hu, last, -, stack', hpush, hrun⟩ := hrun
          have hmem : u ∈ cs := by
            rw [index] at hu
            split at hu
            · next hget =>
              cases hu
              exact List.mem_of_getElem? hget
            · exact absurd hu (by simp)
          cases hrun
          obtain ⟨hnodes', hne⟩ := Nodes.push (hnodes.top (by rfl)) (hvalid.child hmem) hpush
          exact Or.inl ⟨_, rfl, hnodes', fun hnil => absurd hnil hne⟩
        · cases hrun
          exact Or.inl ⟨_, rfl, hnodes.top rfl, fun hnil => absurd hnil (by simp)⟩
      | leaf s xs ss =>
        simp only at hrun
        split at hrun
        · cases hrun
          refine Or.inr ⟨_, rfl, ⟨hnodes.top rfl, fun hnil => absurd hnil (by simp)⟩,
            Or.inr ⟨s, xs, ss, _, _, rest, rfl, ?_⟩⟩
          rw [← hvalid.length_itemSummaries]
          simp only [childSummaries, index] at hsummary
          split at hsummary
          · next hget => exact (List.getElem?_eq_some_iff.mp hget).1
          · exact absurd hsummary (by simp)
        · cases hrun
          exact Or.inl ⟨_, rfl, hnodes.top rfl, fun hnil => absurd hnil (by simp)⟩

/-- A search backward that does not panic ends before the first item or at an item. -/
theorem searchBackward_kept (ht : Valid t) (hc : Kept t c)
    (hrun : c.searchBackward filterNode = .ok c') :
    Kept t c' ∧ (c'.stack = [] ∨ AtItem c'.stack) ∧ c'.didSeek = true ∧
      c'.atEnd = (if c.didSeek = true ∧ c.atEnd = false then false else t.isEmpty) := by
  simp only [searchBackward, bind_eq_ok] at hrun
  obtain ⟨c₁, hstart, ⟨stack, position⟩, hloop, hc'⟩ := hrun
  have hbegin : c₁.tree = t ∧ BackwardKept c₁.stack c₁.position ∧ c₁.didSeek = true ∧
      c₁.atEnd = (if c.didSeek = true ∧ c.atEnd = false then false else t.isEmpty) := by
    obtain ⟨rfl, hnodes, hzero⟩ := hc
    obtain ⟨tree, cstack, cposition, didSeek, atEnd⟩ := c
    have hend : ∀ (didSeek atEnd : Bool), (didSeek = false ∨ atEnd = true) →
        startBackward ⟨tree, cstack, cposition, didSeek, atEnd⟩ = .ok c₁ →
        c₁.tree = tree ∧ BackwardKept c₁.stack c₁.position ∧ c₁.didSeek = true ∧
          c₁.atEnd = tree.isEmpty := by
      intro didSeek atEnd hor hstart
      have hself : (if didSeek = true then (⟨tree, cstack, cposition, didSeek, atEnd⟩ :
          Cursor T S D) else ⟨tree, cstack, cposition, true, true⟩).atEnd = true := by
        rcases hor with rfl | rfl
        · rfl
        · split <;> rfl
      have hdid : (if didSeek = true then (⟨tree, cstack, cposition, didSeek, atEnd⟩ :
          Cursor T S D) else ⟨tree, cstack, cposition, true, true⟩)
            = ⟨tree, cstack, cposition, true, true⟩ := by
        rcases hor with rfl | rfl
        · rfl
        · cases didSeek <;> rfl
      simp only [startBackward, hdid, if_true] at hstart
      split at hstart
      · cases hstart
        exact ⟨rfl, ⟨hnodes, fun _ => rfl⟩, rfl, rfl⟩
      · obtain ⟨stack', hpush, hc₁⟩ := bind_eq_ok.mp hstart
        cases hc₁
        obtain ⟨hnodes', hne⟩ := hnodes.push ht hpush
        exact ⟨rfl, ⟨hnodes', fun _ => rfl⟩, rfl, rfl⟩
    cases didSeek with
    | false =>
      rw [if_neg (by simp)]
      exact hend false atEnd (Or.inl rfl) hstart
    | true =>
      cases atEnd with
      | true =>
        rw [if_neg (by simp)]
        exact hend true true (Or.inr rfl) hstart
      | false =>
        -- The search goes on from where the cursor is.
        cases hstart
        exact ⟨rfl, ⟨hnodes, fun hnil => hzero rfl hnil rfl⟩, rfl, rfl⟩
  obtain ⟨htree, hkept, hdid, hatEnd⟩ := hbegin
  obtain ⟨hresult, hend⟩ : BackwardKept stack position ∧ (stack = [] ∨ AtItem stack) := by
    refine loop_partial (fun s : Backward T S D => BackwardKept s.stack s.position)
      (fun b => BackwardKept b.1 b.2 ∧ (b.1 = [] ∨ AtItem b.1))
      (fun s s' hs hpass => ?_) (fun s b hs hpass => ?_) hkept hloop
    · rcases searchBackwardPass_kept hs hpass with ⟨s'', hnext, hs'⟩ | ⟨b, hdone, -⟩
      · cases hnext
        exact hs'
      · exact absurd hdone (by simp)
    · rcases searchBackwardPass_kept hs hpass with ⟨s'', hnext, -⟩ | ⟨b', hdone, hb⟩
      · exact absurd hnext (by simp)
      · cases hdone
        exact hb
  cases hc'
  exact ⟨⟨htree, hresult.1, fun _ hnil _ => hresult.2 hnil⟩, hend, hdid, hatEnd⟩

/-- **Off the start.**  A backward search on a non-empty tree after which there is no item
left the cursor before the first item. -/
theorem searchBackward_off (ht : Valid t) (hne : t.isEmpty = false) (hc : Kept t c)
    (hrun : c.searchBackward filterNode = .ok c') (hitem : c'.item = .ok none) :
    BeforeFirst t c' := by
  obtain ⟨hkept, hend, hdid, hatEnd⟩ := searchBackward_kept ht hc hrun
  rw [hne, ite_self] at hatEnd
  have hstack : c'.stack = [] := by
    rcases hend with hnil | hat
    · exact hnil
    · exact absurd hitem hat.item
  exact ⟨hkept.tree, hdid, hstack, hkept.start hdid hstack hatEnd, hatEnd⟩

/-! ### Forward -/

omit [Zero S] [Add S] [Item T S] in
theorem skipChildren_tree : ∀ {ss : List S} {entry : StackEntry T S D} {position : D},
    (skipChildren filterNode ss entry position).1.tree = entry.tree := by
  intro ss
  induction ss with
  | nil =>
    intro entry position
    rfl
  | cons s ss ih =>
    intro entry position
    rw [skipChildren]
    split
    · rfl
    · exact ih

/-- One pass of a search forward keeps the nodes; it finds nothing off the end. -/
theorem searchForwardPass_kept {s : Forward T S D} {r : Pass (Forward T S D) (Landed T S D)}
    (hs : Nodes s.stack) (hrun : searchForwardPass filterNode s = .ok r) :
    (∃ s', r = .next s' ∧ Nodes s'.stack) ∨
    ∃ b, r = .done b ∧ Nodes b.stack ∧ (b.found = true → b.stack ≠ []) := by
  obtain ⟨stack, position, descend⟩ := s
  match stack with
  | [] =>
    cases hrun
    exact Or.inr ⟨_, rfl, hs, fun hfound => absurd hfound (by simp)⟩
  | ⟨.internal h s ss cs, i, p⟩ :: rest =>
    simp only [searchForwardPass] at hrun
    have hvalid : Valid (.internal h s ss cs) := hs ⟨.internal h s ss cs, i, p⟩ (by simp)
    have htree : ∀ entry : StackEntry T S D, entry.tree = .internal h s ss cs →
        ∀ position : D, (skipChildren filterNode (ss.drop entry.index) entry position).1.tree
          = .internal h s ss cs := fun entry hentry position => by
      rw [skipChildren_tree, hentry]
    generalize hentry : (if descend = true then (⟨.internal h s ss cs, i, p⟩ : StackEntry T S D)
      else ⟨.internal h s ss cs, i + 1, position⟩) = entry at hrun
    have htree := htree entry (by rw [← hentry]; split <;> rfl) position
    generalize skipChildren filterNode (ss.drop entry.index) entry position = skipped at hrun htree
    split at hrun
    · next u hget =>
      obtain ⟨stack', hpush, hr⟩ := bind_eq_ok.mp hrun
      cases hr
      have hmem : u ∈ cs := List.mem_of_getElem? hget
      exact Or.inl ⟨_, rfl, (Nodes.push (hs.top htree) (hvalid.child hmem) hpush).1⟩
    · cases hrun
      exact Or.inl ⟨_, rfl, hs.tail⟩
  | ⟨.leaf s xs ss, i, p⟩ :: rest =>
    have hland : ∀ (entry : StackEntry T S D) (position : D), entry.tree = .leaf s xs ss →
        (if (skipChildren filterNode (ss.drop entry.index) entry position).2.2 = true then
            (.ok (.done ⟨(skipChildren filterNode (ss.drop entry.index) entry position).1 :: rest,
              (skipChildren filterNode (ss.drop entry.index) entry position).2.1, true⟩) :
              Result (Pass (Forward T S D) (Landed T S D)))
          else .ok (.next ⟨rest,
            (skipChildren filterNode (ss.drop entry.index) entry position).2.1, false⟩)) = .ok r →
        (∃ s', r = .next s' ∧ Nodes s'.stack) ∨
          ∃ b, r = .done b ∧ Nodes b.stack ∧ (b.found = true → b.stack ≠ []) := by
      intro entry position htree hrun
      split at hrun
      · cases hrun
        refine Or.inr ⟨_, rfl, hs.top ?_, fun _ => by simp⟩
        rw [skipChildren_tree, htree]
      · cases hrun
        exact Or.inl ⟨_, rfl, hs.tail⟩
    cases descend with
    | true => exact hland _ _ rfl hrun
    | false =>
      simp only [searchForwardPass, Bool.false_eq_true, if_false, bind_eq_ok] at hrun
      obtain ⟨summary, -, entry, hentry, hrun⟩ := hrun
      cases hentry
      exact hland _ _ rfl hrun

/-- A search forward that does not panic keeps the invariant. -/
theorem searchForward_kept (ht : Valid t) (hc : Kept t c)
    (hrun : c.searchForward filterNode = .ok c') : Kept t c' := by
  simp only [searchForward, bind_eq_ok] at hrun
  obtain ⟨⟨c₁, descend⟩, hstart, landed, hloop, hc'⟩ := hrun
  obtain ⟨rfl, hnodes, -⟩ := hc
  have hbegin : c₁.tree = c.tree ∧ Nodes c₁.stack := by
    rw [startForward] at hstart
    split at hstart
    · split at hstart
      · cases hstart
        exact ⟨rfl, hnodes⟩
      · obtain ⟨stack', hpush, hc₁⟩ := bind_eq_ok.mp hstart
        cases hc₁
        exact ⟨rfl, (hnodes.push ht hpush).1⟩
    · cases hstart
      exact ⟨rfl, hnodes⟩
  obtain ⟨htree, hnodes⟩ := hbegin
  obtain ⟨hlanded, hfound⟩ : Nodes landed.stack ∧ (landed.found = true → landed.stack ≠ []) := by
    refine loop_partial (fun s : Forward T S D => Nodes s.stack)
      (fun b => Nodes b.stack ∧ (b.found = true → b.stack ≠ []))
      (fun s s' hs hpass => ?_) (fun s b hs hpass => ?_) hnodes hloop
    · rcases searchForwardPass_kept hs hpass with ⟨s'', hnext, hs'⟩ | ⟨b, hdone, -⟩
      · cases hnext
        exact hs'
      · exact absurd hdone (by simp)
    · rcases searchForwardPass_kept hs hpass with ⟨s'', hnext, -⟩ | ⟨b', hdone, hb⟩
      · exact absurd hnext (by simp)
      · cases hdone
        exact hb
  cases hc'
  refine ⟨htree, hlanded, fun _ hnil hatEnd => ?_⟩
  -- An empty stack was not found, so the cursor would be at the end.
  simp only at hnil hatEnd
  rw [if_neg fun hf => hfound hf hnil, hnil] at hatEnd
  exact absurd hatEnd (by simp)

/-! ### Seeks -/

omit [Zero S] [Add S] [Item T S] in
/-- A seek over child trees keeps the node, and goes into one of them. -/
theorem seekTrees_kept : ∀ {ts : List (SumTree T S × S)} {entry : StackEntry T S D}
    {position : D} {a : A} {r : StackEntry T S D × D × A × Option (SumTree T S)},
    seekTrees target bias ts entry position a = .ok r →
      r.1.tree = entry.tree ∧ ∀ u, r.2.2.2 = some u → u ∈ ts.map Prod.fst := by
  intro ts
  induction ts with
  | nil =>
    intro entry position a r hrun
    cases hrun
    exact ⟨rfl, by simp⟩
  | cons u us ih =>
    intro entry position a r hrun
    rw [seekTrees] at hrun
    split at hrun
    · obtain ⟨a', -, hrun⟩ := bind_eq_ok.mp hrun
      obtain ⟨htree, hchild⟩ := ih hrun
      exact ⟨htree, fun v hv => by simp [hchild v hv]⟩
    · cases hrun
      exact ⟨rfl, by simp⟩

omit [Zero S] [Add S] [Item T S] in
theorem seekItems_kept : ∀ {xs : List (T × S)} {entry : StackEntry T S D} {position : D} {a : A}
    {r : StackEntry T S D × D × A × Bool}, seekItems target bias xs entry position a = .ok r →
      r.1.tree = entry.tree := by
  intro xs
  induction xs with
  | nil =>
    intro entry position a r hrun
    cases hrun
    rfl
  | cons x xs ih =>
    intro entry position a r hrun
    rw [seekItems] at hrun
    split at hrun
    · obtain ⟨a', -, hrun⟩ := bind_eq_ok.mp hrun
      rw [ih hrun]
    · cases hrun
      rfl

omit [Zero S] [Add S] [Item T S] [Dimension D S] [SeekAggregate A T S] in
theorem mem_sliceFrom {α : Type} {xs ys : List α} {i : ℕ} {x : α} (h : sliceFrom xs i = .ok ys)
    (hx : x ∈ ys) : x ∈ xs := by
  rw [sliceFrom] at h
  split at h
  · cases h
    exact List.mem_of_mem_drop hx
  · exact absurd h (by simp)

/-- One pass of a seek keeps the nodes. -/
theorem seekPass_kept {s : Seeking T S D A}
    {r : Pass (Seeking T S D A) (List (StackEntry T S D) × D × A)}
    (hs : Nodes s.stack) (hrun : seekPass target bias s = .ok r) :
    (∃ s', r = .next s' ∧ Nodes s'.stack) ∨ ∃ b, r = .done b ∧ Nodes b.1 := by
  obtain ⟨stack, position, a, ascending⟩ := s
  match stack with
  | [] =>
    cases hrun
    exact Or.inr ⟨_, rfl, hs⟩
  | ⟨.internal h s ss cs, i, p⟩ :: rest =>
    have hvalid : Valid (.internal h s ss cs) := hs ⟨.internal h s ss cs, i, p⟩ (by simp)
    simp only [seekPass, bind_eq_ok] at hrun
    obtain ⟨trees, htrees, summaries, -, ⟨entry, position', a', child⟩, hseek, hrun⟩ := hrun
    obtain ⟨htree, hchild⟩ := seekTrees_kept hseek
    cases child with
    | none =>
      cases hrun
      exact Or.inl ⟨_, rfl, hs.tail⟩
    | some u =>
      obtain ⟨stack', hpush, hr⟩ := bind_eq_ok.mp hrun
      cases hr
      have hmem : u ∈ cs := by
        obtain ⟨v, hv, rfl⟩ := List.mem_map.mp (hchild u rfl)
        exact mem_sliceFrom htrees (List.of_mem_zip hv).1
      refine Or.inl ⟨_, rfl, (Nodes.push (hs.top ?_) (hvalid.child hmem) hpush).1⟩
      rw [htree]
      cases ascending <;> rfl
  | ⟨.leaf s xs ss, i, p⟩ :: rest =>
    simp only [seekPass, bind_eq_ok] at hrun
    obtain ⟨items, -, summaries, -, ⟨entry, position', a', stopped⟩, hseek, a'', -, hrun⟩ := hrun
    cases stopped with
    | true =>
      cases hrun
      exact Or.inr ⟨_, rfl, hs.top (seekItems_kept hseek)⟩
    | false =>
      cases hrun
      exact Or.inl ⟨_, rfl, hs.tail⟩

theorem seekInternal_kept (ht : Valid t) (hc : Kept t c) {a : A} {r : Cursor T S D × A × Bool}
    (hrun : c.seekInternal target bias a = .ok r) : Kept t r.1 := by
  rw [seekInternal] at hrun
  split at hrun
  · simp only [bind_eq_ok] at hrun
    obtain ⟨stack, hstart, ⟨stack', position, a'⟩, hloop, endPosition, -, hr⟩ := hrun
    have hnodes : Nodes stack := by
      rw [startSeek] at hstart
      split at hstart
      · cases hstart
        exact hc.nodes
      · exact (hc.nodes.push (hc.tree ▸ ht) hstart).1
    have hnodes' : Nodes stack' := by
      refine loop_partial (fun s : Seeking T S D A => Nodes s.stack) (fun b => Nodes b.1)
        (fun s s' hs hpass => ?_) (fun s b hs hpass => ?_) hnodes hloop
      · rcases seekPass_kept hs hpass with ⟨s'', hnext, hs'⟩ | ⟨b, hdone, -⟩
        · cases hnext
          exact hs'
        · exact absurd hdone (by simp)
      · rcases seekPass_kept hs hpass with ⟨s'', hnext, -⟩ | ⟨b', hdone, hb⟩
        · exact absurd hnext (by simp)
        · cases hdone
          exact hb
    cases hr
    refine ⟨hc.tree, hnodes', fun _ hnil hatEnd => ?_⟩
    simp only at hnil hatEnd
    rw [hnil] at hatEnd
    exact absurd hatEnd (by simp)
  · exact absurd hrun (by simp)

end Passes

end Cursor

/-! ### Runs of calls -/

namespace Move

open SumTree Cursor

variable {T S D : Type} [Zero S] [Add S] [Item T S] [Dimension D S] {t : SumTree T S}
  {c c' : Cursor T S D}

theorem kept_new (t : SumTree T S) : Kept t (Cursor.new t : Cursor T S D) :=
  ⟨rfl, fun e he => absurd he List.not_mem_nil, fun hd => absurd hd (by simp [Cursor.new])⟩

theorem kept_reset (hc : Kept t c) : Kept t c.reset :=
  ⟨hc.tree, fun e he => absurd he List.not_mem_nil, fun hd => absurd hd (by simp [Cursor.reset])⟩

/-- Whatever the call, a cursor that comes out of it keeps the invariant. -/
theorem run_kept (ht : Valid t) (hc : Kept t c) :
    ∀ {move : Move S D}, move.run c = .ok c' → Kept t c' := by
  have hforward : ∀ {c : Cursor T S D} {target : SeekTarget D} {bias : Bias}
      {r : Cursor T S D × Bool}, Kept t c → c.seekForward target bias = .ok r → Kept t r.1 := by
    intro c target bias r hc hrun
    obtain ⟨⟨c₁, u, found⟩, hseek, hr⟩ := bind_eq_ok.mp hrun
    cases hr
    exact seekInternal_kept ht hc hseek
  intro move hrun
  cases move with
  | reset =>
    cases hrun
    exact kept_reset hc
  | seek target bias =>
    obtain ⟨r, hseek, hr⟩ := bind_eq_ok.mp hrun
    cases hr
    exact hforward (kept_reset hc) hseek
  | seekForward target bias =>
    obtain ⟨r, hseek, hr⟩ := bind_eq_ok.mp hrun
    cases hr
    exact hforward hc hseek
  | next => exact searchForward_kept ht hc hrun
  | prev => exact (searchBackward_kept ht hc hrun).1
  | searchForward filterNode => exact searchForward_kept ht hc hrun
  | searchBackward filterNode => exact (searchBackward_kept ht hc hrun).1

/-- So does a cursor that comes out of a run of calls. -/
theorem runAll_kept (ht : Valid t) : ∀ {moves : List (Move S D)} {c c' : Cursor T S D},
    Kept t c → runAll moves c = .ok c' → Kept t c' := by
  intro moves
  induction moves with
  | nil =>
    intro c c' hc hrun
    cases hrun
    exact hc
  | cons move moves ih =>
    intro c c' hc hrun
    rw [runAll, List.foldlM_cons] at hrun
    obtain ⟨c₁, hmove, hrun⟩ := bind_eq_ok.mp hrun
    exact ih (run_kept ht hc hmove) hrun

end Move

end Zui
