/-
What a forward seek passes.

`seekInternal` walks forward from where the cursor stands and hands every child
tree or item that it passes to an aggregate.  `Collects` lists what an aggregate
must do for its content to follow the passed items; `seekPass_spec` is the step
lemma of the loop, and `seekInternal_spec` the run lemma: the seek ends at the
first place whose item is not passed, with the aggregate over everything before
it.

No assumption is made on the target here; that the seek stops at the *first* item
that is not passed needs a monotone target and comes with the cursor machine.
-/
import Zui.SumTree.Place

namespace Zui

namespace Cursor

open SumTree

section Aggregates

variable {T S A : Type} [Zero S] [Add S] [Item T S] [SeekAggregate A T S]

/-- An aggregate follows what a seek passes: `Out seg` holds of it between leaves
when `seg` was passed, and `In seg inner` inside a leaf of which `inner` was passed
so far.  The nodes that are passed satisfy `Node`, as the root does. -/
structure CollectsOf (Node : SumTree T S → Prop) (Out : List T → A → Prop)
    (In : List T → List T → A → Prop) : Prop where
  child : ∀ {h s ss ts} {t : SumTree T S}, Node (.internal h s ss ts) → t ∈ ts → Node t
  beginLeaf : ∀ {seg a}, Out seg a → In seg [] (SeekAggregate.beginLeaf T S a)
  pushItem : ∀ {seg inner a} (x : T), In seg inner a → inner.length < 2 * TREE_BASE →
    ∃ a', SeekAggregate.pushItem a x (Item.summary x : S) = .ok a' ∧ In seg (inner ++ [x]) a'
  endLeaf : ∀ {seg inner a}, In seg inner a → inner.length ≤ 2 * TREE_BASE →
    (seg ++ inner).length ≤ maxItems →
    ∃ a', SeekAggregate.endLeaf T S a = .ok a' ∧ Out (seg ++ inner) a'
  pushTree : ∀ {seg a h} {t : SumTree T S}, Out seg a → Node t → WF h t → h ≤ 15 →
    (seg ++ t.toList).length ≤ maxItems →
    ∃ a', SeekAggregate.pushTree a t t.summary = .ok a' ∧ Out (seg ++ t.toList) a'

/-- An aggregate follows what a seek passes in any tree. -/
abbrev Collects (Out : List T → A → Prop) (In : List T → List T → A → Prop) : Prop :=
  CollectsOf (fun _ : SumTree T S => True) Out In

theorem collects_unit : Collects (T := T) (S := S)
    (fun _ (_ : Unit) => True) fun _ _ _ => True where
  child _ _ := trivial
  beginLeaf _ := trivial
  pushItem _ _ _ := ⟨(), rfl, trivial⟩
  endLeaf _ _ _ := ⟨(), rfl, trivial⟩
  pushTree _ _ _ _ _ := ⟨(), rfl, trivial⟩

end Aggregates

section Slice

variable {T S : Type} [Zero S] [Add S] [Item T S] [LawfulSummary S]

/-- Between leaves, a slice holds a tree over the items that were passed. -/
structure SliceOut (seg : List T) (a : SliceSeekAggregate T S) : Prop where
  valid : Valid a.tree
  items : a.tree.toList = seg
  tall : Tall 15 a.tree
  room : seg.length ≤ maxItems
  leafItems : a.leafItems = []
  leafItemSummaries : a.leafItemSummaries = []
  leafSummary : a.leafSummary = 0

/-- Inside a leaf, a slice also holds the items of that leaf that were passed. -/
structure SliceIn (seg inner : List T) (a : SliceSeekAggregate T S) : Prop where
  valid : Valid a.tree
  items : a.tree.toList = seg
  tall : Tall 15 a.tree
  room : seg.length ≤ maxItems
  leafItems : a.leafItems = inner
  leafItemSummaries : a.leafItemSummaries = inner.map Item.summary
  leafSummary : a.leafSummary = sumItems inner

omit [LawfulSummary S] in
theorem valid_leaf {xs : List T} (h : xs.length ≤ 2 * TREE_BASE) :
    Valid (.leaf (sumItems xs) xs (xs.map Item.summary) : SumTree T S) := by
  by_cases hnil : xs = []
  · subst hnil
    exact Or.inl rfl
  · exact (WF.leaf hnil h).valid

theorem collects_slice : Collects (T := T) (S := S) SliceOut SliceIn where
  child _ _ := trivial
  beginLeaf h := ⟨h.valid, h.items, h.tall, h.room, h.leafItems, h.leafItemSummaries,
    h.leafSummary⟩
  pushItem {seg inner a} x h hlen := by
    have hs : a.leafItemSummaries.length < 2 * TREE_BASE := by
      rw [h.leafItemSummaries, List.length_map]
      exact hlen
    have hi : a.leafItems.length < 2 * TREE_BASE := by rwa [h.leafItems]
    refine ⟨⟨a.tree, a.leafItems ++ [x], a.leafItemSummaries ++ [Item.summary x],
      a.leafSummary + Item.summary x⟩, ?_, h.valid, h.items, h.tall, h.room, ?_, ?_, ?_⟩
    · simp only [SeekAggregate.pushItem, push_ok hi, push_ok hs, ok_bind]
    · simp [h.leafItems]
    · simp [h.leafItemSummaries]
    · simp [h.leafSummary, sumItems_concat]
  endLeaf {seg inner a} h hlen hroom := by
    have hheight := h.tall.height_le h.valid (by have := h.room; rw [h.items]; omega)
    obtain ⟨t, hrun, hv, hl, ht⟩ := append_tall h.valid (valid_leaf hlen) h.tall (by omega)
      (Nat.zero_le 15) (by omega)
    rw [h.items, toList_leaf] at hl
    refine ⟨⟨t, [], [], 0⟩, ?_, hv, hl, ht, hroom, rfl, rfl, rfl⟩
    simp only [SeekAggregate.endLeaf, h.leafSummary, h.leafItems, h.leafItemSummaries,
      hrun, ok_bind]
  pushTree {seg a h t} ho _ ht hh hroom := by
    have hheight := ho.tall.height_le ho.valid (by have := ho.room; rw [ho.items]; omega)
    obtain ⟨t', hrun, hv, hl, htall⟩ := append_tall ho.valid ht.valid ho.tall (by omega)
      (by rw [ht.height_eq]; exact hh) (by omega)
    rw [ho.items] at hl
    refine ⟨{ a with tree := t' }, ?_, hv, hl, htall, hroom, ho.leafItems, ho.leafItemSummaries,
      ho.leafSummary⟩
    simp only [SeekAggregate.pushTree, hrun, ok_bind]

/-- The tree of a slice has as many children at its nodes as the tree that is sliced. -/
theorem collects_tall (n : ℕ) : CollectsOf (T := T) (S := S) (fun t => Valid t ∧ Tall n t)
    (fun seg a => SliceOut seg a ∧ Tall n a.tree)
    (fun seg inner a => SliceIn seg inner a ∧ Tall n a.tree) where
  child {h s ss ts t} := by
    rintro ⟨hv, htall⟩ ht
    have hw := hv.children.wf t ht
    refine ⟨hw.valid, ?_⟩
    rcases htall with hle | ⟨_, _, _, _, heq, -, hts⟩
    · rw [height_internal] at hle
      exact Or.inl (by rw [hw.height_eq]; omega)
    · obtain ⟨rfl, rfl, rfl, rfl⟩ := internal.inj heq
      exact (hts t ht).tall
  beginLeaf h := ⟨collects_slice.beginLeaf h.1, h.2⟩
  pushItem x h hlen := by
    obtain ⟨a', hrun, ha'⟩ := collects_slice.pushItem x h.1 hlen
    refine ⟨a', hrun, ha', ?_⟩
    simp only [SeekAggregate.pushItem, bind_eq_ok, Except.ok.injEq] at hrun
    obtain ⟨_, -, _, -, rfl⟩ := hrun
    exact h.2
  endLeaf {seg inner a} h hlen hroom := by
    obtain ⟨a', hrun, ha'⟩ := collects_slice.endLeaf h.1 hlen hroom
    refine ⟨a', hrun, ha', ?_⟩
    simp only [SeekAggregate.endLeaf, h.1.leafSummary, h.1.leafItems, h.1.leafItemSummaries,
      bind_eq_ok, Except.ok.injEq] at hrun
    obtain ⟨tree, happend, rfl⟩ := hrun
    exact append_keeps_tall h.1.valid (valid_leaf hlen) h.2 (Or.inl (Nat.zero_le n)) happend
  pushTree {seg a h t} ho hnode ht hh hroom := by
    obtain ⟨a', hrun, ha'⟩ := collects_slice.pushTree ho.1 trivial ht hh hroom
    refine ⟨a', hrun, ha', ?_⟩
    simp only [SeekAggregate.pushTree, bind_eq_ok, Except.ok.injEq] at hrun
    obtain ⟨tree, happend, rfl⟩ := hrun
    exact append_keeps_tall ho.1.valid hnode.1 ho.2 hnode.2 happend

end Slice

section Summary

variable {T S D : Type} [Zero S] [Add S] [Item T S] [Dimension D S] {Pos : List T → D → Prop}

theorem collects_summary (hpos : Tracks (S := S) Pos) : Collects (T := T) (S := S)
    (fun seg (a : SummarySeekAggregate D) => Pos seg a.summary)
    (fun seg inner a => Pos (seg ++ inner) a.summary) where
  child _ _ := trivial
  beginLeaf h := by simpa [SeekAggregate.beginLeaf] using h
  pushItem x h _ := ⟨_, rfl, by rw [← List.append_assoc]; exact hpos.item x h⟩
  endLeaf h _ _ := ⟨_, rfl, h⟩
  pushTree h _ ht _ _ := ⟨_, rfl, hpos.tree ht h⟩

end Summary

/-! ### The inner loops -/

variable {T S D A : Type} [Zero S] [Add S] [Item T S] [Dimension D S] [SeekAggregate A T S]
  {Node : SumTree T S → Prop} {Out : List T → A → Prop} {In : List T → List T → A → Prop}
  {Pos : List T → D → Prop} {target : SeekTarget D} {bias : Bias}

/-- When a seek has passed some items, the target passes the position `p` that it
has reached. -/
def PassedTo (target : SeekTarget D) (bias : Bias) (seg : List T) (p : D) : Prop :=
  seg = [] ∨ passes bias (target p) = true

theorem seekTrees_spec (hagg : CollectsOf Node Out In) (hpos : Tracks (S := S) Pos) {h : ℕ}
    (hh : h ≤ 15) {start : List T} :
    ∀ {ts : List (SumTree T S)} (entry : StackEntry T S D) {seg : List T} {p : D} {a : A},
      (∀ t ∈ ts, WF h t) → (∀ t ∈ ts, Node t) → (seg ++ listItems ts).length ≤ maxItems →
      Out seg a →
      PassedTo target bias seg p → Pos (start ++ seg) entry.position → Pos (start ++ seg) p →
      ∃ passed rest a' p' q, ts = passed ++ rest ∧
        seekTrees target bias (ts.zip (ts.map SumTree.summary)) entry p a
          = .ok (⟨entry.tree, entry.index + passed.length, p'⟩, q, a', rest.head?) ∧
        Pos (start ++ (seg ++ listItems passed)) p' ∧ Pos (start ++ (seg ++ listItems passed)) q ∧
        Out (seg ++ listItems passed) a' ∧ PassedTo target bias (seg ++ listItems passed) q := by
  intro ts
  induction ts with
  | nil =>
    intro entry seg p a _ _ _ ho hpassed hentry hp
    exact ⟨[], [], a, entry.position, p, rfl, rfl, by simpa using hentry, by simpa using hp,
      by simpa using ho, by simpa using hpassed⟩
  | cons t ts ih =>
    intro entry seg p a hts hnodes hroom ho hpassed hentry hp
    have ht : WF h t := hts t (by simp)
    have hend : Pos (start ++ (seg ++ t.toList)) (Dimension.addSummary p t.summary) := by
      rw [← List.append_assoc]
      exact hpos.tree ht hp
    rw [listItems_cons, ← List.append_assoc] at hroom
    rw [List.map_cons, List.zip_cons_cons, seekTrees]
    by_cases hpass : passes bias (target (Dimension.addSummary p t.summary)) = true
    · obtain ⟨a', hpush, ho'⟩ := hagg.pushTree ho (hnodes t (by simp)) ht hh (by
        rw [List.length_append] at hroom
        omega)
      obtain ⟨passed, rest, a'', p', q, rfl, hrun, hp', hq, ho'', hpassed'⟩ :=
        ih ⟨entry.tree, entry.index + 1, Dimension.addSummary p t.summary⟩
          (fun u hu => hts u (by simp [hu])) (fun u hu => hnodes u (by simp [hu])) hroom ho'
          (Or.inr hpass) hend hend
      refine ⟨t :: passed, rest, a'', p', q, rfl, ?_, by simpa using hp', by simpa using hq,
        by simpa using ho'', by simpa using hpassed'⟩
      rw [if_pos hpass, hpush, ok_bind, hrun]
      simp [Nat.add_assoc, Nat.add_comm 1]
    · refine ⟨[], t :: ts, a, entry.position, p, rfl, ?_, by simpa using hentry, by simpa using hp,
        by simpa using ho, by simpa using hpassed⟩
      rw [if_neg hpass]
      rfl

theorem seekItems_spec (hagg : CollectsOf Node Out In) (hpos : Tracks (S := S) Pos)
    {start seg : List T} :
    ∀ (xs : List T) (entry : StackEntry T S D) {inner : List T} {p : D} {a : A},
      (inner ++ xs).length ≤ 2 * TREE_BASE → In seg inner a →
      PassedTo target bias (seg ++ inner) p → Pos (start ++ (seg ++ inner)) p →
      ∃ passed rest a' q, xs = passed ++ rest ∧
        seekItems target bias (xs.zip (xs.map Item.summary)) entry p a
          = .ok (⟨entry.tree, entry.index + passed.length, entry.position⟩, q, a',
            !rest.isEmpty) ∧
        Pos (start ++ (seg ++ (inner ++ passed))) q ∧ In seg (inner ++ passed) a' ∧
        PassedTo target bias (seg ++ (inner ++ passed)) q ∧
        ∀ x ∈ rest.head?,
          passes bias (target (Dimension.addSummary q (Item.summary x : S))) = false := by
  intro xs
  induction xs with
  | nil =>
    intro entry inner p a _ hi hpassed hp
    exact ⟨[], [], a, p, rfl, by simp [seekItems], by simpa using hp, by simpa using hi,
      by simpa using hpassed, by simp⟩
  | cons x xs ih =>
    intro entry inner p a hlen hi hpassed hp
    have hend : Pos (start ++ (seg ++ (inner ++ [x])))
        (Dimension.addSummary p (Item.summary x : S)) := by
      have := hpos.item x hp
      simpa using this
    rw [List.map_cons, List.zip_cons_cons, seekItems]
    by_cases hpass : passes bias (target (Dimension.addSummary p (Item.summary x : S))) = true
    · obtain ⟨a', hpush, hi'⟩ := hagg.pushItem x hi (by
        simp only [List.length_append, List.length_cons] at hlen
        omega)
      obtain ⟨passed, rest, a'', q, rfl, hrun, hq, hi'', hpassed', hstop⟩ :=
        ih ⟨entry.tree, entry.index + 1, entry.position⟩ (by simpa using hlen) hi' (Or.inr hpass)
          hend
      refine ⟨x :: passed, rest, a'', q, rfl, ?_, by simpa using hq, by simpa using hi'',
        by simpa using hpassed', hstop⟩
      rw [if_pos hpass, hpush, ok_bind, hrun]
      simp [Nat.add_assoc, Nat.add_comm 1]
    · refine ⟨[], x :: xs, a, p, rfl, ?_, by simpa using hp, by simpa using hi,
        by simpa using hpassed, ?_⟩
      · rw [if_neg hpass]
        simp
      · rintro y ⟨⟩
        simpa using hpass

/-! ### The loop -/

/-- A state of the loop that started behind `start` and has passed `seg`. -/
structure Passing (Pos : List T → D → Prop) (Out : List T → A → Prop) (target : SeekTarget D)
    (bias : Bias) (root : SumTree T S) (start seg todo : List T) (s : Seeking T S D A) : Prop where
  stack : (s.ascending = true ∧ Returned Pos root s.stack (start ++ seg) todo) ∨
    (s.ascending = false ∧ Frontier Pos root s.stack (start ++ seg) todo)
  position : Pos (start ++ seg) s.position
  aggregate : Out seg s.aggregate
  passed : PassedTo target bias seg s.position

/-- How a seek ends: behind the last item, or at an item that the target does not
pass. -/
structure Passed (Pos : List T → D → Prop) (Out : List T → A → Prop) (target : SeekTarget D)
    (bias : Bias) (root : SumTree T S) (start seg : List T)
    (r : List (StackEntry T S D) × D × A) : Prop where
  stack : (r.1 = [] ∧ root.toList = start ++ seg) ∨
    ∃ x todo, OnItem Pos root r.1 (start ++ seg) x todo ∧
      passes bias (target (Dimension.addSummary r.2.1 (Item.summary x : S))) = false
  position : Pos (start ++ seg) r.2.1
  aggregate : Out seg r.2.2
  passed : PassedTo target bias seg r.2.1

/-- The measure of the loop. -/
def Seeking.measure (s : Seeking T S D A) : ℕ :=
  if s.ascending then ahead s.stack else aheadOfTop s.stack

variable {root : SumTree T S}

omit [Dimension D S] in
theorem CollectsOf.onPath (hagg : CollectsOf Node Out In) (hroot : Node root)
    {stack : List (StackEntry T S D)} {node : SumTree T S} {pre post : List T}
    (hp : Path Pos root stack node pre post) : Node node := by
  induction hp with
  | root => exact hroot
  | down _ _ ih => exact hagg.child ih (by simp)

/-- What a pass makes of a state: another one with less left to do, or the end. -/
def SeekStep (Pos : List T → D → Prop) (Out : List T → A → Prop) (target : SeekTarget D)
    (bias : Bias) (root : SumTree T S) (start : List T) (n : ℕ) (s : Seeking T S D A) : Prop :=
  (∃ s', seekPass target bias s = .ok (.next s') ∧
    (∃ seg todo, Passing Pos Out target bias root start seg todo s') ∧ s'.measure < n) ∨
  (∃ r, seekPass target bias s = .ok (.done r) ∧
    ∃ seg, Passed Pos Out target bias root start seg r)

/-- A pass that starts between two children. -/
theorem seekPass_internal (hagg : CollectsOf Node Out In) (hpos : Tracks (S := S) Pos)
    (hr : Valid root) (hroot : Node root) (hheight : root.height ≤ 15)
    (hroom : root.toList.length ≤ maxItems)
    {start seg pre post : List T} {h : ℕ} {s : S} {ss : List S} {l r : List (SumTree T S)}
    {rest : List (StackEntry T S D)} {p q : D} {a : A}
    (hp : Path Pos root rest (.internal h s ss (l ++ r)) pre post)
    (hdone : start ++ seg = pre ++ listItems l) (hentry : Pos (start ++ seg) p)
    (hq : Pos (start ++ seg) q) (ho : Out seg a) (hpassed : PassedTo target bias seg q) :
    SeekStep Pos Out target bias root start
      (aheadOfTop (⟨.internal h s ss (l ++ r), l.length, p⟩ :: rest))
      ⟨⟨.internal h s ss (l ++ r), l.length, p⟩ :: rest, q, a, false⟩ := by
  left
  obtain ⟨hv, hlen⟩ := hp.valid hr
  obtain ⟨_, _, rfl, hts, hheight'⟩ := hv.children
  rw [height_internal] at hlen
  have hroom' : (seg ++ listItems r).length ≤ maxItems := by
    have hitems := hp.items
    rw [toList_internal, listItems_append, ← List.append_assoc, ← hdone] at hitems
    rw [hitems] at hroom
    simp only [List.length_append] at hroom ⊢
    omega
  obtain ⟨passed, below, a', p', q', rfl, hrun, hp', hq', ho', hpassed'⟩ :=
    seekTrees_spec hagg hpos (show h - 1 ≤ 15 by omega)
      ⟨.internal h s ((l ++ r).map SumTree.summary) (l ++ r), l.length, p⟩
      (fun t ht => hts t (List.mem_append_right l ht))
      (fun t ht => hagg.child (hagg.onPath hroot hp) (List.mem_append_right l ht))
      hroom' ho hpassed hentry hq
  have hitems : start ++ (seg ++ listItems passed) = pre ++ listItems (l ++ passed) := by
    rw [← List.append_assoc, hdone, listItems_append, List.append_assoc]
  simp only [seekPass, Bool.false_eq_true, if_false, sliceFrom_append, sliceFrom_map_append,
    ok_bind, hrun]
  cases below with
  | nil =>
    -- Every child is passed: the node is left.
    have hret := hp.returned
    have hmeasure := remaining_pos (.internal h s ((l ++ (passed ++ [])).map SumTree.summary)
      (l ++ (passed ++ []))) l.length
    refine ⟨_, rfl, ⟨seg ++ listItems passed, post, Or.inl ⟨rfl, ?_⟩, hq', ho', hpassed'⟩, ?_⟩
    · rw [hitems]
      simpa using hret
    · simp only [Seeking.measure, if_true, aheadOfTop]
      omega
  | cons c below =>
    -- The seek goes on inside the child `c`.
    have hpush : ∀ e e' : StackEntry T S D, pushEntry (e :: rest) e' = .ok (e' :: e :: rest) :=
      fun e e' => pushEntry_ok (by rw [List.length_cons]; omega)
    have hpath : Path Pos root rest (.internal h s ((l ++ (passed ++ c :: below)).map
        SumTree.summary) ((l ++ passed) ++ c :: below)) pre post := by
      rw [List.append_assoc]
      exact hp
    rw [hitems] at hp' hq'
    have hfront := (hpath.down hp').frontier hq'
    rw [← hitems] at hq'
    simp only [List.head?_cons, hpush, ok_bind]
    refine ⟨_, rfl, ⟨seg ++ listItems passed, c.toList ++ (listItems below ++ post),
      Or.inr ⟨rfl, ?_⟩, hq', ho', hpassed'⟩, ?_⟩
    · rw [hitems]
      simpa [List.append_assoc] using hfront
    · simp only [Seeking.measure, Bool.false_eq_true, if_false]
      exact aheadOfTop_push rest

/-- A pass that starts between two items. -/
theorem seekPass_leaf (hagg : CollectsOf Node Out In) (hpos : Tracks (S := S) Pos)
    (hr : Valid root) (hroom : root.toList.length ≤ maxItems) {start seg pre post : List T} {s : S}
    {ss : List S} {l r : List T} {rest : List (StackEntry T S D)} {p q : D} {a : A}
    (hp : Path Pos root rest (.leaf s (l ++ r) ss) pre post) (hdone : start ++ seg = pre ++ l)
    (hq : Pos (start ++ seg) q) (ho : Out seg a) (hpassed : PassedTo target bias seg q) :
    SeekStep Pos Out target bias root start
      (aheadOfTop (⟨.leaf s (l ++ r) ss, l.length, p⟩ :: rest))
      ⟨⟨.leaf s (l ++ r) ss, l.length, p⟩ :: rest, q, a, false⟩ := by
  obtain ⟨hv, hlen⟩ := hp.valid hr
  obtain ⟨hxs, rfl⟩ := hv.leafItems
  obtain ⟨passed, below, a', q', rfl, hrun, hq', hi', hpassed', hstop⟩ :=
    seekItems_spec hagg hpos r ⟨.leaf s (l ++ r) ((l ++ r).map Item.summary), l.length, p⟩
      (by simp only [List.length_append, List.nil_append] at hxs ⊢; omega) (hagg.beginLeaf ho)
      (show PassedTo target bias (seg ++ []) q by simpa using hpassed) (by simpa using hq)
  simp only [List.nil_append] at hi' hpassed' hq'
  have hroom' : (seg ++ passed).length ≤ maxItems := by
    have hitems := hp.items
    rw [toList_leaf, ← List.append_assoc, ← hdone] at hitems
    rw [hitems] at hroom
    simp only [List.length_append] at hroom ⊢
    omega
  have hroom'' : passed.length ≤ 2 * TREE_BASE := by
    simp only [List.length_append] at hxs
    omega
  obtain ⟨a'', hend, ho''⟩ := hagg.endLeaf hi' hroom'' hroom'
  have hitems : start ++ (seg ++ passed) = pre ++ (l ++ passed) := by
    rw [← List.append_assoc, hdone, List.append_assoc]
  rw [SeekStep]
  simp only [seekPass, sliceFrom_append, sliceFrom_map_append, ok_bind, hrun, hend]
  cases below with
  | nil =>
    left
    have hret := hp.returned
    refine ⟨_, rfl, ⟨seg ++ passed, post, Or.inl ⟨rfl, ?_⟩, hq', ho'', hpassed'⟩, ?_⟩
    · rw [hitems]
      simpa using hret
    · simp [Seeking.measure, aheadOfTop, remaining]
  | cons x below =>
    right
    have hpath : Path Pos root rest (.leaf s ((l ++ passed) ++ x :: below)
        ((l ++ (passed ++ x :: below)).map Item.summary)) pre post := by
      rw [List.append_assoc]
      exact hp
    have hitem := OnItem.leaf (p := p) hpath
    refine ⟨_, rfl, seg ++ passed, Or.inr ⟨x, below ++ post, ?_, hstop x rfl⟩, hq', ho'', hpassed'⟩
    rw [hitems]
    simpa [List.append_assoc] using hitem

theorem seekPass_frontier (hagg : CollectsOf Node Out In) (hpos : Tracks (S := S) Pos)
    (hr : Valid root) (hroot : Node root) (hheight : root.height ≤ 15)
    (hroom : root.toList.length ≤ maxItems)
    {start seg todo : List T} {stack : List (StackEntry T S D)} {p : D} {a : A}
    (hf : Frontier Pos root stack (start ++ seg) todo) (hp : Pos (start ++ seg) p) (ho : Out seg a)
    (hpassed : PassedTo target bias seg p) :
    SeekStep Pos Out target bias root start (aheadOfTop stack) ⟨stack, p, a, false⟩ := by
  generalize hdone : start ++ seg = done at hf
  cases hf with
  | internal hpath hentry =>
    exact seekPass_internal hagg hpos hr hroot hheight hroom hpath hdone (hdone ▸ hentry) hp ho
      hpassed
  | leaf hpath => exact seekPass_leaf hagg hpos hr hroom hpath hdone hp ho hpassed

omit [Zero S] [Add S] [Item T S] in
theorem seekPass_ascending {h : ℕ} {s : S} {ss : List S} {cs : List (SumTree T S)} {i : ℕ} {p : D}
    {rest : List (StackEntry T S D)} {position : D} {a : A} :
    seekPass target bias ⟨⟨.internal h s ss cs, i, p⟩ :: rest, position, a, true⟩
      = seekPass target bias ⟨⟨.internal h s ss cs, i + 1, position⟩ :: rest, position, a, false⟩ :=
  rfl

/-- One pass of the loop of `seek_internal`. -/
theorem seekPass_spec (hagg : CollectsOf Node Out In) (hpos : Tracks (S := S) Pos)
    (hr : Valid root) (hroot : Node root) (hheight : root.height ≤ 15)
    (hroom : root.toList.length ≤ maxItems)
    {start : List T} (s : Seeking T S D A)
    (hs : ∃ seg todo, Passing Pos Out target bias root start seg todo s) :
    SeekStep Pos Out target bias root start s.measure s := by
  obtain ⟨seg, todo, hstack, hp, ho, hpassed⟩ := hs
  obtain ⟨stack, position, a, ascending⟩ := s
  rcases hstack with ⟨hasc, hret⟩ | ⟨hasc, hf⟩
  · simp only at hasc hret hp ho hpassed
    subst hasc
    generalize hdone : start ++ seg = done at hret
    cases hret with
    | root =>
      exact Or.inr ⟨_, rfl, seg, Or.inl ⟨rfl, hdone.symm⟩, hp, ho, hpassed⟩
    | @child rest h s ss l r c pre post p hpath =>
      have hf := (Returned.child (p := p) hpath).frontier (hdone ▸ hp)
      rw [← hdone] at hf
      have hstep := seekPass_frontier hagg hpos hr hroot hheight hroom hf hp ho hpassed
      rw [SeekStep, seekPass_ascending]
      exact hstep
  · simp only at hasc hf hp ho hpassed
    subst hasc
    exact seekPass_frontier hagg hpos hr hroot hheight hroom hf hp ho hpassed

theorem seekLoop_spec (target : SeekTarget D) (bias : Bias) (hagg : CollectsOf Node Out In)
    (hpos : Tracks (S := S) Pos) (hr : Valid root) (hroot : Node root) (hheight : root.height ≤ 15)
    (hroom : root.toList.length ≤ maxItems) {start todo : List T} {stack : List (StackEntry T S D)}
    {p : D} {a : A} (hf : Frontier Pos root stack start todo) (hp : Pos start p) (ho : Out [] a) :
    ∃ r, loop .outOfFuel (seekPass target bias) (stackFuel stack) ⟨stack, p, a, false⟩ = .ok r ∧
      ∃ seg, Passed Pos Out target bias root start seg r := by
  have hstart : Passing Pos Out target bias root start [] todo ⟨stack, p, a, false⟩ :=
    ⟨Or.inr ⟨rfl, by simpa using hf⟩, by simpa using hp, ho, Or.inl rfl⟩
  exact loop_spec (fun s => ∃ seg todo, Passing Pos Out target bias root start seg todo s)
    Seeking.measure _ (seekPass_spec hagg hpos hr hroot hheight hroom) ⟨[], todo, hstart⟩
    (by simpa [Seeking.measure] using aheadOfTop_lt stack)

/-! ### The whole seek -/

variable (bias) in
omit [SeekAggregate A T S] in
theorem endOfSeek_spec (hpos : Tracks (S := S) Pos) {c : Cursor T S D} (hr : Valid c.tree)
    {p : Place T} (hat : c.At Pos p) (hp : p ≠ .fresh) : ∃ q, c.endOfSeek bias = .ok q ∧
      Pos (if bias = .left then p.upTo c.tree.toList else p.done c.tree.toList) q := by
  have hstart : Pos (p.done c.tree.toList) c.position := start_spec hat
  rw [endOfSeek]
  cases bias with
  | left =>
    rw [if_pos rfl, if_pos rfl, itemSummary_spec hr hat hp, ok_bind, Place.upTo]
    cases hcur : p.current with
    | none => exact ⟨_, rfl, by simpa using hstart⟩
    | some x => exact ⟨_, rfl, hpos.item x hstart⟩
  | right => exact ⟨_, rfl, hstart⟩

/-- What a seek that started behind `start` leaves: it passed the items `seg`, is at
an item that the target does not pass or behind the last one, and found the target
if the location at the end is equal to it. -/
structure Sought (Pos : List T → D → Prop) (Out : List T → A → Prop) (target : SeekTarget D)
    (bias : Bias) (root : SumTree T S) (start seg : List T) (p : Place T)
    (r : Cursor T S D × A × Bool) : Prop where
  tree : r.1.tree = root
  at_ : r.1.At Pos p
  out : Out seg r.2.1
  passed : PassedTo target bias seg r.1.position
  lands : p.Lands (fun x => passes bias
    (target (Dimension.addSummary r.1.position (Item.summary x : S))) = false)
    root.toList (start ++ seg)
  found : ∃ q, Pos (if bias = .left then p.upTo root.toList else p.done root.toList) q ∧
    r.2.2 = decide (target q = .eq)

/-- The end of `seek_internal`, after its loop. -/
theorem seekInternal_of_loop (hpos : Tracks (S := S) Pos) {c : Cursor T S D} (hr : Valid c.tree)
    {start seg : List T} {a : A} {stack : List (StackEntry T S D)}
    {r : List (StackEntry T S D) × D × A} (hstart : c.startSeek = .ok stack)
    (hge : (target c.position).isGE)
    (hloop : loop .outOfFuel (seekPass target bias) (stackFuel stack)
      ⟨stack, c.position, a, false⟩ = .ok r)
    (hpassed : Passed Pos Out target bias c.tree start seg r) :
    ∃ p' r', seekInternal target bias c a = .ok r' ∧
      Sought Pos Out target bias c.tree start seg p' r' := by
  obtain ⟨stack', position, a'⟩ := r
  obtain ⟨hstack, hp, hout, hto⟩ := hpassed
  simp only at hstack hp hout hto
  obtain ⟨c', hc'⟩ : ∃ c' : Cursor T S D, c' = ⟨c.tree, stack', position, true, stack'.isEmpty⟩ :=
    ⟨_, rfl⟩
  have htree : c'.tree = c.tree := by rw [hc']
  have hposition : c'.position = position := by rw [hc']
  have hrun : ∀ p' : Place T, p' ≠ .fresh → c'.At Pos p' →
      p'.Lands (fun x => passes bias
        (target (Dimension.addSummary position (Item.summary x : S))) = false) c.tree.toList
        (start ++ seg) →
      ∃ p' r', seekInternal target bias c a = .ok r' ∧
        Sought Pos Out target bias c.tree start seg p' r' := by
    intro p' hne hat hlands
    obtain ⟨q, hend, hq⟩ := endOfSeek_spec bias hpos (htree ▸ hr) hat hne
    refine ⟨p', (c', a', target q = .eq), ?_, htree, hat, hout, by rwa [hposition],
      by rwa [hposition], q, by rwa [htree] at hq, rfl⟩
    rw [hc'] at hend ⊢
    rw [seekInternal, if_pos hge, hstart, ok_bind, hloop, ok_bind]
    simp only [hend, ok_bind]
  rcases hstack with ⟨rfl, hitems⟩ | ⟨x, todo, hon, hstop⟩
  · refine hrun .afterLast (by simp) ?_ hitems
    rw [hc']
    exact ⟨rfl, rfl, by rw [hitems]; exact hp, rfl⟩
  · refine hrun (.item (start ++ seg) x todo) (by simp) ?_ ⟨rfl, hon.items, hstop⟩
    rw [hc']
    exact ⟨rfl, hon, hp, hon.stack_ne_nil⟩

variable (bias) in
/-- Seeking forward in a tree whose nodes are as the aggregate needs them. -/
theorem seekInternal_of_nodes (hagg : CollectsOf Node Out In) (hpos : Tracks (S := S) Pos)
    {c : Cursor T S D} (hr : Valid c.tree) (hroot : Node c.tree)
    (hheight : c.tree.height ≤ 15) {p : Place T}
    (hat : c.At Pos p) (hp : p ≠ .beforeFirst) {a : A} (ho : Out [] a)
    (hge : (target c.position).isGE) :
    ∃ seg p' r, seekInternal target bias c a = .ok r ∧
      Sought Pos Out target bias c.tree (p.done c.tree.toList) seg p' r := by
  have hroom := hr.length_toList_le hheight
  have hposition := start_spec hat
  match p, hat with
  | .beforeFirst, _ => exact absurd rfl hp
  | .fresh, hat =>
    obtain ⟨r, hloop, seg, hpassed⟩ := seekLoop_spec target bias hagg hpos hr hroot hheight hroom
      (Path.root.frontier hpos.zero) hposition ho
    refine ⟨seg, seekInternal_of_loop hpos hr ?_ hge hloop hpassed⟩
    rw [startSeek, hat.1, hat.2.1]
    rfl
  | .item done x todo, hat =>
    obtain ⟨r, hloop, seg, hpassed⟩ := seekLoop_spec target bias hagg hpos hr hroot hheight hroom
      hat.2.1.frontier hposition ho
    refine ⟨seg, seekInternal_of_loop hpos hr ?_ hge hloop hpassed⟩
    rw [startSeek, hat.1]
    rfl
  | .afterLast, hat =>
    have hloop : loop .outOfFuel (seekPass (T := T) (S := S) target bias)
        (stackFuel (T := T) (S := S) (D := D) []) ⟨[], c.position, a, false⟩
          = .ok ([], c.position, a) := rfl
    have hpassed : Passed Pos Out target bias c.tree c.tree.toList [] ([], c.position, a) :=
      ⟨Or.inl ⟨rfl, by simp⟩, by rw [List.append_nil]; exact hposition, ho, Or.inl rfl⟩
    refine ⟨[], seekInternal_of_loop hpos hr ?_ hge hloop hpassed⟩
    rw [startSeek, hat.1, hat.2.1]
    rfl

variable (bias) in
/-- **Seeking forward.**  From a place that is not before the first item, a seek
to a target at or behind it succeeds; it passes the items `seg`, which the
aggregate then follows, and ends at an item that the target does not pass, or
behind the last one. -/
theorem seekInternal_spec (hagg : Collects (S := S) Out In) (hpos : Tracks (S := S) Pos)
    {c : Cursor T S D} (hr : Valid c.tree) (hheight : c.tree.height ≤ 15) {p : Place T}
    (hat : c.At Pos p) (hp : p ≠ .beforeFirst) {a : A} (ho : Out [] a)
    (hge : (target c.position).isGE) :
    ∃ seg p' r, seekInternal target bias c a = .ok r ∧
      Sought Pos Out target bias c.tree (p.done c.tree.toList) seg p' r :=
  seekInternal_of_nodes bias hagg hpos hr trivial hheight hat hp ho hge

/-! ### The cursor does not depend on the aggregate -/

/-- A state of the loop of `seek_internal` without its aggregate. -/
def Seeking.forget (s : Seeking T S D A) : Seeking T S D Unit :=
  ⟨s.stack, s.position, (), s.ascending⟩

omit [Zero S] [Add S] [Item T S]

theorem seekTrees_forget : ∀ {ts : List (SumTree T S × S)} {entry entry' : StackEntry T S D}
    {position position' : D} {a a' : A} {child : Option (SumTree T S)},
    seekTrees target bias ts entry position a = .ok (entry', position', a', child) →
      seekTrees target bias ts entry position () = .ok (entry', position', (), child) := by
  intro ts
  induction ts with
  | nil =>
    intro entry entry' position position' a a' child h
    cases h
    rfl
  | cons t ts ih =>
    intro entry entry' position position' a a' child h
    rw [seekTrees] at h ⊢
    by_cases hpass : passes bias (target (Dimension.addSummary position t.2)) = true
    · rw [if_pos hpass] at h ⊢
      obtain ⟨a'', -, hrun⟩ := bind_eq_ok.mp h
      exact ih hrun
    · rw [if_neg hpass] at h ⊢
      cases h
      rfl

theorem seekItems_forget : ∀ {xs : List (T × S)} {entry entry' : StackEntry T S D}
    {position position' : D} {a a' : A} {stopped : Bool},
    seekItems target bias xs entry position a = .ok (entry', position', a', stopped) →
      seekItems target bias xs entry position () = .ok (entry', position', (), stopped) := by
  intro xs
  induction xs with
  | nil =>
    intro entry entry' position position' a a' stopped h
    cases h
    rfl
  | cons x xs ih =>
    intro entry entry' position position' a a' stopped h
    rw [seekItems] at h ⊢
    by_cases hpass : passes bias (target (Dimension.addSummary position x.2)) = true
    · rw [if_pos hpass] at h ⊢
      obtain ⟨a'', -, hrun⟩ := bind_eq_ok.mp h
      exact ih hrun
    · rw [if_neg hpass] at h ⊢
      cases h
      rfl

theorem seekPass_internal_forget {h : ℕ} {s : S} {ss : List S} {cs : List (SumTree T S)} {i : ℕ}
    {p : D} {rest : List (StackEntry T S D)} {position : D} {a : A}
    {q : Pass (Seeking T S D A) (List (StackEntry T S D) × D × A)}
    (hq : seekPass target bias ⟨⟨.internal h s ss cs, i, p⟩ :: rest, position, a, false⟩ = .ok q) :
    seekPass target bias ⟨⟨.internal h s ss cs, i, p⟩ :: rest, position, (), false⟩
      = .ok (q.map Seeking.forget fun r => (r.1, r.2.1, ())) := by
  simp only [seekPass, Bool.false_eq_true, if_false, bind_eq_ok] at hq ⊢
  obtain ⟨trees, htrees, summaries, hsummaries, ⟨entry, position', a', child⟩, hrun, hq⟩ := hq
  refine ⟨trees, htrees, summaries, hsummaries, _, seekTrees_forget hrun, ?_⟩
  cases child with
  | none =>
    cases hq
    rfl
  | some childTree =>
    obtain ⟨stack, hpush, hq⟩ := bind_eq_ok.mp hq
    cases hq
    simp only [hpush, ok_bind]
    rfl

theorem seekPass_forget (s : Seeking T S D A)
    (q : Pass (Seeking T S D A) (List (StackEntry T S D) × D × A))
    (h : seekPass target bias s = .ok q) :
    seekPass target bias s.forget = .ok (q.map Seeking.forget fun r => (r.1, r.2.1, ())) := by
  obtain ⟨stack, position, a, ascending⟩ := s
  match stack with
  | [] =>
    cases h
    rfl
  | ⟨.internal height summary childSummaries childTrees, i, p⟩ :: rest =>
    cases ascending with
    | true => exact seekPass_internal_forget (i := i + 1) (p := position) h
    | false => exact seekPass_internal_forget h
  | ⟨.leaf summary items itemSummaries, i, p⟩ :: rest =>
    simp only [seekPass, bind_eq_ok] at h
    obtain ⟨xs, hxs, summaries, hsummaries, ⟨entry, position', a', stopped⟩, hrun, a'', -, hq⟩ := h
    simp only [seekPass, Seeking.forget, hxs, ok_bind, hsummaries, SeekAggregate.beginLeaf,
      SeekAggregate.endLeaf, seekItems_forget hrun]
    cases stopped with
    | true =>
      cases hq
      rfl
    | false =>
      cases hq
      rfl

/-- Whatever a seek collects, it leaves the cursor that `seek_forward` leaves. -/
theorem seekInternal_forget {c c' : Cursor T S D} {a a' : A} {found : Bool}
    (h : seekInternal target bias c a = .ok (c', a', found)) :
    seekInternal target bias c () = .ok (c', (), found) := by
  rw [seekInternal] at h ⊢
  by_cases hge : (target c.position).isGE = true
  · rw [if_pos hge] at h ⊢
    simp only [bind_eq_ok] at h
    obtain ⟨stack, hstart, r, hloop, endPosition, hend, hc⟩ := h
    have hunit : loop .outOfFuel (seekPass target bias) (stackFuel stack)
        ⟨stack, c.position, (), false⟩ = .ok (r.1, r.2.1, ()) :=
      loop_map Seeking.forget (fun r => (r.1, r.2.1, ())) seekPass_forget hloop
    cases hc
    rw [hstart, ok_bind, hunit, ok_bind]
    simp only [hend, ok_bind]
  · rw [if_neg hge] at h
    exact absurd h (by simp)

end Cursor

end Zui
