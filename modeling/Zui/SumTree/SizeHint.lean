/-
The size hint of an `Iter`.

`Iter::size_hint` reads its lower bound off the top of the stack: the children of
the top node, less the index of the entry.  In a leaf that index is the one of the
item that was yielded last, so the bound counts that item once more.  Whether this
shows depends on the leaf: behind any leaf but the last one there are more items.

* `calls_spec` — what any number of calls of `Iter::next` leads to;
* `stillYields_iff` — how many items an iterator yields before its next `None`;
* `Path.rightmost` — the items behind a node against those of the last leaf;
* `sizeHint_le_iff` — when the lower bound is one.
-/
import Zui.SumTree.Iterate
import Zui.SumTree.Ends
import Zui.SumTree.Deep

namespace Zui

open SumTree Cursor

namespace Iter

variable {T S : Type}

/-- `Iter::size_hint`. -/
def sizeHint (self : Iter T S) : Result (ℕ × Option ℕ) := do
  let lowerBound ← match self.stack with
    | top :: _ => checkedSub top.tree.childSummaries.length top.index
    | [] => .ok self.tree.childSummaries.length
  .ok (lowerBound, none)

/-- `k` calls of `Iter::next`. -/
def calls (self : Iter T S) : ℕ → Result (Iter T S)
  | 0 => .ok self
  | k + 1 => do
    let iter ← self.calls k
    let (iter, _) ← iter.next
    .ok iter

/-- The iterator yields `n` more items before its next `None`. -/
def StillYields : ℕ → Iter T S → Prop
  | 0, self => ∃ iter, self.next = .ok (iter, none)
  | n + 1, self => ∃ iter x, self.next = .ok (iter, some x) ∧ iter.StillYields n

/-! ### After any number of calls -/

theorem next_none {iter iter' : Iter T S} (h : iter.next = .ok (iter', none)) :
    iter' = Iter.new iter.tree := by
  obtain ⟨⟨stack, descend⟩, -, hrest⟩ := bind_eq_ok.mp h
  obtain ⟨⟨stack', item⟩, hloop, hres⟩ := bind_eq_ok.mp hrest
  simp only [Except.ok.injEq, Prod.mk.injEq] at hres
  obtain ⟨rfl, rfl⟩ := hres
  have hstack : (none : Option T) = none → stack' = [] := by
    refine loop_partial (fun _ => True) (fun r => r.2 = none → r.1 = []) (fun _ _ _ _ => trivial)
      (fun s r _ hpass => ?_) trivial hloop
    -- A pass ends the loop on an empty stack, or with an item.
    obtain ⟨_ | ⟨entry, rest⟩, descend⟩ := s
    · cases hpass
      exact fun _ => rfl
    · intro hnone
      exfalso
      simp only [nextPass] at hpass
      split at hpass
      · split at hpass
        · obtain ⟨stack, -, hnext⟩ := bind_eq_ok.mp hpass
          cases hnext
        · cases hpass
      · split at hpass
        · cases hpass
          cases hnone
        · cases hpass
  rw [hstack rfl]
  rfl

theorem succ_mod_of_lt {k n : ℕ} (h : k % (n + 1) < n) : (k + 1) % (n + 1) = k % (n + 1) + 1 := by
  rw [Nat.add_mod_eq_ite, if_neg]
  · rw [Nat.mod_eq_of_lt (a := 1) (by omega)]
  · rw [Nat.mod_eq_of_lt (a := 1) (by omega)]
    omega

theorem succ_mod_of_eq {k n : ℕ} (h : k % (n + 1) = n) : (k + 1) % (n + 1) = 0 :=
  Nat.succ_mod_succ_eq_zero_iff.mpr h

variable [Zero S] [Add S] [Item T S]

/-- After `k` calls the items since the last `None` have been yielded. -/
theorem calls_spec {t : SumTree T S} (ht : Valid t) (hheight : t.height ≤ 15) (k : ℕ) :
    ∃ iter done, (Iter.new t).calls k = .ok iter ∧ iter.tree = t ∧ iter.At done ∧
      done.length = k % (t.toList.length + 1) := by
  induction k with
  | zero => exact ⟨Iter.new t, [], rfl, rfl, Or.inl ⟨rfl, rfl⟩, (Nat.zero_mod _).symm⟩
  | succ k ih =>
    obtain ⟨iter, done, hrun, rfl, hat, hlen⟩ := ih
    rcases next_spec ht hheight hat with ⟨iter', hnext, hitems⟩ |
      ⟨iter', x, todo, hnext, htree, hitems, hat'⟩
    · -- The call is behind the last item: the next one starts over.
      obtain rfl := next_none hnext
      refine ⟨Iter.new iter.tree, [], by rw [calls, hrun, ok_bind, hnext]; rfl, rfl,
        Or.inl ⟨rfl, rfl⟩, ?_⟩
      exact (succ_mod_of_eq (by rw [← hlen, hitems])).symm
    · refine ⟨iter', done ++ [x], by rw [calls, hrun, ok_bind, hnext]; rfl, htree, hat', ?_⟩
      have hlt : done.length < iter.tree.toList.length := by simp [hitems]
      rw [List.length_append, List.length_singleton, succ_mod_of_lt (hlen ▸ hlt), hlen]

omit [Zero S] [Add S] [Item T S] in
theorem At.length_le {iter : Iter T S} {done : List T} (hat : iter.At done) :
    done.length ≤ iter.tree.toList.length := by
  rcases hat with ⟨-, rfl⟩ | ⟨pre, x, todo, rfl, hon⟩
  · exact Nat.zero_le _
  · simp [hon.items]

omit [Zero S] [Add S] [Item T S] in
theorem stillYields_succ {n : ℕ} {iter iter' : Iter T S} {x : T}
    (h : iter.next = .ok (iter', some x)) :
    StillYields (n + 1) iter ↔ StillYields n iter' := by
  constructor
  · rintro ⟨iter₁, y, h₁, hrest⟩
    cases h.symm.trans h₁
    exact hrest
  · exact fun hrest => ⟨iter', x, h, hrest⟩

/-- An iterator behind the items `done` yields the rest of the items. -/
theorem stillYields_iff {n : ℕ} : ∀ {iter : Iter T S} {done : List T}, Valid iter.tree →
    iter.tree.height ≤ 15 → iter.At done →
    (iter.StillYields n ↔ iter.tree.toList.length = done.length + n) := by
  induction n with
  | zero =>
    intro iter done ht hheight hat
    rcases next_spec ht hheight hat with ⟨iter', hnext, hitems⟩ |
      ⟨iter', x, todo, hnext, htree, hitems, hat'⟩
    · simp [StillYields, hnext, hitems]
    · simp [StillYields, hnext, hitems]
  | succ n ih =>
    intro iter done ht hheight hat
    rcases next_spec ht hheight hat with ⟨iter', hnext, hitems⟩ |
      ⟨iter', x, todo, hnext, htree, hitems, hat'⟩
    · simp [StillYields, hnext, hitems]
    · have hrest := ih (htree ▸ ht) (htree ▸ hheight) hat'
      rw [htree, List.length_append, List.length_singleton] at hrest
      rw [stillYields_succ hnext, hrest]
      omega

end Iter

/-! ### The last leaf -/

section LastLeaf

variable {T S : Type} [Zero S] [Add S] [Item T S]

/-- A node of a valid tree has no more children or items than the tree has items. -/
theorem SumTree.Valid.length_childSummaries_le {t : SumTree T S} (ht : Valid t) :
    t.childSummaries.length ≤ t.toList.length := by
  rcases ht with rfl | ⟨h, hw⟩
  · exact Nat.le_refl _
  · cases hw with
    | leaf _ _ => simp
    | @internal h ts hne hlen hts =>
      clear hne hlen
      simp only [childSummaries_internal, List.length_map, toList_internal]
      induction ts with
      | nil => simp
      | cons t ts ih =>
        have hlen := List.length_pos_of_ne_nil (hts t (by simp)).toList_ne_nil
        have hrest := ih (fun u hu => hts u (by simp [hu]))
        rw [listItems_cons, List.length_append, List.length_cons]
        omega

theorem SumTree.Valid.rightmostLeaf {t : SumTree T S} (ht : Valid t) :
    ∃ s xs ss, t.rightmostLeaf = .ok (.leaf s xs ss) := by
  rcases ht with rfl | ⟨h, hw⟩
  · exact ⟨0, [], [], by rw [new, SumTree.rightmostLeaf]⟩
  · obtain ⟨s, ss, xs, -, hleaf, -, -⟩ := rightmostLeaf_spec hw
    exact ⟨s, xs, ss, hleaf⟩

/-- A node with no items behind it ends in the last leaf of the tree; behind any other
node lie the items of that leaf. -/
theorem Cursor.Path.rightmost {Pos : List T → Unit → Prop} {root node : SumTree T S}
    {stack : List (StackEntry T S Unit)} {pre post : List T} (hr : Valid root)
    (hp : Path Pos root stack node pre post) {s : S} {xs : List T} {ss : List S}
    (hleaf : root.rightmostLeaf = .ok (.leaf s xs ss)) :
    (post = [] ∧ node.rightmostLeaf = .ok (.leaf s xs ss)) ∨
      (post ≠ [] ∧ ∃ rest, post = rest ++ xs) := by
  induction hp with
  | root => exact Or.inl ⟨rfl, hleaf⟩
  | @down stack h s' ss' l r c pre post p hpath _ ih =>
    have hch := (hpath.valid hr).1.children
    rcases ih with ⟨rfl, hnode⟩ | ⟨hne, rest, rfl⟩
    · rcases List.eq_nil_or_concat r with rfl | ⟨init, last, rfl⟩
      · left
        rw [rightmostLeaf, rightmostOfLast_concat] at hnode
        exact ⟨by simp, hnode⟩
      · -- The last leaf lies below the last child, behind the child `c`.
        right
        rw [List.concat_eq_append] at *
        have heq : l ++ c :: (init ++ [last]) = (l ++ c :: init) ++ [last] := by simp
        rw [heq, rightmostLeaf, rightmostOfLast_concat] at hnode
        obtain ⟨s₁, ss₁, xs₁, rest, hlast, hxs, hitems⟩ :=
          rightmostLeaf_spec (hch.wf last (by simp))
        cases hlast.symm.trans hnode
        refine ⟨?_, listItems init ++ rest, by simp [hitems]⟩
        simp [hitems, hxs]
    · exact Or.inr ⟨by simp [hne], listItems r ++ rest, by simp⟩

end LastLeaf

namespace Iter

variable {T S : Type} [Zero S] [Add S] [Item T S]

/-- The lower bound behind the items `done`: the subtraction does not underflow, and the
bound is one unless an item of the last leaf was yielded last. -/
theorem sizeHint_spec {iter : Iter T S} (ht : Valid iter.tree) {done : List T} (hat : iter.At done)
    {s : S} {xs : List T} {ss : List S} (hleaf : iter.tree.rightmostLeaf = .ok (.leaf s xs ss)) :
    ∃ lower, iter.sizeHint = .ok (lower, none) ∧
      (done.length + lower ≤ iter.tree.toList.length ↔
        done.length ≤ iter.tree.toList.length - xs.length) := by
  obtain ⟨tree, stack⟩ := iter
  rcases hat with ⟨hstack, rfl⟩ | ⟨pre, x, todo, rfl, hon⟩
  · simp only at hstack
    subst hstack
    refine ⟨_, rfl, ?_⟩
    have := ht.length_childSummaries_le
    simp only [List.length_nil, Nat.zero_add, Nat.zero_le, iff_true]
    exact this
  · simp only at hon ht hleaf
    cases hon with
    | @leaf rest s' ss' l r pre post x p hpath =>
      have hss := (hpath.valid ht).1.leafItems.2
      have hlen : (leaf s' (l ++ x :: r) ss').childSummaries.length = l.length +
        (r.length + 1) := by
        simp [childSummaries_leaf, hss]
      refine ⟨r.length + 1, ?_, ?_⟩
      · simp only [sizeHint, hlen]
        rw [checkedSub_ok (Nat.le_add_right _ _), Nat.add_sub_cancel_left]
        rfl
      · rw [hpath.items]
        simp only [List.length_append, toList_leaf, List.length_cons, List.length_nil]
        rcases hpath.rightmost ht hleaf with ⟨rfl, hnode⟩ | ⟨hne, post', rfl⟩
        · -- The item lies in the last leaf, and the bound counts it again.
          cases hnode
          simp only [List.length_append, List.length_cons, List.length_nil]
          omega
        · have := List.length_pos_of_ne_nil hne
          simp only [List.length_append] at this ⊢
          omega

/-- The lower bound of `Iter::size_hint` after `k` calls of `Iter::next`: it never underflows,
and it is at most the number of items before the next `None` unless the call before yielded an
item of the last leaf. -/
theorem sizeHint_le_iff {t : SumTree T S} (ht : Valid t) {k : ℕ} {iter : Iter T S}
    (hrun : (Iter.new t).calls k = .ok iter) :
    ∃ lower s xs ss, iter.sizeHint = .ok (lower, none) ∧ t.rightmostLeaf = .ok (.leaf s xs ss) ∧
      ((∀ n, iter.StillYields n → lower ≤ n) ↔
        k % (t.toList.length + 1) ≤ t.toList.length - xs.length) := by
  obtain ⟨s, xs, ss, hleaf⟩ := ht.rightmostLeaf
  by_cases hheight : t.height ≤ 15
  · obtain ⟨iter', done, hrun', rfl, hat, hlen⟩ := calls_spec ht hheight k
    cases hrun'.symm.trans hrun
    obtain ⟨lower, hhint, hle⟩ := sizeHint_spec ht hat hleaf
    refine ⟨lower, s, xs, ss, hhint, hleaf, ?_⟩
    rw [← hlen, ← hle]
    constructor
    · intro h
      have hdone := hat.length_le
      have := h (iter.tree.toList.length - done.length)
        ((stillYields_iff ht hheight hat).mpr (by omega))
      omega
    · intro h n hn
      rw [stillYields_iff ht hheight hat] at hn
      omega
  · -- On a tree of more than 16 levels the first call panics.
    obtain ⟨h, hw⟩ : ∃ h, WF h t := ht.resolve_left (by rintro rfl; exact hheight (Nat.zero_le _))
    have hdeep : (Iter.new t).next = .error .capacity := next_deep hw (by
      rw [hw.height_eq] at hheight
      omega)
    have hcalls : ∀ k, (Iter.new t).calls (k + 1) = .error .capacity := by
      intro k
      induction k with
      | zero => rw [calls, calls, ok_bind, hdeep, error_bind]
      | succ k ih => rw [calls, ih, error_bind]
    cases k with
    | zero =>
      cases hrun
      refine ⟨_, s, xs, ss, rfl, hleaf, ?_⟩
      refine iff_of_true (fun n hn => ?_) (by simp)
      cases n with
      | zero =>
        obtain ⟨_, h⟩ := hn
        exact absurd (hdeep.symm.trans h) (by simp)
      | succ n =>
        obtain ⟨_, _, h, -⟩ := hn
        exact absurd (hdeep.symm.trans h) (by simp)
    | succ k => exact absurd ((hcalls k).symm.trans hrun) (by simp)

/-- Two calls on a tree of two leaves: the first leaf is behind the iterator, and the bound is
still one. -/
theorem sizeHint_le_ticks : ∃ (t : SumTree Tick ℕ) (iter : Iter Tick ℕ), Valid t ∧
    (Iter.new t).calls 2 = .ok iter ∧ t.toList = [.tick, .tick, .tick] ∧
    ∃ lower, iter.sizeHint = .ok (lower, none) ∧ ∀ n, iter.StillYields n → lower ≤ n := by
  have hfirst : WF 0 (.leaf 2 [.tick, .tick] [1, 1] : SumTree Tick ℕ) :=
    WF.leaf (show [Tick.tick, Tick.tick] ≠ [] by simp) (by decide)
  have hlast : WF 0 (.leaf 1 [.tick] [1] : SumTree Tick ℕ) := wf_item Tick.tick
  have ht : Valid (.internal 1 3 [2, 1]
      [.leaf 2 [.tick, .tick] [1, 1], .leaf 1 [.tick] [1]] : SumTree Tick ℕ) :=
    Or.inr ⟨1, WF.internal (T := Tick) (List.cons_ne_nil (.leaf 2 [.tick, .tick] [1, 1])
      [.leaf 1 [.tick] [1]]) (by simp [TREE_BASE]) (by simp [hfirst, hlast])⟩
  refine ⟨_, _, ht, rfl, rfl, ?_⟩
  obtain ⟨lower, s, xs, ss, hhint, hleaf, hiff⟩ := sizeHint_le_iff ht (k := 2) rfl
  cases hleaf
  exact ⟨lower, hhint, hiff.mpr (by decide)⟩

/-- One call on a tree of one item: the bound is one, and nothing is left. -/
theorem sizeHint_overestimates : ¬ ∀ (t : SumTree Tick ℕ), Valid t → ∀ (k : ℕ) (iter : Iter Tick ℕ),
    (Iter.new t).calls k = .ok iter →
      ∃ lower, iter.sizeHint = .ok (lower, none) ∧ ∀ n, iter.StillYields n → lower ≤ n := by
  intro h
  obtain ⟨lower, hhint, hle⟩ := h (.leaf 1 [.tick] [1]) (Or.inr ⟨0, wf_item Tick.tick⟩) 1 _ rfl
  cases hhint
  exact absurd (hle 0 ⟨_, rfl⟩) (by decide)

end Iter

end Zui
