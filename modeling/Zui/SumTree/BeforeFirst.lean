/-
Forward seeks from before the first item.

A cursor that ran off the start of its tree has an empty stack and is not at the end.
`search_forward` then starts at the root; `seek_internal` does not ask whether it is at the
end and takes the empty stack for the right one.  Nothing is passed, and the cursor ends
behind the last item with the position zero.

* `seekInternal_beforeFirst` — what the seek does there;
* `seekInternal_stops`, `seekInternal_all` — what it does from a new cursor, on trees of any
  number of levels;
* `forward_seeks_before_first` — when the two agree: hardly ever.
-/
import Zui.SumTree.Find
import Zui.SumTree.Kept
import Zui.SumTree.Slices

namespace Zui

namespace Cursor

open SumTree

variable {T S D : Type}

/-- Two cursors that every query answers alike. -/
structure SamePlace [Dimension D S] (c c' : Cursor T S D) : Prop where
  start : c.start = c'.start
  item : c.item = c'.item
  nextItem : c.nextItem = c'.nextItem
  prevItem : c.prevItem = c'.prevItem

/-- Two seeks that hand over the same and end at the same place, or panic alike. -/
def Alike [Dimension D S] {A : Type} (same : A → A → Prop) (r r' : Result (Cursor T S D × A)) :
    Prop :=
  (∃ e, r = .error e ∧ r' = .error e) ∨
    ∃ c a c' a', r = .ok (c, a) ∧ r' = .ok (c', a') ∧ SamePlace c c' ∧ same a a'

section Seeking

variable [Zero S] [Add S] [Item T S] [Dimension D S] {A : Type} [SeekAggregate A T S]
  {t : SumTree T S} {c : Cursor T S D} {target : SeekTarget D} {bias : Bias} {h : ℕ}

theorem BeforeFirst.observes (ht : Valid t) (hc : c.BeforeFirst t) :
    c.start = Dimension.zero S ∧ c.item = .ok none ∧ c.nextItem = .ok t.toList.head? := by
  obtain ⟨rfl, hd, hstack, hposition, hend⟩ := hc
  refine ⟨hposition, item_of_nil hd hstack, ?_⟩
  rw [nextItem_of_nil ht hd hstack, hend]
  rfl

omit [Zero S] [Add S] [Item T S] in
/-- From before the first item, a seek passes nothing and ends behind the last one. -/
theorem seekInternal_beforeFirst (hc : c.BeforeFirst t) (hge : (target (Dimension.zero S)).isGE)
    (a : A) :
    c.seekInternal target bias a
      = .ok (⟨t, [], Dimension.zero S, true, true⟩, a, target (Dimension.zero S) = .eq) := by
  obtain ⟨tree, stack, position, didSeek, atEnd⟩ := c
  obtain ⟨htree, hd, hstack, hposition, hend⟩ := hc
  simp only at htree hd hstack hposition hend
  subst htree hd hstack hposition hend
  have hend : (⟨tree, [], Dimension.zero S, true, true⟩ : Cursor T S D).endOfSeek bias
      = .ok (Dimension.zero S) := by
    have hitem : (⟨tree, [], Dimension.zero S, true, true⟩ : Cursor T S D).itemSummary
        = .ok none := rfl
    rw [endOfSeek, hitem]
    cases bias <;> rfl
  rw [seekInternal, if_pos hge]
  simp only [startSeek, if_true, ok_bind]
  rw [show loop .outOfFuel (seekPass target bias) (stackFuel ([] : List (StackEntry T S D)))
    ⟨[], Dimension.zero S, a, false⟩ = .ok ([], Dimension.zero S, a) from rfl, ok_bind]
  simp only [List.isEmpty_nil, hend, ok_bind]

/-! ### A seek that stops -/

/-- Between children that are not all passed, a seek goes into one whose end is not passed. -/
theorem seekTrees_stops [LawfulSummary S] [LawfulDimension D S] :
    ∀ {ts : List (SumTree T S)} (pre : List T) {entry : StackEntry T S D}
      {r : StackEntry T S D × D × Unit × Option (SumTree T S)}, ts ≠ [] → (∀ u ∈ ts, WF h u) →
      passes bias (target (positionAfter D (pre ++ listItems ts))) = false →
      seekTrees target bias (ts.zip (ts.map SumTree.summary)) entry
        (positionAfter D pre) () = .ok r →
      ∃ pre' u, u ∈ ts ∧ r.2.1 = positionAfter D pre' ∧ r.2.2.2 = some u ∧
        passes bias (target (positionAfter D (pre' ++ u.toList))) = false := by
  intro ts
  induction ts with
  | nil =>
    intro pre entry r hne
    exact absurd rfl hne
  | cons u us ih =>
    intro pre entry r _ hus hend hrun
    have hu : WF h u := hus u (by simp)
    have hchild : Dimension.addSummary (positionAfter D pre) u.summary
        = positionAfter D (pre ++ u.toList) := by
      rw [hu.summary_eq, ← positionAfter_append _ hu.toList_ne_nil]
    rw [List.map_cons, List.zip_cons_cons, seekTrees, hchild] at hrun
    by_cases hpass : passes bias (target (positionAfter D (pre ++ u.toList))) = true
    · -- The child is passed, so it is not the last one.
      rw [if_pos hpass] at hrun
      have hne : us ≠ [] := by
        rintro rfl
        rw [listItems_cons, listItems_nil, List.append_nil, hpass] at hend
        exact absurd hend (by simp)
      rw [listItems_cons, ← List.append_assoc] at hend
      obtain ⟨pre', v, hv, hr⟩ :=
        ih (pre ++ u.toList) hne (fun v hv => hus v (by simp [hv])) hend hrun
      exact ⟨pre', v, by simp [hv], hr⟩
    · rw [if_neg hpass] at hrun
      cases hrun
      exact ⟨pre, u, by simp, rfl, rfl, by simpa using hpass⟩

omit [Zero S] [Add S] in
/-- Between items that are not all passed, a seek stops at one of them. -/
theorem seekItems_stops : ∀ {xs : List T} (pre : List T) {entry : StackEntry T S D}
    {r : StackEntry T S D × D × Unit × Bool}, xs ≠ [] →
      passes bias (target (positionAfter D (pre ++ xs))) = false →
      seekItems target bias (xs.zip (xs.map (Item.summary (S := S)))) entry (positionAfter D pre) ()
        = .ok r →
      r.2.2.2 = true ∧ r.1.tree = entry.tree ∧ r.1.index < entry.index + xs.length := by
  intro xs
  induction xs with
  | nil =>
    intro pre entry r hne
    exact absurd rfl hne
  | cons x xs ih =>
    intro pre entry r _ hend hrun
    rw [List.map_cons, List.zip_cons_cons, seekItems, ← positionAfter_concat] at hrun
    by_cases hpass : passes bias (target (positionAfter D (pre ++ [x]))) = true
    · rw [if_pos hpass] at hrun
      have hne : xs ≠ [] := by
        rintro rfl
        rw [hpass] at hend
        exact absurd hend (by simp)
      obtain ⟨hstop, htree, hlt⟩ := ih (pre ++ [x]) hne (by simpa using hend) hrun
      refine ⟨hstop, htree, ?_⟩
      simp only [List.length_cons] at hlt ⊢
      omega
    · rw [if_neg hpass] at hrun
      cases hrun
      exact ⟨rfl, rfl, by simp⟩

/-- A seek on its way down, at the left edge of a node that it does not pass. -/
def Descending (target : SeekTarget D) (bias : Bias) (s : Seeking T S D Unit) : Prop :=
  ∃ h u pre p rest, s.stack = ⟨u, 0, p⟩ :: rest ∧ s.ascending = false ∧ WF h u ∧
    s.position = positionAfter D pre ∧
    passes bias (target (positionAfter D (pre ++ u.toList))) = false

/-- One pass on the way down: another level, or the end at an item. -/
theorem seekPass_descending [LawfulSummary S] [LawfulDimension D S] {s : Seeking T S D Unit}
    {r : Pass (Seeking T S D Unit) (List (StackEntry T S D) × D × Unit)}
    (hs : Descending target bias s) (hrun : seekPass target bias s = .ok r) :
    (∃ s', r = .next s' ∧ Descending target bias s') ∨ ∃ b, r = .done b ∧ AtItem b.1 := by
  obtain ⟨stack, position, a, ascending⟩ := s
  obtain ⟨h, u, pre, p, rest, hstack, hasc, hu, hposition, hend⟩ := hs
  simp only at hstack hasc hposition
  subst hstack hasc hposition
  cases hu with
  | @leaf xs hne hlen =>
    right
    simp only [seekPass, sliceFrom, Nat.zero_le, if_true, List.drop_zero, ok_bind, bind_eq_ok,
      SeekAggregate.beginLeaf, SeekAggregate.endLeaf] at hrun
    obtain ⟨⟨entry, position', a', stopped⟩, hitems, hr⟩ := hrun
    rw [toList_leaf] at hend
    obtain ⟨hstop, htree, hlt⟩ := seekItems_stops pre hne hend hitems
    simp only at hstop htree hlt
    subst hstop
    cases hr
    obtain ⟨tree, i, p'⟩ := entry
    simp only at htree hlt
    subst htree
    exact ⟨_, rfl, _, xs, _, i, p', rest, rfl, by omega⟩
  | @internal h ts hne hlen hts =>
    left
    simp only [seekPass, sliceFrom, Nat.zero_le, if_true, List.drop_zero, ok_bind, bind_eq_ok,
      Bool.false_eq_true, if_false] at hrun
    obtain ⟨⟨entry, position', a', child⟩, htrees, hr⟩ := hrun
    rw [toList_internal] at hend
    obtain ⟨pre', v, hv, hposition', hchild, hend'⟩ := seekTrees_stops pre hne hts hend htrees
    simp only at hposition' hchild
    subst hposition' hchild
    obtain ⟨stack', hpush, hr⟩ := bind_eq_ok.mp hr
    cases hr
    have hstack' : stack' = ⟨v, 0, positionAfter D pre'⟩ :: entry :: rest := by
      rw [pushEntry] at hpush
      split at hpush
      · exact (Except.ok.inj hpush).symm
      · exact absurd hpush (by simp)
    exact ⟨_, rfl, h, v, pre', _, _, hstack', rfl, hts v hv, rfl, hend'⟩

/-- A seek from a new cursor that does not pass the whole tree ends at an item, unless it
panics. -/
theorem seekInternal_stops [LawfulSummary S] [LawfulDimension D S] (hw : WF h t)
    (hend : passes bias (target (positionAfter D t.toList)) = false)
    {r : Cursor T S D × Unit × Bool}
    (hrun : (Cursor.new t : Cursor T S D).seekInternal target bias () = .ok r) :
    r.1.item ≠ .ok none := by
  rw [seekInternal] at hrun
  by_cases hge : (target (Cursor.new t : Cursor T S D).position).isGE = true
  · rw [if_pos hge] at hrun
    simp only [bind_eq_ok] at hrun
    obtain ⟨stack, hstart, ⟨stack', position, a⟩, hloop, endPosition, -, hr⟩ := hrun
    obtain rfl : [⟨t, 0, Dimension.zero S⟩] = stack := by
      simpa [startSeek, Cursor.new, pushEntry] using hstart
    have hbegin : Descending target bias
        ⟨[⟨t, 0, Dimension.zero S⟩], (Cursor.new t : Cursor T S D).position, (), false⟩ :=
      ⟨h, t, [], _, [], rfl, rfl, hw, rfl, hend⟩
    have hat : AtItem stack' := by
      refine loop_partial (Descending target bias) (fun b => AtItem b.1) (fun s s' hs hpass => ?_)
        (fun s b hs hpass => ?_) hbegin hloop
      · rcases seekPass_descending hs hpass with ⟨s'', hnext, hs'⟩ | ⟨b, hdone, -⟩
        · cases hnext
          exact hs'
        · exact absurd hdone (by simp)
      · rcases seekPass_descending hs hpass with ⟨s'', hnext, -⟩ | ⟨b', hdone, hb⟩
        · exact absurd hnext (by simp)
        · cases hdone
          exact hb
    cases hr
    exact AtItem.item hat
  · rw [if_neg hge] at hrun
    exact absurd hrun (by simp)

/-! ### A seek that passes everything -/

/-- What a seek collects that passes all of a tree from its root. -/
def passAll (a : A) : SumTree T S → Result A
  | .internal _ _ childSummaries childTrees =>
    (childTrees.zip childSummaries).foldlM (fun a child =>
      SeekAggregate.pushTree a child.1 child.2) a
  | .leaf _ items itemSummaries => do
    let a ← (items.zip itemSummaries).foldlM (fun a item =>
      SeekAggregate.pushItem a item.1 item.2) (SeekAggregate.beginLeaf T S a)
    SeekAggregate.endLeaf T S a

/-- The target passes the location behind each of the items. -/
def PassesAll (target : SeekTarget D) (bias : Bias) (pre xs : List T) : Prop :=
  ∀ ys, ys ≠ [] → ys <+: xs → passes bias (target (positionAfter D (pre ++ ys))) = true

omit [Zero S] [Add S] [SeekAggregate A T S] in
theorem PassesAll.tail {pre xs ys : List T} (h : PassesAll (S := S) target bias pre (xs ++ ys)) :
    PassesAll (S := S) target bias (pre ++ xs) ys := by
  intro zs hne hprefix
  rw [List.append_assoc]
  refine h (xs ++ zs) (by simp [hne]) ?_
  exact (List.prefix_append_right_inj xs).mpr hprefix

omit [Zero S] [Add S] [SeekAggregate A T S] in
theorem passesAll_of_mono {items : List T} (hmono : MonotoneOn target items)
    (hend : passes bias (target (positionAfter D items)) = true) :
    PassesAll (S := S) target bias [] items := by
  rintro ys - ⟨zs, rfl⟩
  exact hmono.passes_append hend

variable (A) in
theorem seekTrees_all [LawfulSummary S] [LawfulDimension D S] :
    ∀ {ts : List (SumTree T S)} {pre : List T} (entry : StackEntry T S D),
      (∀ u ∈ ts, WF h u) → PassesAll (S := S) target bias pre (listItems ts) →
      ∃ entry', ∀ a : A,
        seekTrees target bias (ts.zip (ts.map SumTree.summary)) entry (positionAfter D pre) a
          = (ts.zip (ts.map SumTree.summary)).foldlM
              (fun a child => SeekAggregate.pushTree a child.1 child.2) a >>= fun a' =>
            .ok (entry', positionAfter D (pre ++ listItems ts), a', none) := by
  intro ts
  induction ts with
  | nil =>
    intro pre entry _ _
    refine ⟨entry, fun a => ?_⟩
    rw [listItems_nil, List.append_nil]
    rfl
  | cons u us ih =>
    intro pre entry hus hall
    have hu : WF h u := hus u (by simp)
    have hchild : Dimension.addSummary (positionAfter D pre) u.summary
        = positionAfter D (pre ++ u.toList) := by
      rw [hu.summary_eq, ← positionAfter_append _ hu.toList_ne_nil]
    rw [listItems_cons] at hall ⊢
    have hpass : passes bias (target (positionAfter D (pre ++ u.toList))) = true :=
      hall _ hu.toList_ne_nil (List.prefix_append _ _)
    obtain ⟨entry', hrun⟩ := ih { entry with
        index := entry.index + 1, position := positionAfter D (pre ++ u.toList) }
      (fun v hv => hus v (by simp [hv])) hall.tail
    refine ⟨entry', fun a => ?_⟩
    rw [List.map_cons, List.zip_cons_cons, seekTrees, hchild, if_pos hpass, List.foldlM_cons]
    cases hpush : SeekAggregate.pushTree a u u.summary with
    | error e => rfl
    | ok a' =>
      rw [ok_bind, ok_bind, hrun, List.append_assoc]

variable (A) in
omit [Zero S] [Add S] in
theorem seekItems_all : ∀ {xs : List T} {pre : List T} (entry : StackEntry T S D),
      PassesAll (S := S) target bias pre xs →
      ∃ entry', ∀ a : A,
        seekItems target bias (xs.zip (xs.map (Item.summary (S := S)))) entry
          (positionAfter D pre) a
          = (xs.zip (xs.map (Item.summary (S := S)))).foldlM
              (fun a item => SeekAggregate.pushItem a item.1 item.2) a >>= fun a' =>
            .ok (entry', positionAfter D (pre ++ xs), a', false) := by
  intro xs
  induction xs with
  | nil =>
    intro pre entry _
    refine ⟨entry, fun a => ?_⟩
    rw [List.append_nil]
    rfl
  | cons x xs ih =>
    intro pre entry hall
    have hpass : passes bias (target (positionAfter D (pre ++ [x]))) = true :=
      hall [x] (by simp) (by simp)
    obtain ⟨entry', hrun⟩ := ih { entry with index := entry.index + 1 }
      (PassesAll.tail (show PassesAll (S := S) target bias pre ([x] ++ xs) from hall))
    refine ⟨entry', fun a => ?_⟩
    rw [List.map_cons, List.zip_cons_cons, seekItems, ← positionAfter_concat, if_pos hpass,
      List.foldlM_cons]
    cases hpush : SeekAggregate.pushItem a x (Item.summary x : S) with
    | error e => rfl
    | ok a' =>
      rw [ok_bind, ok_bind, hrun, List.append_assoc]
      rfl

/-- A seek from a new cursor that passes the whole tree takes what is at the root, and ends
behind the last item. -/
theorem seekInternal_all [LawfulSummary S] [LawfulDimension D S] (hw : WF h t)
    (hmono : MonotoneOn target t.toList) (hge : (target (Dimension.zero S)).isGE)
    (hend : passes bias (target (positionAfter D t.toList)) = true) (a : A) :
    (Cursor.new t : Cursor T S D).seekInternal target bias a
      = (do
        let a' ← passAll a t
        .ok (⟨t, [], positionAfter D t.toList, true, true⟩, a',
          target (positionAfter D t.toList) = .eq)) := by
  have hpasses := passesAll_of_mono hmono hend
  have hpass : seekPass target bias
      (⟨[⟨t, 0, Dimension.zero S⟩], Dimension.zero S, a, false⟩ : Seeking T S D A)
      = passAll a t >>= fun a' => .ok (.next ⟨[], positionAfter D t.toList, a', true⟩) := by
    cases hw with
    | @leaf xs hne hlen =>
      obtain ⟨entry', hrun⟩ := seekItems_all A ⟨.leaf (sumItems xs) xs
        (xs.map Item.summary), 0, Dimension.zero S⟩ hpasses
      simp only [toList_leaf, positionAfter_nil, List.nil_append] at hrun ⊢
      simp only [seekPass, passAll, sliceFrom, Nat.zero_le, if_true, List.drop_zero, ok_bind]
      rw [hrun]
      cases hfold : (xs.zip (xs.map (Item.summary (S := S)))).foldlM
          (fun a item => SeekAggregate.pushItem a item.1 item.2)
          (SeekAggregate.beginLeaf T S a) with
      | error e => rfl
      | ok a' => rfl
    | @internal h ts hne hlen hts =>
      obtain ⟨entry', hrun⟩ := seekTrees_all A ⟨.internal (h + 1)
        (sumItems (listItems ts)) (ts.map SumTree.summary) ts, 0, Dimension.zero S⟩ hts hpasses
      simp only [toList_internal, positionAfter_nil, List.nil_append] at hrun ⊢
      simp only [seekPass, passAll, sliceFrom, Nat.zero_le, if_true, List.drop_zero, ok_bind,
        Bool.false_eq_true, if_false]
      rw [hrun]
      cases hfold : (ts.zip (ts.map SumTree.summary)).foldlM
          (fun a child => SeekAggregate.pushTree a child.1 child.2) a with
      | error e => rfl
      | ok a' => rfl
  have hstart : (Cursor.new t : Cursor T S D).startSeek = .ok [⟨t, 0, Dimension.zero S⟩] := rfl
  rw [seekInternal, if_pos (show (target (Cursor.new t : Cursor T S D).position).isGE from hge),
    hstart, ok_bind]
  -- One pass leaves the root, and the next one ends with the empty stack.
  obtain ⟨n, hn⟩ : ∃ n, stackFuel [(⟨t, 0, Dimension.zero S⟩ : StackEntry T S D)] = n + 1 + 1 := by
    have := hw.lt_weight
    exact ⟨t.weight - 1, by simp [stackFuel]; omega⟩
  rw [hn]
  cases hall : passAll a t with
  | error e =>
    rw [hall] at hpass
    rw [show (Cursor.new t : Cursor T S D).position = Dimension.zero S from rfl, loop_error hpass]
    rfl
  | ok a' =>
    rw [hall] at hpass
    rw [show (Cursor.new t : Cursor T S D).position = Dimension.zero S from rfl, loop_next hpass,
      loop_done rfl]
    cases bias <;> rfl

/-! ### What is collected at the root -/

omit [Zero S] [Add S] [Item T S] [Dimension D S] in
theorem passAll_unit (t : SumTree T S) : passAll () t = .ok () := by
  have hfold : ∀ {α : Type} (xs : List α),
      xs.foldlM (fun (_ : Unit) (_ : α) => (.ok () : Result Unit)) () = .ok () := by
    intro α xs
    induction xs with
    | nil => rfl
    | cons x xs ih => rw [List.foldlM_cons, ok_bind, ih]
  cases t with
  | internal _ _ ss ts => exact hfold _
  | leaf _ xs ss =>
    simp only [passAll, SeekAggregate.pushItem, SeekAggregate.beginLeaf, hfold, ok_bind]
    rfl

/-- The dimension over everything is the one behind the last item. -/
theorem passAll_summary {Output : Type} [Dimension Output S] [LawfulSummary S]
    [LawfulDimension Output S] (hw : WF h t) :
    passAll (⟨Dimension.zero S⟩ : SummarySeekAggregate Output) t
      = .ok ⟨positionAfter Output t.toList⟩ := by
  cases hw with
  | @leaf xs hne hlen =>
    have hfold : ∀ (xs : List T) (p : Output),
        (xs.zip (xs.map (Item.summary (S := S)))).foldlM (fun (a : SummarySeekAggregate Output)
          item => (SeekAggregate.pushItem a item.1 item.2 : Result _)) ⟨p⟩
          = .ok ⟨(xs.map (Item.summary (S := S))).foldl Dimension.addSummary p⟩ := by
      intro xs
      induction xs with
      | nil =>
        intro p
        rfl
      | cons x xs ih =>
        intro p
        rw [List.map_cons, List.zip_cons_cons, List.foldlM_cons]
        exact ih _
    simp only [passAll, SeekAggregate.beginLeaf, hfold, ok_bind, SeekAggregate.endLeaf, toList_leaf]
    rw [positionAfter, List.foldl_map]
  | @internal h ts hne hlen hts =>
    have hfold : ∀ (ts : List (SumTree T S)) (p : Output),
        (ts.zip (ts.map SumTree.summary)).foldlM (fun (a : SummarySeekAggregate Output)
          child => (SeekAggregate.pushTree a child.1 child.2 : Result _)) ⟨p⟩
          = .ok ⟨(ts.map SumTree.summary).foldl Dimension.addSummary p⟩ := by
      intro ts
      induction ts with
      | nil =>
        intro p
        rfl
      | cons u us ih =>
        intro p
        rw [List.map_cons, List.zip_cons_cons, List.foldlM_cons]
        exact ih _
    have htotal : Exactly ([] ++ listItems ts)
        ((ts.map SumTree.summary).foldl Dimension.addSummary (Dimension.zero S : Output)) :=
      tracks_exactly.children hts rfl
    simp only [passAll, hfold]
    rw [show _ = _ from htotal]
    rfl

/-- The tree over everything, if it can be built, holds all of the items. -/
theorem passAll_slice [LawfulSummary S] (hw : WF h t) {a : SliceSeekAggregate T S}
    (hrun : passAll (⟨.new, [], [], 0⟩ : SliceSeekAggregate T S) t = .ok a) :
    a.tree.toList = t.toList := by
  cases hw with
  | @leaf xs hne hlen =>
    obtain ⟨b, hin, hb⟩ : ∃ b, (xs.zip (xs.map (Item.summary (S := S)))).foldlM
        (fun (a : SliceSeekAggregate T S) item => SeekAggregate.pushItem a item.1 item.2)
        ⟨.new, [], [], 0⟩ = .ok b ∧ SliceIn [] xs b := by
      -- a leaf gives its items one by one, which the aggregate has room for
      have hfold : ∀ (xs inner : List T) (a : SliceSeekAggregate T S),
          (inner ++ xs).length ≤ 2 * TREE_BASE → SliceIn [] inner a →
          ∃ b, (xs.zip (xs.map (Item.summary (S := S)))).foldlM
            (fun (a : SliceSeekAggregate T S) item => SeekAggregate.pushItem a item.1 item.2) a
              = .ok b ∧ SliceIn [] (inner ++ xs) b := by
        intro xs
        induction xs with
        | nil =>
          intro inner a _ hin
          exact ⟨a, rfl, by simpa using hin⟩
        | cons x xs ih =>
          intro inner a hroom hin
          simp only [List.length_append, List.length_cons] at hroom
          obtain ⟨a', hpush, hin'⟩ := collects_slice.pushItem x hin (by omega)
          obtain ⟨b, hrun, hb⟩ := ih (inner ++ [x]) a' (by simp; omega) hin'
          refine ⟨b, ?_, by simpa using hb⟩
          rw [List.map_cons, List.zip_cons_cons, List.foldlM_cons, hpush, ok_bind, hrun]
      exact hfold xs [] _ hlen (collects_slice.beginLeaf sliceOut_new)
    have hmax : ([] ++ xs).length ≤ maxItems := by
      have : 2 * TREE_BASE ≤ maxItems := by decide
      rw [List.nil_append]
      omega
    obtain ⟨b', hend, hout⟩ := collects_slice.endLeaf hb hlen hmax
    simp only [passAll, SeekAggregate.beginLeaf] at hrun hin
    rw [hin, ok_bind, hend] at hrun
    cases hrun
    rw [hout.items]
    rfl
  | @internal h ts hne hlen hts =>
    -- each child is appended whole
    have hfold : ∀ (ts : List (SumTree T S)) (a : SliceSeekAggregate T S), (∀ u ∈ ts, WF h u) →
        Valid a.tree → ∀ b, (ts.zip (ts.map SumTree.summary)).foldlM
          (fun (a : SliceSeekAggregate T S) child => SeekAggregate.pushTree a child.1 child.2) a
            = .ok b → b.tree.toList = a.tree.toList ++ listItems ts := by
      intro ts
      induction ts with
      | nil =>
        intro a _ _ b hrun
        cases hrun
        simp
      | cons u us ih =>
        intro a hus ha b hrun
        rw [List.map_cons, List.zip_cons_cons, List.foldlM_cons, bind_eq_ok] at hrun
        obtain ⟨a', hpush, hrun⟩ := hrun
        obtain ⟨tree, happend, ha'⟩ := bind_eq_ok.mp hpush
        cases ha'
        have hu : WF h u := hus u (by simp)
        rcases append_joins ha hu.valid (le_max_left _ _) (le_max_right _ _) with
          ⟨tree', hrun', hjoined⟩ | ⟨-, herr⟩
        · obtain rfl : tree = tree' := Except.ok.inj (happend.symm.trans hrun')
          rw [ih _ (fun v hv => hus v (by simp [hv])) hjoined.valid b hrun, hjoined.items,
            listItems_cons, List.append_assoc]
        · -- an append that fails ends the pass
          exact absurd (happend.symm.trans herr) (by simp)
    rw [hfold ts _ hts valid_new a hrun]
    simp

/-! ### Both seeks -/

/-- **Before the first item and new.**  A seek from before the first item, and one from a new
cursor: they agree when both are refused, or when the whole tree is passed, its items take the
position nowhere, and what was collected is like nothing. -/
theorem seekInternal_alike [LawfulSummary S] [LawfulDimension D S] {B : Type}
    {same : B → B → Prop} (hw : WF h t) (hc : c.BeforeFirst t) (hmono : MonotoneOn target t.toList)
    (a : A) (give : A → Bool → B) :
    Alike same
      (do let (c, a, found) ← (Cursor.new t : Cursor T S D).seekInternal target bias a
          .ok (c, give a found))
      (do let (c, a, found) ← c.seekInternal target bias a
          .ok (c, give a found)) ↔
    (target (Dimension.zero S)).isGE = false ∨
      passes bias (target (positionAfter D t.toList)) = true ∧
        positionAfter D t.toList = Dimension.zero S ∧
        ∃ a', passAll a t = .ok a' ∧ same (give a' (target (Dimension.zero S) = .eq))
          (give a (target (Dimension.zero S) = .eq)) := by
  by_cases hge : (target (Dimension.zero S)).isGE = true
  · rw [seekInternal_beforeFirst hc hge]
    simp only [hge, Bool.true_eq_false, false_or]
    by_cases hend : passes bias (target (positionAfter D t.toList)) = true
    · -- The new cursor passes the tree as well, but ends at its length.
      rw [seekInternal_all hw hmono hge hend]
      constructor
      · rintro (⟨e, -, herr⟩ | ⟨c₁, b, c₁', b', hrun, hrun', hplace, hsame⟩)
        · exact absurd herr (by simp)
        · cases hall : passAll a t with
          | error e =>
            rw [hall] at hrun
            exact absurd hrun (by simp)
          | ok a' =>
            rw [hall] at hrun
            cases hrun
            cases hrun'
            have hzero : positionAfter D t.toList = Dimension.zero S := hplace.start
            rw [hzero] at hsame
            exact ⟨hend, hzero, a', rfl, hsame⟩
      · rintro ⟨-, hzero, a', hall, hsame⟩
        rw [hall, hzero]
        exact Or.inr ⟨_, _, _, _, rfl, rfl, ⟨rfl, rfl, rfl, rfl⟩, hsame⟩
    · -- The new cursor stops at an item.
      have hend : passes bias (target (positionAfter D t.toList)) = false := by simpa using hend
      simp only [hend, Bool.false_eq_true, false_and, iff_false]
      rintro (⟨e, -, herr⟩ | ⟨c₁, b, c₁', b', hrun, hrun', hplace, -⟩)
      · exact absurd herr (by simp)
      · obtain ⟨⟨c₂, a', found⟩, hseek, hr⟩ := bind_eq_ok.mp hrun
        cases hr
        cases hrun'
        have hitem := seekInternal_stops hw hend (seekInternal_forget hseek)
        exact hitem (hplace.item.trans rfl)
  · have hlt : (target (Dimension.zero S)).isGE = false := by simpa using hge
    refine ⟨fun _ => Or.inl hlt, fun _ => Or.inl ⟨.seekBackward, ?_, ?_⟩⟩
    · rw [seekInternal, if_neg (show ¬(target (Cursor.new t : Cursor T S D).position).isGE = true
        from hge)]
      rfl
    · rw [seekInternal, hc.position, if_neg hge]
      rfl

end Seeking

end Cursor

open SumTree Cursor

/-- **Forward seeks from before the first item.**  Let a run of calls on a non-empty tree, of
any number of levels, end with a backward search that finds nothing.  The cursor is then at
zero, and the first item is next.  A forward seek from there does what it does from a new
cursor only if the target is refused, or, for `seek_forward` and `summary`, if the target
passes all items and they add nothing; a suffix never does. -/
theorem forward_seeks_before_first {T S D : Type} (Output : Type) [Zero S] [Add S] [Item T S]
    [LawfulSummary S] [Dimension D S] [LawfulDimension D S] [Dimension Output S]
    [LawfulDimension Output S] {t : SumTree T S} (ht : Valid t) (hne : t.toList ≠ [])
    (moves : List (Move S D)) {c₀ c : Cursor T S D}
    (hmoves : Move.runAll moves (Cursor.new t) = .ok c₀) (filterNode : S → Bool)
    (hback : c₀.searchBackward filterNode = .ok c) (hitem : c.item = .ok none) :
    (c.start = Dimension.zero S ∧ c.nextItem = .ok t.toList.head?) ∧
    (∀ target bias, MonotoneOn target t.toList →
      (Alike (fun a b => a.toList = b.toList) ((Cursor.new t).slice target bias)
          (c.slice target bias) ↔
        (target (Dimension.zero S)).isGE = false) ∧
      (Alike (· = ·) ((Cursor.new t).seekForward target bias) (c.seekForward target bias) ↔
        (target (Dimension.zero S)).isGE = false ∨
          passes bias (target (positionAfter D t.toList)) = true ∧
            positionAfter D t.toList = Dimension.zero S) ∧
      (Alike (· = ·) ((Cursor.new t).summary Output target bias) (c.summary Output target bias) ↔
        (target (Dimension.zero S)).isGE = false ∨
          passes bias (target (positionAfter D t.toList)) = true ∧
            positionAfter D t.toList = Dimension.zero S ∧
            positionAfter Output t.toList = Dimension.zero S)) ∧
    ¬ Alike (fun a b => a.toList = b.toList) (Cursor.new t : Cursor T S D).suffix c.suffix := by
  have hempty : t.isEmpty = false := by
    rw [ht.isEmpty_eq]
    simpa using hne
  obtain ⟨h, hw⟩ : ∃ h, WF h t := by
    rcases ht with rfl | hw
    · exact absurd rfl hne
    · exact hw
  have hc : c.BeforeFirst t :=
    searchBackward_off ht hempty (Move.runAll_kept ht (Move.kept_new t) hmoves) hback hitem
  have hslice : ∀ target bias, MonotoneOn target t.toList →
      (Alike (fun a b => a.toList = b.toList) ((Cursor.new t).slice target bias)
        (c.slice target bias) ↔ (target (Dimension.zero S)).isGE = false) := by
    intro target bias hmono
    refine (seekInternal_alike hw hc hmono (⟨.new, [], [], 0⟩ : SliceSeekAggregate T S)
      fun a _ => a.tree).trans ⟨?_, Or.inl⟩
    rintro (hlt | ⟨-, -, a', hall, hsame⟩)
    · exact hlt
    · rw [passAll_slice hw hall] at hsame
      exact absurd hsame hne
  refine ⟨⟨(hc.observes ht).1, (hc.observes ht).2.2⟩, fun target bias hmono =>
    ⟨hslice target bias hmono, ?_, ?_⟩, fun halike => ?_⟩
  · refine (seekInternal_alike hw hc hmono () fun _ found => found).trans (or_congr_right ?_)
    constructor
    · rintro ⟨hpass, hzero, -⟩
      exact ⟨hpass, hzero⟩
    · rintro ⟨hpass, hzero⟩
      exact ⟨hpass, hzero, (), passAll_unit t, rfl⟩
  · refine (seekInternal_alike hw hc hmono (⟨Dimension.zero S⟩ : SummarySeekAggregate Output)
      fun a _ => a.summary).trans (or_congr_right ?_)
    rw [passAll_summary hw]
    constructor
    · rintro ⟨hpass, hzero, a', ha', hsame⟩
      cases ha'
      exact ⟨hpass, hzero, hsame⟩
    · rintro ⟨hpass, hzero, hout⟩
      exact ⟨hpass, hzero, _, rfl, hout⟩
  · have hmono : MonotoneOn (SeekTarget.endOfTree : SeekTarget D) t.toList :=
      fun _ _ _ _ => ⟨id, id⟩
    have hlt := (hslice _ _ hmono).mp halike
    exact absurd hlt (by simp [SeekTarget.endOfTree])

/-- The theorem at a tree of one item and two steps back. -/
theorem forward_seeks_before_first_tick : ∃ (t : SumTree Tick ℕ) (c : Cursor Tick ℕ ℕ),
    Move.runAll [.prev, .prev] (Cursor.new t) = .ok c ∧
    ¬ Alike (fun a b => a.toList = b.toList) (Cursor.new t : Cursor Tick ℕ ℕ).suffix c.suffix := by
  have hw : WF 0 (.leaf 1 [Tick.tick] [1] : SumTree Tick ℕ) := wf_item Tick.tick
  obtain ⟨-, -, hsuffix⟩ := forward_seeks_before_first (D := ℕ) ℕ hw.valid (by simp) [.prev] rfl
    (fun _ => true) rfl rfl
  exact ⟨_, _, rfl, hsuffix⟩

/-- On a tree with one item, a cursor that went back to it and back again is at zero, with
the item next; its suffix is empty, and that of a new cursor is not. -/
theorem suffix_before_first : ∃ (t u v : SumTree Tick ℕ) (c c' c'' : Cursor Tick ℕ ℕ),
    SumTree.fromItem .tick = .ok t ∧ Move.runAll [.prev, .prev] (Cursor.new t) = .ok c ∧
    c.start = 0 ∧ c.item = .ok none ∧ c.nextItem = .ok (some .tick) ∧
    (Cursor.new t : Cursor Tick ℕ ℕ).suffix = .ok (c', u) ∧ u.toList = [.tick] ∧
    c.suffix = .ok (c'', v) ∧ v.toList = [] :=
  ⟨_, _, _, _, _, _, rfl, rfl, rfl, rfl, rfl, rfl, rfl, rfl, rfl⟩

end Zui
