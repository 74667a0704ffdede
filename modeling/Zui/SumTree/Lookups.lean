/-
The lookups without a cursor, against the cursor.

`find`, `find_with_prev` and `find_exact` each have a descent of their own.

* `findWithPrev_spec` — the second is the first one with the item before the found one;
* `findExactIterate_spec` — the third finds the first item that ends at the target;
* `lookups_agree` — what they return is what a new cursor says after a seek, on trees of at
  most 16 levels;
* `lookups_limit` — on a deeper tree they still answer, and the cursor panics.
-/
import Zui.SumTree.Find
import Zui.SumTree.Deep

namespace Zui

namespace SumTree

variable {T S D : Type} [Dimension D S]

/-! ### The lookup that keeps the previous item -/

/-- The leaf arm of `find_with_prev_iterate`. -/
def findWithPrevInItems (target : SeekTarget D) (bias : Bias) :
    List T → List S → Option T → D → D × Option (Option T × T × D)
  | item :: items, itemSummary :: itemSummaries, prev, position =>
    let childEnd := Dimension.addSummary position itemSummary
    if targetInChild bias (target childEnd) then (position, some (prev, item, childEnd))
    else findWithPrevInItems target bias items itemSummaries (some item) childEnd
  | _, _, _, position => (position, none)

mutual

/-- `find_with_prev_iterate`, with the position that it leaves. -/
def findWithPrevIterate (target : SeekTarget D) (bias : Bias) :
    SumTree T S → Option T → D → Result (D × Option (Option T × T × D))
  | internal _ _ childSummaries childTrees, prev, position =>
    findWithPrevInTrees target bias childTrees childSummaries prev position
  | leaf _ items itemSummaries, prev, position =>
    .ok (findWithPrevInItems target bias items itemSummaries prev position)

/-- The internal arm of `find_with_prev_iterate`. -/
def findWithPrevInTrees (target : SeekTarget D) (bias : Bias) :
    List (SumTree T S) → List S → Option T → D → Result (D × Option (Option T × T × D))
  | childTree :: childTrees, childSummary :: childSummaries, prev, position =>
    let childEnd := Dimension.addSummary position childSummary
    if targetInChild bias (target childEnd) then
      findWithPrevIterate target bias childTree prev position
    else do
      let prev ← childTree.last
      findWithPrevInTrees target bias childTrees childSummaries prev childEnd
  | _, _, _, position => .ok (position, none)

end

/-- `find_with_prev`. -/
def findWithPrev (target : SeekTarget D) (bias : Bias) (self : SumTree T S) :
    Result (D × D × Option (Option T × T)) := do
  let treeEnd := Dimension.addSummary (Dimension.zero S) self.summary
  if passes bias (target treeEnd) then .ok (treeEnd, treeEnd, none)
  else
    match ← findWithPrevIterate target bias self none (Dimension.zero S) with
    | (position, some (prev, item, end_)) => .ok (position, end_, some (prev, item))
    | (position, none) => .ok (position, position, none)

/-! ### The lookup that wants an exact match -/

/-- The leaf arm of `find_iterate` for exact matches. -/
def findExactInItems (target : SeekTarget D) : List T → List S → D → D × Option (T × D)
  | item :: items, itemSummary :: itemSummaries, position =>
    let childEnd := Dimension.addSummary position itemSummary
    if target childEnd = .eq then (position, some (item, childEnd))
    else findExactInItems target items itemSummaries childEnd
  | _, _, position => (position, none)

mutual

/-- `find_iterate` for exact matches. -/
def findExactIterate (target : SeekTarget D) (bias : Bias) : SumTree T S → D → D × Option (T × D)
  | internal _ _ childSummaries childTrees, position =>
    findExactInTrees target bias childTrees childSummaries position
  | leaf _ items itemSummaries, position => findExactInItems target items itemSummaries position

/-- The internal arm of `find_iterate` for exact matches. -/
def findExactInTrees (target : SeekTarget D) (bias : Bias) :
    List (SumTree T S) → List S → D → D × Option (T × D)
  | childTree :: childTrees, childSummary :: childSummaries, position =>
    let childEnd := Dimension.addSummary position childSummary
    if targetInChild bias (target childEnd) then findExactIterate target bias childTree position
    else findExactInTrees target bias childTrees childSummaries childEnd
  | _, _, position => (position, none)

end

/-- `find_exact`. -/
def findExact (target : SeekTarget D) (bias : Bias) (self : SumTree T S) : D × D × Option T :=
  let treeEnd := Dimension.addSummary (Dimension.zero S) self.summary
  if passes bias (target treeEnd) then (treeEnd, treeEnd, none)
  else
    match findExactIterate target bias self (Dimension.zero S) with
    | (position, some (item, end_)) => (position, end_, some item)
    | (position, none) => (position, position, none)

variable [Item T S] {target : SeekTarget D} {bias : Bias}

/-! ### What `find_with_prev` finds -/

/-- What a search below some items finds that remembers the item before: the first item that
the target does not pass, and its predecessor. -/
def FoundAfter (target : SeekTarget D) (bias : Bias) (pre xs : List T)
    (r : D × Option (Option T × T × D)) : Prop :=
  Found (fun done x => r = (positionAfter D done,
    some (done.getLast?, x, positionAfter D (done ++ [x])))) target bias pre xs

theorem findWithPrevInItems_spec : ∀ {xs : List T} (pre : List T), xs ≠ [] →
    passes bias (target (positionAfter D (pre ++ xs))) = false →
    FoundAfter (S := S) target bias pre xs (findWithPrevInItems target bias xs
      (xs.map (Item.summary (S := S))) pre.getLast? (positionAfter D pre)) := by
  intro xs
  induction xs with
  | nil =>
    intro pre hne
    exact absurd rfl hne
  | cons x xs ih =>
    intro pre _ hend
    rw [List.map_cons, findWithPrevInItems, targetInChild_eq, ← positionAfter_concat]
    by_cases hpass : passes bias (target (positionAfter D (pre ++ [x]))) = true
    · rw [if_neg (by simp [hpass])]
      have hne : xs ≠ [] := by
        rintro rfl
        rw [hpass] at hend
        exact absurd hend (by simp)
      have hrest := ih (pre ++ [x]) hne (by simpa using hend)
      rw [List.getLast?_concat] at hrest
      exact Found.after hrest hpass
    · rw [if_pos (by simpa using hpass)]
      exact ⟨[], x, xs, rfl, by simp, Or.inl rfl, by simpa using hpass⟩

variable [Zero S] [Add S]

mutual

theorem findWithPrevIterate_spec [LawfulSummary S] [LawfulDimension D S] :
    ∀ {h : ℕ} {t : SumTree T S} (pre : List T), WF h t →
    passes bias (target (positionAfter D (pre ++ t.toList))) = false →
    ∃ r, findWithPrevIterate target bias t pre.getLast? (positionAfter D pre) = .ok r ∧
      FoundAfter (S := S) target bias pre t.toList r
  | _, leaf s xs ss, pre, hw, hend => by
    obtain ⟨-, rfl⟩ := hw.valid.leafItems
    rw [findWithPrevIterate]
    exact ⟨_, rfl, findWithPrevInItems_spec pre (by simpa using hw.toList_ne_nil) hend⟩
  | _, internal h s ss ts, pre, hw, hend => by
    obtain ⟨hne, -, rfl, hts, -⟩ := hw.valid.children
    rw [findWithPrevIterate, toList_internal]
    exact findWithPrevInTrees_spec pre hne hts (by simpa using hend)

/-- The search in a run of sibling nodes that the target does not pass. -/
theorem findWithPrevInTrees_spec [LawfulSummary S] [LawfulDimension D S] :
    ∀ {h : ℕ} {ts : List (SumTree T S)} (pre : List T), ts ≠ [] →
    (∀ t ∈ ts, WF h t) → passes bias (target (positionAfter D (pre ++ listItems ts))) = false →
    ∃ r, findWithPrevInTrees target bias ts (ts.map summary) pre.getLast? (positionAfter D pre)
        = .ok r ∧ FoundAfter (S := S) target bias pre (listItems ts) r
  | _, [], _, hne, _, _ => absurd rfl hne
  | h, t :: ts, pre, _, hts, hend => by
    have ht : WF h t := hts t (by simp)
    have hchild : Dimension.addSummary (positionAfter D pre) t.summary
        = positionAfter D (pre ++ t.toList) := by
      rw [ht.summary_eq, ← positionAfter_append _ ht.toList_ne_nil]
    rw [List.map_cons, findWithPrevInTrees, targetInChild_eq, hchild, listItems_cons]
    by_cases hpass : passes bias (target (positionAfter D (pre ++ t.toList))) = true
    · -- The child is passed, and its last item is remembered.
      rw [if_neg (by simp [hpass]), last_spec ht.valid, ok_bind]
      have hlast : t.toList.getLast? = (pre ++ t.toList).getLast? := by
        rw [List.getLast?_append_of_ne_nil _ ht.toList_ne_nil]
      have hne : ts ≠ [] := by
        rintro rfl
        rw [listItems_cons, listItems_nil, List.append_nil, hpass] at hend
        exact absurd hend (by simp)
      obtain ⟨r, hrun, hr⟩ := findWithPrevInTrees_spec (pre ++ t.toList) hne
        (fun u hu => hts u (by simp [hu])) (by simpa using hend)
      rw [hlast, hrun]
      exact ⟨r, rfl, Found.after hr hpass⟩
    · rw [if_pos (by simpa using hpass)]
      obtain ⟨r, hrun, hr⟩ := findWithPrevIterate_spec pre ht (by simpa using hpass)
      exact ⟨r, hrun, Found.append hr⟩

end

/-- **Finding with the item before.**  `find_with_prev` returns what `find` does, and the item
before the one that it finds. -/
theorem findWithPrev_spec [LawfulSummary S] [LawfulDimension D S] {t : SumTree T S} (ht : Valid t)
    (hmono : MonotoneOn target t.toList) {s : ListCursor}
    (hs : s = .firstFrom (Move.seekStops t.toList target bias) t.toList.length 0) :
    t.findWithPrev target bias = .ok (positionAfter D (t.toList.take (s.start t.toList.length)),
      positionAfter D (t.toList.take (s.upTo t.toList.length)),
      (s.current t.toList).map fun x => (s.preceding t.toList, x)) := by
  have hend : Dimension.addSummary (Dimension.zero S) t.summary = positionAfter D t.toList := by
    rw [positionAfter_eq, ht.summary_eq]
  rw [findWithPrev, hend]
  by_cases hpass : passes bias (target (positionAfter D t.toList)) = true
  · rw [ListCursor.firstFrom_eq_afterLast fun i _ hi => ?_] at hs
    · subst hs
      simp [hpass, ListCursor.start, ListCursor.upTo, ListCursor.current]
    · rw [Move.seekStops, hmono.passes_take (Nat.succ_le_of_lt hi) (Nat.le_refl _)
        (by rwa [List.take_length])]
      rfl
  · simp only [if_neg hpass]
    rcases ht with rfl | ⟨h, hw⟩
    · obtain rfl : s = .afterLast := hs
      rfl
    · obtain ⟨r, hrun, before, x, rest, hitems, hr, hbefore, hstop⟩ :
          ∃ r, findWithPrevIterate target bias t ([] : List T).getLast? (positionAfter D [])
            = .ok r ∧ FoundAfter (S := S) target bias [] t.toList r :=
        findWithPrevIterate_spec [] hw (by simpa using hpass)
      simp only [List.nil_append] at hr hbefore hstop
      rw [List.getLast?_nil, positionAfter_nil] at hrun
      rw [hrun, ok_bind]
      rw [firstFrom_stop hmono hitems hbefore hstop] at hs
      subst hs
      have htake : t.toList.take before.length = before := by
        rw [hitems]
        exact List.take_left' rfl
      have htake' : t.toList.take (before.length + 1) = before ++ [x] := by
        rw [hitems, List.take_length_add_append]
        simp
      have hcurrent : t.toList[before.length]? = some x := by simp [hitems]
      simp only [hr, ListCursor.start, ListCursor.upTo, ListCursor.current, ListCursor.preceding,
        ListCursor.leftOf, htake, htake', hcurrent, Option.map_some]

/-! ### What `find_exact` finds -/

/-- None of some items ends at the target. -/
def NoneEqual (target : SeekTarget D) (pre xs : List T) : Prop :=
  ∀ ys z zs, xs = ys ++ z :: zs → target (positionAfter D (pre ++ ys ++ [z])) ≠ .eq

/-- What a search for an exact match finds below some items: the first item that ends at the
target, or that there is none. -/
def FoundExact (target : SeekTarget D) (pre xs : List T) (r : D × Option (T × D)) : Prop :=
  (∃ before x rest, xs = before ++ x :: rest ∧
    r = (positionAfter D (pre ++ before), some (x, positionAfter D (pre ++ before ++ [x]))) ∧
    target (positionAfter D (pre ++ before ++ [x])) = .eq ∧ NoneEqual (S := S) target pre before) ∨
  (r.2 = none ∧ NoneEqual (S := S) target pre xs)

omit [Zero S] [Add S] in
theorem NoneEqual.append {pre xs ys : List T} (h : NoneEqual (S := S) target pre xs)
    (h' : NoneEqual (S := S) target (pre ++ xs) ys) : NoneEqual (S := S) target pre (xs ++ ys) := by
  intro as z bs hsplit
  rcases List.append_eq_append_iff.mp hsplit with ⟨cs, rfl, hys⟩ | ⟨cs, rfl, hcs⟩
  · rw [← List.append_assoc]
    exact h' cs z bs hys
  · cases cs with
    | nil =>
      rw [List.nil_append] at hcs
      rw [List.append_nil] at h'
      simpa using h' [] z bs hcs.symm
    | cons c cs =>
      obtain ⟨rfl, -⟩ := List.cons_eq_cons.mp hcs
      exact h as z cs rfl

omit [Zero S] [Add S] in
theorem FoundExact.after {pre ys xs : List T} {r : D × Option (T × D)}
    (h : FoundExact (S := S) target (pre ++ ys) xs r) (hnone : NoneEqual (S := S) target pre ys) :
    FoundExact (S := S) target pre (ys ++ xs) r := by
  rcases h with ⟨before, x, rest, rfl, hr, heq, hbefore⟩ | ⟨hr, hrest⟩
  · refine Or.inl ⟨ys ++ before, x, rest, by simp, by simpa using hr, by simpa using heq, ?_⟩
    exact hnone.append hbefore
  · exact Or.inr ⟨hr, hnone.append hrest⟩

omit [Zero S] [Add S] in
theorem findExactInItems_spec : ∀ {xs : List T} (pre : List T),
    FoundExact (S := S) target pre xs
      (findExactInItems target xs (xs.map (Item.summary (S := S))) (positionAfter D pre)) := by
  intro xs
  induction xs with
  | nil =>
    intro pre
    exact Or.inr ⟨rfl, fun ys z zs h => absurd h (by simp)⟩
  | cons x xs ih =>
    intro pre
    rw [List.map_cons, findExactInItems, ← positionAfter_concat]
    by_cases heq : target (positionAfter D (pre ++ [x])) = .eq
    · rw [if_pos heq]
      exact Or.inl ⟨[], x, xs, rfl, by simp, by simpa using heq,
        fun ys z zs h => absurd h (by simp)⟩
    · rw [if_neg heq]
      have hone : NoneEqual (S := S) target pre [x] := by
        intro ys z zs h
        obtain ⟨rfl, rfl, -⟩ : ys = [] ∧ z = x ∧ zs = [] := by
          cases ys with
          | nil => simpa [eq_comm] using h
          | cons y ys => simp at h
        simpa using heq
      exact (ih (pre ++ [x])).after hone

omit [Zero S] [Add S] in
theorem noneEqual_of_passed {pre xs : List T} (h : MonotoneOn target (pre ++ xs))
    (hpass : passes .left (target (positionAfter D (pre ++ xs))) = true) :
    NoneEqual (S := S) target pre xs := by
  rintro ys z zs rfl heq
  have hsplit : pre ++ (ys ++ z :: zs) = (pre ++ ys ++ [z]) ++ zs := by simp
  rw [hsplit] at h hpass
  have := h.passes_append hpass
  rw [heq] at this
  exact absurd this (by decide)

omit [Zero S] [Add S] in
theorem noneEqual_of_before {pre xs : List T} (h : MonotoneOn target (pre ++ xs))
    (hlt : target (positionAfter D pre) = .lt) : NoneEqual (S := S) target pre xs := by
  rintro ys z zs rfl heq
  have hsplit : pre ++ (ys ++ z :: zs) = (pre ++ (ys ++ [z])) ++ zs := by simp
  rw [hsplit] at h
  have hpass : passes .right (target (positionAfter D (pre ++ (ys ++ [z])))) = true := by
    rw [← List.append_assoc, heq]
    rfl
  have := h.of_append.passes_append hpass
  rw [hlt] at this
  exact absurd this (by decide)

mutual

/-- The search in a node for an exact match. -/
theorem findExactIterate_spec [LawfulSummary S] [LawfulDimension D S] :
    ∀ {h : ℕ} {t : SumTree T S} (pre : List T), WF h t → MonotoneOn target (pre ++ t.toList) →
    FoundExact (S := S) target pre t.toList (findExactIterate target .left t (positionAfter D pre))
  | _, leaf s xs ss, pre, hw, _ => by
    obtain ⟨-, rfl⟩ := hw.valid.leafItems
    rw [findExactIterate]
    exact findExactInItems_spec pre
  | _, internal h s ss ts, pre, hw, hmono => by
    obtain ⟨-, -, rfl, hts, -⟩ := hw.valid.children
    rw [findExactIterate, toList_internal]
    exact findExactInTrees_spec pre hts (by simpa using hmono)

theorem findExactInTrees_spec [LawfulSummary S] [LawfulDimension D S] :
    ∀ {h : ℕ} {ts : List (SumTree T S)} (pre : List T), (∀ t ∈ ts, WF h t) →
    MonotoneOn target (pre ++ listItems ts) →
    FoundExact (S := S) target pre (listItems ts)
      (findExactInTrees target .left ts (ts.map summary) (positionAfter D pre))
  | _, [], _, _, _ => Or.inr ⟨rfl, fun ys z zs h => absurd h (by simp)⟩
  | h, t :: ts, pre, hts, hmono => by
    have ht : WF h t := hts t (by simp)
    have hchild : Dimension.addSummary (positionAfter D pre) t.summary
        = positionAfter D (pre ++ t.toList) := by
      rw [ht.summary_eq, ← positionAfter_append _ ht.toList_ne_nil]
    rw [listItems_cons, ← List.append_assoc] at hmono
    rw [List.map_cons, findExactInTrees, targetInChild_eq, hchild, listItems_cons]
    by_cases hpass : passes .left (target (positionAfter D (pre ++ t.toList))) = true
    · rw [if_neg (by simp [hpass])]
      exact (findExactInTrees_spec (pre ++ t.toList) (fun u hu => hts u (by simp [hu]))
        hmono).after (noneEqual_of_passed hmono.of_append hpass)
    · rw [if_pos (by simpa using hpass)]
      rcases findExactIterate_spec pre ht hmono.of_append with
        ⟨before, x, rest, hitems, hr, heq, hbefore⟩ | ⟨hr, hnone⟩
      · exact Or.inl ⟨before, x, rest ++ listItems ts, by simp [hitems], hr, heq, hbefore⟩
      · -- The end of the child is no match, so it lies behind the target.
        have hne : target (positionAfter D (pre ++ t.toList)) ≠ .eq := by
          obtain ⟨init, x, hlast⟩ := List.eq_nil_or_concat t.toList |>.resolve_left ht.toList_ne_nil
          rw [hlast, List.concat_eq_append, ← List.append_assoc]
          exact hnone init x [] (by rw [hlast, List.concat_eq_append])
        have hlt : target (positionAfter D (pre ++ t.toList)) = .lt := by
          cases hcmp : target (positionAfter D (pre ++ t.toList)) with
          | lt => rfl
          | eq => exact absurd hcmp hne
          | gt =>
            rw [hcmp] at hpass
            exact absurd rfl hpass
        exact Or.inr ⟨hr, hnone.append (noneEqual_of_before hmono hlt)⟩

end

/-- **Finding an exact match.** -/
theorem findExact_spec [LawfulSummary S] [LawfulDimension D S] {t : SumTree T S} (ht : Valid t)
    (hmono : MonotoneOn target t.toList) :
    (∃ before x rest, t.toList = before ++ x :: rest ∧
      t.findExact target .left
        = (positionAfter D before, positionAfter D (before ++ [x]), some x) ∧
      target (positionAfter D (before ++ [x])) = .eq ∧ NoneEqual (S := S) target [] before) ∨
    ((t.findExact target .left).2.2 = none ∧ NoneEqual (S := S) target [] t.toList) := by
  have hend : Dimension.addSummary (Dimension.zero S) t.summary = positionAfter D t.toList := by
    rw [positionAfter_eq, ht.summary_eq]
  rw [findExact, hend]
  by_cases hpass : passes .left (target (positionAfter D t.toList)) = true
  · rw [if_pos hpass]
    exact Or.inr ⟨rfl, noneEqual_of_passed (by simpa using hmono) (by simpa using hpass)⟩
  · rw [if_neg hpass]
    rcases ht with rfl | ⟨h, hw⟩
    · exact Or.inr ⟨rfl, fun ys z zs h => absurd h (by simp)⟩
    · have hspec : FoundExact (S := S) target [] t.toList
          (findExactIterate target .left t (Dimension.zero S)) :=
        findExactIterate_spec [] hw (by simpa using hmono)
      rcases hspec with ⟨before, x, rest, hitems, hr, heq, hbefore⟩ | ⟨hr, hnone⟩
      · refine Or.inl ⟨before, x, rest, hitems, ?_, by simpa using heq, hbefore⟩
        rw [hr]
        simp
      · refine Or.inr ⟨?_, hnone⟩
        generalize findExactIterate target .left t (Dimension.zero S) = r at hr
        obtain ⟨position, found⟩ := r
        simp only at hr
        subst hr
        rfl

end SumTree

open SumTree

/-- **Lookups.**  On a tree of at most 16 levels, for a target that is monotone along the items
and not below zero: `find` returns where a new cursor starts and ends after a seek, and its item;
`find_with_prev` returns the same, with the cursor's previous item; and `find_exact` returns
the first item that ends at the target, if there is one. -/
theorem lookups_agree {T S D : Type} [Zero S] [Add S] [Item T S] [LawfulSummary S] [Dimension D S]
    [LawfulDimension D S] {t : SumTree T S} (ht : Valid t) (hheight : t.height ≤ 15)
    {target : SeekTarget D} (hmono : MonotoneOn target t.toList)
    (hge : (target (Dimension.zero S)).isGE) :
    (∀ bias, ∃ c found start end_ item,
      (Cursor.new t : Cursor T S D).seek target bias = .ok (c, found) ∧
      c.start = start ∧ c.endPosition = .ok end_ ∧ c.item = .ok item ∧
      t.find target bias = (start, end_, item) ∧
      ∃ prev, c.prevItem = .ok prev ∧
        t.findWithPrev target bias = .ok (start, end_, item.map fun x => (prev, x))) ∧
    ((t.findExact target .left).2.2.isSome ↔
      ∃ before x rest, t.toList = before ++ x :: rest ∧
        target (positionAfter D (before ++ [x])) = .eq) ∧
    ∀ x, (t.findExact target .left).2.2 = some x →
      ∃ before rest, t.toList = before ++ x :: rest ∧
        t.findExact target .left
          = (positionAfter D before, positionAfter D (before ++ [x]), some x) ∧
        target (positionAfter D (before ++ [x])) = .eq ∧
        ∀ before' y rest', before = before' ++ y :: rest' →
          target (positionAfter D (before' ++ [y])) ≠ .eq := by
  refine ⟨fun bias => ?_, ?_, fun x hx => ?_⟩
  · obtain ⟨c, hrun, -, hobs⟩ := navigation_refines_index ht hheight
      [.seek target bias] ⟨⟨hmono, hge⟩, trivial⟩
    obtain ⟨⟨c', found⟩, hseek, hc⟩ : ∃ r : Cursor T S D × Bool,
        (Cursor.new t : Cursor T S D).seek target bias = .ok r ∧ r.1 = c := by
      rw [Move.runAll, List.foldlM_cons, bind_eq_ok] at hrun
      obtain ⟨c₁, hmove, hrun⟩ := hrun
      obtain ⟨r, hseek, hr⟩ := bind_eq_ok.mp hmove
      cases hr
      cases hrun
      exact ⟨r, hseek, rfl⟩
    simp only at hc
    subst hc
    have hindex : [Move.seek target bias].foldl (fun s move => move.step t.toList s)
        ListCursor.fresh
          = .firstFrom (Move.seekStops t.toList target bias) t.toList.length 0 := rfl
    rw [hindex] at hobs
    have hne := ListCursor.firstFrom_ne_fresh (Move.seekStops t.toList target bias)
      t.toList.length 0
    exact ⟨c', found, _, _, _, hseek, hobs.start, hobs.endPosition hne, hobs.item hne,
      find_spec ht hmono rfl, _, hobs.prevItem hne, findWithPrev_spec ht hmono rfl⟩
  · rcases findExact_spec ht hmono with ⟨before, x, rest, hitems, hr, heq, -⟩ | ⟨hr, hnone⟩
    · rw [hr]
      exact ⟨fun _ => ⟨before, x, rest, hitems, heq⟩, fun _ => rfl⟩
    · rw [hr]
      refine ⟨fun h => absurd h (by simp), ?_⟩
      rintro ⟨before, x, rest, hitems, heq⟩
      exact absurd heq (by simpa using hnone before x rest hitems)
  · rcases findExact_spec ht hmono with ⟨before, y, rest, hitems, hr, heq, hbefore⟩ | ⟨hr, -⟩
    · rw [hr] at hx ⊢
      cases hx
      exact ⟨before, rest, hitems, rfl, heq, fun before' y rest' h => by
        simpa using hbefore before' y rest' h⟩
    · rw [hr] at hx
      exact absurd hx (by simp)

/-- The theorem at a tree of two items and the location behind the first one. -/
theorem lookups_agree_pair : ∃ t : SumTree Tick ℕ, fromIter [Tick.tick, Tick.tick] = .ok t ∧
    (t.findExact (fun d : ℕ => compare 1 d) .left).2.2.isSome ∧
    ∃ c found prev, (Cursor.new t : Cursor Tick ℕ ℕ).seek (fun d => compare 1 d) .right
        = .ok (c, found) ∧ c.prevItem = .ok prev ∧
      t.findWithPrev (fun d : ℕ => compare 1 d) .right
        = .ok (c.start, 2, (t.find (fun d : ℕ => compare 1 d) .right).2.2.map fun x =>
          (prev, x)) := by
  obtain ⟨t, hrun, hv, hitems, hheight⟩ :=
    fromIter_spec (S := ℕ) (n := 15) (by omega) (show [Tick.tick, .tick].length ≤ _ by decide)
  have hmono : MonotoneOn (fun d : ℕ => compare 1 d) t.toList :=
    monotoneOn_compare 1 fun done x _ _ => by
      rw [positionAfter_concat]
      exact Nat.le_add_right _ _
  obtain ⟨hfind, hexact, -⟩ := lookups_agree hv hheight hmono rfl
  obtain ⟨c, found, start, end_, item, hseek, rfl, -, -, hfind, prev, hprev, hwith⟩ := hfind .right
  refine ⟨t, hrun, hexact.mpr ⟨[], .tick, [.tick], hitems, rfl⟩, c, found, prev, hseek, hprev, ?_⟩
  have hend : end_ = 2 := by
    have hspec : t.find (fun d : ℕ => compare 1 d) .right = _ := find_spec hv hmono rfl
    rw [hfind, hitems] at hspec
    exact (Prod.mk.inj (Prod.mk.inj hspec).2).1
  rw [hwith, hfind, hend]

/-- On a tree with more than 16 levels the cursor panics where `find` answers. -/
theorem lookups_limit : ∃ t : SumTree Tick ℕ, doubled .tick 60 = .ok t ∧ Valid t ∧
    MonotoneOn (fun _ : ℕ => .eq) t.toList ∧
    (Cursor.new t : Cursor Tick ℕ ℕ).seek (fun _ => .eq) .left = .error .capacity ∧
    (t.find (fun _ : ℕ => .eq) .left).2.2 = some .tick := by
  obtain ⟨t, h, hrun, hw, hh, -⟩ := doubled_deep (S := ℕ) Tick.tick
  have hmono : MonotoneOn (fun _ : ℕ => .eq) t.toList := fun _ _ _ _ => ⟨id, id⟩
  refine ⟨t, hrun, hw.valid, hmono, ?_, ?_⟩
  · rw [Cursor.seek, Cursor.seekForward,
      show (Cursor.new t : Cursor Tick ℕ ℕ).reset = Cursor.new t from rfl,
      Cursor.seekInternal_deep hw hh rfl fun _ => rfl]
    rfl
  · have hpos : 0 < t.toList.length := List.length_pos_iff.mpr hw.toList_ne_nil
    have hindex : ListCursor.firstFrom (Move.seekStops t.toList (fun _ : ℕ => .eq) .left)
        t.toList.length 0 = .atIndex 0 :=
      ListCursor.firstFrom_eq_atIndex le_rfl hpos (fun k _ hk => absurd hk (Nat.not_lt_zero k)) rfl
    rw [find_spec hw.valid hmono hindex.symm, ListCursor.current, List.getElem?_eq_getElem hpos]

end Zui
