/-
Finding an item without a cursor.

`find` walks down from the root to the first item that the target does not pass, and
returns it with the positions before and behind it.  For a monotone target this is
where a seek from a new cursor ends (`find_spec`).
-/
import Zui.SumTree.Machine

namespace Zui

section Monotone

variable {T S D : Type} [Item T S] [Dimension D S] {target : SeekTarget D} {bias : Bias}
  {xs ys : List T}

theorem MonotoneOn.of_append (h : MonotoneOn target (xs ++ ys)) : MonotoneOn target xs := by
  rintro done x todo rfl
  exact h done x (todo ++ ys) (by simp)

theorem MonotoneOn.passes_append (h : MonotoneOn target (xs ++ ys))
    (hpass : Zui.passes bias (target (positionAfter D (xs ++ ys))) = true) :
    Zui.passes bias (target (positionAfter D xs)) = true := by
  have hlen : xs.length ≤ (xs ++ ys).length := by simp
  have htake : (xs ++ ys).take xs.length = xs := List.take_left
  have hall : (xs ++ ys).take (xs ++ ys).length = xs ++ ys := List.take_length
  rw [← htake]
  exact h.passes_take hlen le_rfl (by rwa [hall])

end Monotone

namespace SumTree

variable {T S D : Type} [Dimension D S]

/-- Whether a search goes into a child, or stops at an item, that ends where
`comparison` says. -/
def targetInChild (bias : Bias) (comparison : Ordering) : Bool :=
  comparison = .lt || (comparison = .eq && bias = .left)

/-- The leaf arm of `find_iterate`. -/
def findInItems (target : SeekTarget D) (bias : Bias) :
    List T → List S → D → D × Option (T × D)
  | item :: items, itemSummary :: itemSummaries, position =>
    let childEnd := Dimension.addSummary position itemSummary
    if targetInChild bias (target childEnd) then (position, some (item, childEnd))
    else findInItems target bias items itemSummaries childEnd
  | _, _, position => (position, none)

mutual

/-- `find_iterate`, with the position that it leaves. -/
def findIterate (target : SeekTarget D) (bias : Bias) : SumTree T S → D → D × Option (T × D)
  | internal _ _ childSummaries childTrees, position =>
    findInTrees target bias childTrees childSummaries position
  | leaf _ items itemSummaries, position => findInItems target bias items itemSummaries position

/-- The internal arm of `find_iterate`. -/
def findInTrees (target : SeekTarget D) (bias : Bias) :
    List (SumTree T S) → List S → D → D × Option (T × D)
  | childTree :: childTrees, childSummary :: childSummaries, position =>
    let childEnd := Dimension.addSummary position childSummary
    if targetInChild bias (target childEnd) then findIterate target bias childTree position
    else findInTrees target bias childTrees childSummaries childEnd
  | _, _, position => (position, none)

end

/-- `find`. -/
def find (target : SeekTarget D) (bias : Bias) (self : SumTree T S) : D × D × Option T :=
  let treeEnd := Dimension.addSummary (Dimension.zero S) self.summary
  if passes bias (target treeEnd) then (treeEnd, treeEnd, none)
  else
    match findIterate target bias self (Dimension.zero S) with
    | (position, some (item, end_)) => (position, end_, some item)
    | (position, none) => (position, position, none)

omit [Dimension D S] in
theorem targetInChild_eq (bias : Bias) (comparison : Ordering) :
    targetInChild bias comparison = !passes bias comparison := by
  cases bias <;> cases comparison <;> rfl

variable [Zero S] [Add S] [Item T S] {target : SeekTarget D} {bias : Bias}

/-- A search below some items stops at the first item that the target does not pass, all items
before it having been passed over; `P` is what it says of that item. -/
def Found (P : List T → T → Prop) (target : SeekTarget D) (bias : Bias) (pre xs : List T) : Prop :=
  ∃ before x rest, xs = before ++ x :: rest ∧ P (pre ++ before) x ∧
    (before = [] ∨ passes bias (target (positionAfter D (pre ++ before))) = true) ∧
    passes bias (target (positionAfter D (pre ++ before ++ [x]))) = false

/-- What a search below some items finds: the first item that the target does not
pass, all items before it having been passed over. -/
def FoundIn (target : SeekTarget D) (bias : Bias) (pre xs : List T)
    (r : D × Option (T × D)) : Prop :=
  ∃ before x rest, xs = before ++ x :: rest ∧
    r = (positionAfter D (pre ++ before), some (x, positionAfter D (pre ++ before ++ [x]))) ∧
    (before = [] ∨ passes bias (target (positionAfter D (pre ++ before))) = true) ∧
    passes bias (target (positionAfter D (pre ++ before ++ [x]))) = false

omit [Zero S] [Add S] in
theorem Found.after {P : List T → T → Prop} {pre ys xs : List T}
    (h : Found P target bias (pre ++ ys) xs)
    (hpass : passes bias (target (positionAfter D (pre ++ ys))) = true) :
    Found P target bias pre (ys ++ xs) := by
  obtain ⟨before, x, rest, rfl, hr, hbefore, hstop⟩ := h
  refine ⟨ys ++ before, x, rest, by simp, by simpa using hr, Or.inr ?_, by simpa using hstop⟩
  rcases hbefore with rfl | hbefore
  · simpa using hpass
  · simpa using hbefore

omit [Zero S] [Add S] in
theorem Found.append {P : List T → T → Prop} {pre xs ys : List T}
    (h : Found P target bias pre xs) : Found P target bias pre (xs ++ ys) := by
  obtain ⟨before, x, rest, rfl, hr, hbefore, hstop⟩ := h
  exact ⟨before, x, rest ++ ys, by simp, hr, hbefore, hstop⟩

omit [Zero S] [Add S] in
theorem FoundIn.after {pre ys xs : List T} {r : D × Option (T × D)}
    (h : FoundIn target bias (pre ++ ys) xs r)
    (hpass : passes bias (target (positionAfter D (pre ++ ys))) = true) :
    FoundIn target bias pre (ys ++ xs) r :=
  Found.after (P := fun done x =>
    r = (positionAfter D done, some (x, positionAfter D (done ++ [x]))))
    h hpass

omit [Zero S] [Add S] in
theorem FoundIn.append {pre xs ys : List T} {r : D × Option (T × D)}
    (h : FoundIn target bias pre xs r) : FoundIn target bias pre (xs ++ ys) r :=
  Found.append (P := fun done x =>
    r = (positionAfter D done, some (x, positionAfter D (done ++ [x]))))
    h

omit [Zero S] [Add S] in
theorem findInItems_spec : ∀ {xs : List T} (pre : List T), xs ≠ [] →
    passes bias (target (positionAfter D (pre ++ xs))) = false →
    FoundIn target bias pre xs
      (findInItems target bias xs (xs.map (Item.summary (S := S))) (positionAfter D pre)) := by
  intro xs
  induction xs with
  | nil =>
    intro pre hne
    exact absurd rfl hne
  | cons x xs ih =>
    intro pre _ hend
    rw [List.map_cons, findInItems, targetInChild_eq, ← positionAfter_concat]
    by_cases hpass : passes bias (target (positionAfter D (pre ++ [x]))) = true
    · rw [if_neg (by simp [hpass])]
      have hne : xs ≠ [] := by
        rintro rfl
        rw [hpass] at hend
        exact absurd hend (by simp)
      have hrest := ih (pre ++ [x]) hne (by simpa using hend)
      exact hrest.after hpass
    · rw [if_pos (by simpa using hpass)]
      exact ⟨[], x, xs, rfl, by simp, Or.inl rfl, by simpa using hpass⟩

mutual

theorem findIterate_spec [LawfulSummary S] [LawfulDimension D S] :
    ∀ {h : ℕ} {t : SumTree T S} (pre : List T), WF h t →
    passes bias (target (positionAfter D (pre ++ t.toList))) = false →
    FoundIn target bias pre t.toList (findIterate target bias t (positionAfter D pre))
  | _, leaf s xs ss, pre, hw, hend => by
    obtain ⟨-, rfl⟩ := hw.valid.leafItems
    rw [findIterate]
    exact findInItems_spec pre (by simpa using hw.toList_ne_nil) hend
  | _, internal h s ss ts, pre, hw, hend => by
    obtain ⟨hne, -, rfl, hts, -⟩ := hw.valid.children
    rw [findIterate, toList_internal]
    exact findInTrees_spec pre hne hts (by simpa using hend)

/-- The search in a run of sibling nodes that the target does not pass. -/
theorem findInTrees_spec [LawfulSummary S] [LawfulDimension D S] :
    ∀ {h : ℕ} {ts : List (SumTree T S)} (pre : List T), ts ≠ [] →
    (∀ t ∈ ts, WF h t) → passes bias (target (positionAfter D (pre ++ listItems ts))) = false →
    FoundIn target bias pre (listItems ts)
      (findInTrees target bias ts (ts.map summary) (positionAfter D pre))
  | _, [], _, hne, _, _ => absurd rfl hne
  | h, t :: ts, pre, _, hts, hend => by
    have ht : WF h t := hts t (by simp)
    have hchild : Dimension.addSummary (positionAfter D pre) t.summary
        = positionAfter D (pre ++ t.toList) := by
      rw [ht.summary_eq, ← positionAfter_append _ ht.toList_ne_nil]
    rw [List.map_cons, findInTrees, targetInChild_eq, hchild, listItems_cons]
    by_cases hpass : passes bias (target (positionAfter D (pre ++ t.toList))) = true
    · rw [if_neg (by simp [hpass])]
      have hne : ts ≠ [] := by
        rintro rfl
        rw [listItems_cons, listItems_nil, List.append_nil, hpass] at hend
        exact absurd hend (by simp)
      have hrest := findInTrees_spec (pre ++ t.toList) hne
        (fun u hu => hts u (by simp [hu])) (by simpa using hend)
      exact hrest.after hpass
    · rw [if_pos (by simpa using hpass)]
      exact (findIterate_spec pre ht (by simpa using hpass)).append

end

/-! ### Positions of a search -/

section Tracks

variable {Pos : List T → D → Prop}

/-- Where a search below some items stops: behind some of them, and if it has moved, then at a
position that the target passes. -/
structure Searched (Pos : List T → D → Prop) (target : SeekTarget D) (bias : Bias)
    (done xs : List T) (start position : D) : Prop where
  tracked : ∃ before, before <+: xs ∧ Pos (done ++ before) position
  passed : position = start ∨ passes bias (target position) = true

omit [Dimension D S] [Zero S] [Add S] [Item T S] in
theorem Searched.after {done xs ys : List T} {start childEnd position : D}
    (h : Searched Pos target bias (done ++ ys) xs childEnd position)
    (hpass : passes bias (target childEnd) = true) :
    Searched Pos target bias done (ys ++ xs) start position := by
  obtain ⟨⟨before, hprefix, hbefore⟩, hpassed⟩ := h
  refine ⟨⟨ys ++ before, (List.prefix_append_right_inj ys).mpr hprefix, ?_⟩, .inr ?_⟩
  · rwa [← List.append_assoc]
  · rcases hpassed with rfl | hpassed
    · exact hpass
    · exact hpassed

omit [Dimension D S] [Zero S] [Add S] [Item T S] in
theorem Searched.refl {done xs : List T} {start : D} (h : Pos done start) :
    Searched Pos target bias done xs start start :=
  ⟨⟨[], List.nil_prefix, by rwa [List.append_nil]⟩, .inl rfl⟩

theorem findInItems_tracks (hpos : Cursor.Tracks (S := S) Pos) : ∀ {xs done : List T} {start : D},
    Pos done start → Searched Pos target bias done xs start
      (findInItems target bias xs (xs.map (Item.summary (S := S))) start).1 := by
  intro xs
  induction xs with
  | nil =>
    intro done start hstart
    exact .refl hstart
  | cons x xs ih =>
    intro done start hstart
    rw [List.map_cons, findInItems]
    split
    · exact .refl hstart
    · next hpass =>
      rw [targetInChild_eq, Bool.not_eq_true', Bool.not_eq_false] at hpass
      have hrest : Searched Pos target bias done ([x] ++ xs) start _ :=
        (ih (hpos.item x hstart)).after hpass
      exact hrest

mutual

theorem findIterate_tracks (hpos : Cursor.Tracks (S := S) Pos) :
    ∀ {h : ℕ} {t : SumTree T S} {done : List T} {start : D}, WF h t → Pos done start →
    Searched Pos target bias done t.toList start (findIterate target bias t start).1
  | _, leaf s xs ss, done, start, hw, hstart => by
    obtain ⟨-, rfl⟩ := hw.valid.leafItems
    rw [findIterate]
    exact findInItems_tracks hpos hstart
  | _, internal h s ss ts, done, start, hw, hstart => by
    obtain ⟨-, -, rfl, hts, -⟩ := hw.valid.children
    rw [findIterate, toList_internal]
    exact findInTrees_tracks hpos hts hstart

theorem findInTrees_tracks (hpos : Cursor.Tracks (S := S) Pos) :
    ∀ {h : ℕ} {ts : List (SumTree T S)} {done : List T} {start : D}, (∀ t ∈ ts, WF h t) →
    Pos done start → Searched Pos target bias done (listItems ts) start
      (findInTrees target bias ts (ts.map summary) start).1
  | _, [], _, _, _, hstart => .refl hstart
  | h, t :: ts, done, start, hts, hstart => by
    have ht : WF h t := hts t (by simp)
    rw [List.map_cons, findInTrees, listItems_cons]
    split
    · obtain ⟨⟨before, hprefix, hbefore⟩, hpassed⟩ := findIterate_tracks hpos ht hstart
      exact ⟨⟨before, hprefix.trans (List.prefix_append _ _), hbefore⟩, hpassed⟩
    · next hpass =>
      rw [targetInChild_eq, Bool.not_eq_true', Bool.not_eq_false] at hpass
      exact (findInTrees_tracks hpos (fun u hu => hts u (by simp [hu]))
        (hpos.tree ht hstart)).after hpass

end

/-- What `find` says of where it stops, when nothing is known of how summaries add up but what is
said of the positions. -/
theorem find_tracks (hpos : Cursor.Tracks (S := S) Pos) {h : ℕ} {t : SumTree T S} (ht : WF h t) :
    Searched Pos target bias [] t.toList (Dimension.zero S) (t.find target bias).1 := by
  rw [find]
  split
  · next hpass => exact ⟨⟨t.toList, List.prefix_rfl, hpos.tree ht hpos.zero⟩, .inr hpass⟩
  · have hfound : Searched Pos target bias [] t.toList _ _ := findIterate_tracks hpos ht hpos.zero
    split
    · next heq => rwa [heq] at hfound
    · next heq => rwa [heq] at hfound

end Tracks

omit [Zero S] [Add S] in
/-- Items that the target passes, and then one that it does not: there a seek stops. -/
theorem firstFrom_stop {items before rest : List T} {x : T} (hmono : MonotoneOn target items)
    (hitems : items = before ++ x :: rest)
    (hbefore : before = [] ∨ passes bias (target (positionAfter D before)) = true)
    (hstop : passes bias (target (positionAfter D (before ++ [x]))) = false) :
    ListCursor.firstFrom (Move.seekStops items target bias) items.length 0
      = .atIndex before.length := by
  have htake : items.take before.length = before := by
    rw [hitems]
    exact List.take_left' rfl
  have htake' : items.take (before.length + 1) = before ++ [x] := by
    rw [hitems, List.take_length_add_append]
    simp
  have hlt : before.length < items.length := by simp [hitems]
  refine ListCursor.firstFrom_eq_atIndex (Nat.zero_le _) hlt (fun i _ hi => ?_) ?_
  · rcases hbefore with rfl | hbefore
    · exact absurd hi (Nat.not_lt_zero i)
    · have hpass : passes bias (target (positionAfter D (items.take (i + 1)))) = true :=
        hmono.passes_take (Nat.succ_le_of_lt hi) (Nat.le_of_lt hlt) (by rwa [htake])
      rw [Move.seekStops, hpass]
      rfl
  · rw [Move.seekStops, htake', hstop]
    rfl

/-- **Finding.**  For a monotone target, `find` returns the first item that the target
does not pass, and the positions before and behind it. -/
theorem find_spec [LawfulSummary S] [LawfulDimension D S] {t : SumTree T S} (ht : Valid t)
    (hmono : MonotoneOn target t.toList) {s : ListCursor}
    (hs : s = .firstFrom (Move.seekStops t.toList target bias) t.toList.length 0) :
    t.find target bias = (positionAfter D (t.toList.take (s.start t.toList.length)),
      positionAfter D (t.toList.take (s.upTo t.toList.length)), s.current t.toList) := by
  have hend : Dimension.addSummary (Dimension.zero S) t.summary = positionAfter D t.toList := by
    rw [positionAfter_eq, ht.summary_eq]
  rw [find, hend]
  by_cases hpass : passes bias (target (positionAfter D t.toList)) = true
  · -- Everything is passed.
    rw [ListCursor.firstFrom_eq_afterLast fun i _ hi => ?_] at hs
    · subst hs
      simp [hpass, ListCursor.start, ListCursor.upTo, ListCursor.current]
    · rw [Move.seekStops, hmono.passes_take (Nat.succ_le_of_lt hi) (Nat.le_refl _)
        (by rwa [List.take_length])]
      rfl
  · rw [if_neg hpass]
    rcases ht with rfl | ⟨h, hw⟩
    · obtain rfl : s = .afterLast := hs
      rfl
    · obtain ⟨before, x, rest, hitems, hr, hbefore, hstop⟩ :=
        findIterate_spec [] hw (by simpa using hpass)
      simp only [List.nil_append] at hr hbefore hstop
      rw [positionAfter_nil] at hr
      rw [firstFrom_stop hmono hitems hbefore hstop] at hs
      subst hs
      have htake : t.toList.take before.length = before := by
        rw [hitems]
        exact List.take_left' rfl
      have htake' : t.toList.take (before.length + 1) = before ++ [x] := by
        rw [hitems, List.take_length_add_append]
        simp
      have hcurrent : t.toList[before.length]? = some x := by simp [hitems]
      simp only [hr, ListCursor.start, ListCursor.upTo, ListCursor.current, htake, htake', hcurrent]

end SumTree

end Zui
