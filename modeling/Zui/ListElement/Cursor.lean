/-
The cursor over the items of a list.

The items are kept in a sum tree, of which a `ListItemSummary` counts the items and adds up their
heights.  Pixels are numbers of single precision, and so every sum is rounded; but it is exact while
the heights are multiples of some power of two that add up to fewer than 24 bits (`OnGrid`).  A
cursor then knows the height in front of it, however the tree has added it up.

Design notes:

* a node has the sum of the summaries of its items, one after another, as in `SumTree.Valid`; on a
  grid the summaries of its child nodes add up to the same.

Main statements:

* `sumItems_exact` — the summary of some of the items;
* `seek_count` — a seek to a count;
* `seekForward_height`, `seek_height` — seeks to a height, which stop at the item that it is in.
-/
import Zui.Library.Binary32
import Zui.ListElement.Seek
import Zui.SumTree.Find

namespace Zui.ListElement

/-- `ListItemSummary`. -/
@[ext] structure ListItemSummary where
  count : ℕ
  renderedCount : ℕ
  unrenderedCount : ℕ
  height : ℚ
  hasFocusHandles : Bool
  hasUnknownHeight : Bool
  deriving DecidableEq

namespace ListItemSummary

instance : Zero ListItemSummary := ⟨⟨0, 0, 0, 0, false, false⟩⟩

/-- `add_summary`. -/
instance : Add ListItemSummary :=
  ⟨fun self summary =>
    { count := self.count + summary.count
      renderedCount := self.renderedCount + summary.renderedCount
      unrenderedCount := self.unrenderedCount + summary.unrenderedCount
      height := binary32 (self.height + summary.height)
      hasFocusHandles := self.hasFocusHandles || summary.hasFocusHandles
      hasUnknownHeight := self.hasUnknownHeight || summary.hasUnknownHeight }⟩

end ListItemSummary

/-- `summary` of an item. -/
instance : Item ListItem ListItemSummary where
  summary item :=
    { count := 1
      renderedCount := if item.size.isSome then 1 else 0
      unrenderedCount := if item.size.isSome then 0 else 1
      height := item.height
      hasFocusHandles := item.focusHandle.isSome
      hasUnknownHeight := item.hasUnknownHeight }

/-- The items of a list, in their tree. -/
abbrev ListItems : Type := SumTree ListItem ListItemSummary

/-- `Count`, as a target of a seek. -/
def Count (count : ℕ) : SeekTarget ListItemSummary := fun summary => compare count summary.count

/-- `Height`, as a target of a seek. -/
def Height (height : ℚ) : SeekTarget ListItemSummary := fun summary => compare height summary.height

/-- A cursor over the items of a list. -/
abbrev ItemCursor : Type := Cursor ListItem ListItemSummary ListItemSummary

/-! ### Exact sums -/

/-- Heights that are not negative and add up without rounding: multiples of `2 ^ (-k)`, and
together fewer than 24 bits. -/
structure OnGrid (k : ℕ) (items : List ListItem) : Prop where
  exponent : k ≤ 149
  nonneg : HeightsNonneg items
  multiple : ∀ item ∈ items, Multiple k item.height
  small : heightOf items * 2 ^ k < 2 ^ 24

theorem heightOf_concat (items : List ListItem) (item : ListItem) :
    heightOf (items ++ [item]) = heightOf items + item.height := by
  rw [heightOf_append, heightOf, heightOf, List.map_singleton, List.sum_singleton]

namespace OnGrid

variable {k : ℕ} {items : List ListItem}

theorem multiple_heightOf (h : OnGrid k items) : Multiple k (heightOf items) := by
  have hall := h.multiple
  clear h
  induction items using List.reverseRecOn with
  | nil => exact .zero
  | append_singleton items item ih =>
    rw [heightOf_concat]
    exact (ih fun other hother => hall other (List.mem_append_left _ hother)).add
      (hall item (by simp))

theorem infix_ (h : OnGrid k items) {segment : List ListItem} (hsegment : segment <:+: items) :
    OnGrid k segment := by
  obtain ⟨before, after, rfl⟩ := hsegment
  have hmem : ∀ item ∈ segment, item ∈ before ++ segment ++ after := by
    intro item hitem
    simp [hitem]
  have hnonneg : ∀ part : List ListItem, (∀ item ∈ part, item ∈ before ++ segment ++ after) →
      0 ≤ heightOf part := by
    intro part hpart
    refine List.sum_nonneg ?_
    intro height hheight
    obtain ⟨item, hitem, rfl⟩ := List.mem_map.mp hheight
    exact h.nonneg item (hpart item hitem)
  refine ⟨h.exponent, fun item hitem => h.nonneg item (hmem item hitem),
    fun item hitem => h.multiple item (hmem item hitem), lt_of_le_of_lt ?_ h.small⟩
  have hbefore := hnonneg before (by simp +contextual)
  have hafter := hnonneg after (by simp +contextual)
  rw [heightOf_append, heightOf_append]
  exact mul_le_mul_of_nonneg_right (by linarith) (by positivity)

theorem heightOf_nonneg (h : OnGrid k items) : 0 ≤ heightOf items := by
  have htake := heightOf_take_nonneg h.nonneg items.length
  rwa [List.take_length] at htake

theorem binary32_heightOf (h : OnGrid k items) : binary32 (heightOf items) = heightOf items :=
  binary32_eq_self h.exponent h.multiple_heightOf
    (by rw [abs_of_nonneg h.heightOf_nonneg]; exact h.small)

theorem binary32_add (h : OnGrid k items) {before after : List ListItem}
    (hpart : before ++ after <+: items) :
    binary32 (heightOf before + heightOf after) = heightOf (before ++ after) := by
  rw [← heightOf_append]
  exact (h.infix_ hpart.isInfix).binary32_heightOf

end OnGrid

theorem count_sumItems (items : List ListItem) :
    (sumItems items : ListItemSummary).count = items.length := by
  induction items using List.reverseRecOn with
  | nil => rfl
  | append_singleton items item ih =>
    rw [sumItems_concat, List.length_append]
    show (sumItems items : ListItemSummary).count + 1 = _
    rw [ih, List.length_singleton]

/-- The summary of some items on a grid. -/
theorem sumItems_exact {k : ℕ} {items : List ListItem} (h : OnGrid k items) :
    (sumItems items : ListItemSummary).height = heightOf items := by
  induction items using List.reverseRecOn with
  | nil => rfl
  | append_singleton items item ih =>
    rw [sumItems_concat]
    show binary32 ((sumItems items : ListItemSummary).height + item.height) = _
    rw [ih (h.infix_ (List.prefix_append items [item]).isInfix), ← heightOf_concat,
      h.binary32_heightOf]

/-- Where a cursor behind the first items starts. -/
def ExactAt (items done : List ListItem) (position : ListItemSummary) : Prop :=
  done <+: items → position.count = done.length ∧ position.height = heightOf done

theorem tracks_exact {k : ℕ} {items : List ListItem} (h : OnGrid k items) :
    Cursor.Tracks (T := ListItem) (S := ListItemSummary) (D := ListItemSummary)
      (ExactAt items) where
  zero := fun _ => ⟨rfl, rfl⟩
  item := by
    intro done position item hposition hprefix
    obtain ⟨hcount, hheight⟩ := hposition ((List.prefix_append done [item]).trans hprefix)
    constructor
    · show position.count + 1 = _
      rw [hcount, List.length_append, List.length_singleton]
    · show binary32 (position.height + item.height) = _
      rw [hheight, ← heightOf_concat, (h.infix_ hprefix.isInfix).binary32_heightOf]
  tree := by
    intro done position _ tree hwf hposition hprefix
    obtain ⟨hcount, hheight⟩ := hposition ((List.prefix_append done _).trans hprefix)
    have hgrid : OnGrid k tree.toList :=
      h.infix_ ((List.suffix_append done tree.toList).isInfix.trans hprefix.isInfix)
    constructor
    · show position.count + tree.summary.count = _
      rw [hwf.summary_eq, count_sumItems, hcount, List.length_append]
    · show binary32 (position.height + tree.summary.height) = _
      rw [hwf.summary_eq, sumItems_exact hgrid, hheight, h.binary32_add hprefix]

/-! ### Seeks -/

/-- A cursor of a tree that was moved behind the first items. -/
structure Behind (tree : ListItems) (ix : ℕ) (cursor : ItemCursor) : Prop where
  whole : cursor.tree = tree
  le : ix ≤ tree.toList.length
  count : cursor.start.count = ix
  height : cursor.start.height = heightOf (tree.toList.take ix)
  place : ∃ place, cursor.At (ExactAt tree.toList) place ∧ place ≠ .beforeFirst ∧
    place.done tree.toList = tree.toList.take ix

section Seeks

variable {tree : ListItems} (ht : SumTree.Valid tree) (hheight : tree.height ≤ 15) {k : ℕ}
  (hgrid : OnGrid k tree.toList)

theorem behind_of_at {cursor : ItemCursor} {place : Place ListItem} (htree : cursor.tree = tree)
    (hat : cursor.At (ExactAt tree.toList) place) (hne : place ≠ .beforeFirst)
    (hfront : place.done tree.toList <+: tree.toList) :
    Behind tree (place.done tree.toList).length cursor := by
  subst htree
  have htake := List.prefix_iff_eq_take.mp hfront
  have hstart : ExactAt cursor.tree.toList (place.done cursor.tree.toList) cursor.start :=
    Cursor.start_spec hat
  obtain ⟨hcount, hheight⟩ := hstart hfront
  exact ⟨rfl, hfront.length_le, hcount, by rw [hheight, ← htake], place, hat, hne, htake⟩

include hgrid

theorem behind_reset {cursor : ItemCursor} (htree : cursor.tree = tree) :
    Behind tree 0 cursor.reset := by
  have hreset : cursor.reset.tree = tree := htree
  have hat := Cursor.at_reset (tracks_exact hgrid) cursor
  exact behind_of_at hreset hat (by simp) List.nil_prefix

include ht hheight

/-- A seek from where a cursor is on goes to the first item that its target does not pass, and its
aggregate follows the items that it passes. -/
theorem seekInternal_behind {A : Type} [SeekAggregate A ListItem ListItemSummary]
    {Out : List ListItem → A → Prop} {In : List ListItem → List ListItem → A → Prop}
    (hagg : Cursor.Collects Out In) {a : A} (hout : Out [] a) {target : SeekTarget ListItemSummary}
    {ix : ℕ} {cursor : ItemCursor} (hcursor : Behind tree ix cursor)
    (hge : (target cursor.position).isGE) :
    ∃ cursor' a' found stop seg, cursor.seekInternal target .right a = .ok (cursor', a', found) ∧
      Out seg a' ∧ tree.toList.take stop = tree.toList.take ix ++ seg ∧
      Behind tree stop cursor' ∧ (stop = ix ∨ passes .right (target cursor'.start) = true) ∧
      ∀ item, tree.toList[stop]? = some item →
        passes .right (target (cursor'.start + Item.summary item)) = false := by
  obtain ⟨place, hat, hne, hdone⟩ := hcursor.place
  have htree := hcursor.whole
  subst htree
  obtain ⟨seg, place', ⟨cursor', a', found⟩, hrun, hsought⟩ :=
    Cursor.seekInternal_spec .right hagg (tracks_exact hgrid) ht hheight hat hne hout hge
  have hlands := hsought.lands
  rw [hdone] at hlands
  generalize hfront : cursor.tree.toList.take ix ++ seg = front at hlands
  -- the items in front of the place are those in front of the cursor and those that were passed
  have hplace : place' ≠ .beforeFirst ∧
      place'.done cursor.tree.toList = front ∧
        front <+: cursor.tree.toList ∧
          ∀ item, cursor.tree.toList[front.length]? = some item →
            passes .right (target (cursor'.position + Item.summary item)) = false := by
    cases place' with
    | fresh => exact hlands.elim
    | beforeFirst => exact hlands.elim
    | item done item todo =>
      obtain ⟨hdone', hsplit, hstops⟩ := hlands
      refine ⟨by simp, hdone', ⟨item :: todo, hsplit.symm⟩, fun other hother => ?_⟩
      rw [hsplit, List.getElem?_append_right le_rfl, Nat.sub_self] at hother
      exact Option.some.inj hother ▸ hstops
    | afterLast =>
      have hall : cursor.tree.toList = front := hlands
      refine ⟨by simp, hall, hall ▸ List.prefix_rfl, fun other hother => ?_⟩
      rw [← hall, List.getElem?_eq_none le_rfl] at hother
      exact absurd hother (by simp)
  obtain ⟨hne', hdone', hprefix, hstops⟩ := hplace
  have hbehind := behind_of_at hsought.tree hsought.at_ hne' (hdone' ▸ hprefix)
  have hlength : front.length = ix + seg.length := by
    rw [← hfront, List.length_append, List.length_take, min_eq_left hcursor.le]
  rw [hdone'] at hbehind
  refine ⟨cursor', a', found, _, seg, hrun, hsought.out, ?_, hbehind, ?_, hstops⟩
  · rw [hfront]
    exact (List.prefix_iff_eq_take.mp hprefix).symm
  · refine hsought.passed.imp ?_ id
    rintro rfl
    rw [hlength]
    rfl

/-- A seek from where a cursor is on, of which only the cursor is left. -/
theorem seekForward_behind {target : SeekTarget ListItemSummary} {ix : ℕ} {cursor : ItemCursor}
    (hcursor : Behind tree ix cursor) (hge : (target cursor.position).isGE) :
    ∃ cursor' found stop, cursor.seekForward target .right = .ok (cursor', found) ∧
      Behind tree stop cursor' ∧
      (stop = ix ∨ passes .right (target cursor'.start) = true) ∧
      ∀ item, tree.toList[stop]? = some item →
        passes .right (target (cursor'.start + Item.summary item)) = false := by
  obtain ⟨cursor', ⟨⟩, found, stop, -, hrun, -, -, hrest⟩ :=
    seekInternal_behind ht hheight hgrid Cursor.collects_unit trivial hcursor hge
  refine ⟨cursor', found, stop, ?_, hrest⟩
  rw [Cursor.seekForward, hrun]
  rfl

omit hgrid ht hheight in
theorem Behind.eq_min {count stop : ℕ} {cursor : ItemCursor} (hbehind : Behind tree stop cursor)
    (hpassed : stop = 0 ∨ passes .right (Count count cursor.start) = true)
    (hstops : ∀ item, tree.toList[stop]? = some item →
      passes .right (Count count (cursor.start + Item.summary item)) = false) :
    stop = min count tree.toList.length := by
  have hle : stop ≤ count := by
    rcases hpassed with rfl | hpassed
    · exact Nat.zero_le count
    · simp only [passes, Count, hbehind.count, decide_true, Bool.and_true, Bool.or_eq_true,
        decide_eq_true_eq, compare_gt_iff_gt, compare_eq_iff_eq] at hpassed
      omega
  have hlength := hbehind.le
  by_contra hne
  have hlt : stop < tree.toList.length := by omega
  have hno := hstops _ (List.getElem?_eq_getElem hlt)
  have hend : (cursor.start + Item.summary tree.toList[stop] : ListItemSummary).count =
      stop + 1 := by
    show cursor.start.count + 1 = _
    rw [hbehind.count]
  simp only [passes, Count, hend, decide_true, Bool.and_true, Bool.or_eq_false_iff,
    decide_eq_false_iff_not, compare_gt_iff_gt, compare_eq_iff_eq] at hno
  omega

/-- A seek to a count goes behind as many items. -/
theorem seek_count (count : ℕ) {cursor : ItemCursor} (htree : cursor.tree = tree) :
    ∃ cursor' found, cursor.seek (Count count) .right = .ok (cursor', found) ∧
      Behind tree (min count tree.toList.length) cursor' := by
  obtain ⟨cursor', found, stop, hrun, hbehind, hpassed, hstops⟩ :=
    seekForward_behind ht hheight hgrid (behind_reset hgrid htree)
      (show (Count count cursor.reset.position).isGE from isGE_compare.mpr (Nat.zero_le count))
  exact ⟨cursor', found, hrun, hbehind.eq_min hpassed hstops ▸ hbehind⟩

theorem summary_count (count : ℕ) :
    ∃ cursor summary, (Cursor.new tree : ItemCursor).summary ListItemSummary (Count count) .right =
        .ok (cursor, summary) ∧ summary.height = heightOf (tree.toList.take count) := by
  have hnew : Behind tree 0 (Cursor.new tree : ItemCursor) :=
    @behind_reset tree k hgrid (Cursor.new tree) rfl
  obtain ⟨cursor, ⟨summary⟩, found, stop, seg, hrun, hout, hseg, hbehind, hpassed, hstops⟩ :=
    seekInternal_behind ht hheight hgrid (Cursor.collects_summary (tracks_exact hgrid))
      (a := ⟨0⟩) (tracks_exact hgrid).zero hnew
      (show (Count count (Cursor.new tree : ItemCursor).position).isGE from
        isGE_compare.mpr (Nat.zero_le count))
  rw [hbehind.eq_min hpassed hstops, ← List.take_take, List.take_length, List.take_zero,
    List.nil_append] at hseg
  refine ⟨cursor, summary, ?_, ?_⟩
  · rw [Cursor.summary]
    exact bind_eq_ok.mpr ⟨_, hrun, rfl⟩
  · subst hseg
    exact (hout (List.take_prefix _ _)).2

/-- A seek from where a cursor is on to a height goes to the item that it is in. -/
theorem seekForward_height {target : ℚ} {ix : ℕ} {cursor : ItemCursor}
    (hcursor : Behind tree ix cursor) (hge : cursor.start.height ≤ target) :
    ∃ cursor' found stop, cursor.seekForward (Height target) .right = .ok (cursor', found) ∧
      Behind tree stop cursor' ∧ heightOf (tree.toList.take stop) ≤ target ∧
      ∀ item, tree.toList[stop]? = some item →
        target < heightOf (tree.toList.take stop) + item.height := by
  obtain ⟨cursor', found, stop, hrun, hbehind, hpassed, hstops⟩ :=
    seekForward_behind ht hheight hgrid hcursor
      (show (Height target cursor.position).isGE from isGE_compare.mpr hge)
  refine ⟨cursor', found, stop, hrun, hbehind, ?_, ?_⟩
  · rcases hpassed with rfl | hpassed
    · exact hcursor.height ▸ hge
    · simp only [passes, Height, hbehind.height, decide_true, Bool.and_true, Bool.or_eq_true,
        decide_eq_true_eq, compare_gt_iff_gt, compare_eq_iff_eq] at hpassed
      exact hpassed.elim le_of_lt ge_of_eq
  · intro item hitem
    have hno := hstops item hitem
    have hprefix : tree.toList.take stop ++ [item] <+: tree.toList := by
      have htake : tree.toList.take (stop + 1) = tree.toList.take stop ++ [item] := by
        rw [List.take_add_one, hitem, Option.toList_some]
      exact htake ▸ List.take_prefix _ _
    have hend : (cursor'.start + Item.summary item : ListItemSummary).height =
        heightOf (tree.toList.take stop) + item.height := by
      show binary32 (cursor'.start.height + item.height) = _
      rw [hbehind.height, ← heightOf_concat,
        (hgrid.infix_ hprefix.isInfix).binary32_heightOf]
    simp only [passes, Height, hend, decide_true, Bool.and_true, Bool.or_eq_false_iff,
      decide_eq_false_iff_not, compare_gt_iff_gt, compare_eq_iff_eq] at hno
    exact lt_of_le_of_ne (not_lt.mp hno.1) hno.2

/-- A seek to a height from the beginning. -/
theorem seek_height {target : ℚ} {cursor : ItemCursor} (htree : cursor.tree = tree)
    (hge : 0 ≤ target) :
    ∃ cursor' found stop, cursor.seek (Height target) .right = .ok (cursor', found) ∧
      Behind tree stop cursor' ∧ heightOf (tree.toList.take stop) ≤ target ∧
      ∀ item, tree.toList[stop]? = some item →
        target < heightOf (tree.toList.take stop) + item.height := by
  have hreset := behind_reset hgrid htree
  refine seekForward_height ht hheight hgrid hreset ?_
  rw [hreset.height]
  exact hge

omit hheight

theorem find_exact (target : SeekTarget ListItemSummary) :
    ∃ stop ≤ tree.toList.length, (tree.find target .right).1.count = stop ∧
      (tree.find target .right).1.height = heightOf (tree.toList.take stop) ∧
      (stop = 0 ∨ passes .right (target (tree.find target .right).1) = true) := by
  rcases ht with rfl | ⟨h, hwf⟩
  · have hzero : ((.new : ListItems).find target .right).1 = 0 := by
      rw [SumTree.find]
      split
      · exact ListItemSummary.ext rfl rfl rfl (by decide +kernel) rfl rfl
      · rfl
    exact ⟨0, le_rfl, by rw [hzero]; rfl, by rw [hzero]; rfl, .inl rfl⟩
  · have hfound : SumTree.Searched (ExactAt tree.toList) target .right [] tree.toList _ _ :=
      SumTree.find_tracks (tracks_exact hgrid) hwf
    obtain ⟨⟨before, hprefix, hbefore⟩, hpassed⟩ := hfound
    rw [List.nil_append] at hbefore
    obtain ⟨hcount, hheight⟩ := hbefore hprefix
    refine ⟨before.length, hprefix.length_le, hcount, ?_, hpassed.imp ?_ id⟩
    · rw [hheight, ← List.prefix_iff_eq_take.mp hprefix]
    · intro hstart
      rw [← hcount, hstart]
      rfl

theorem find_height {target : ℚ} (hge : 0 ≤ target) :
    ∃ stop ≤ tree.toList.length, (tree.find (Height target) .right).1.count = stop ∧
      (tree.find (Height target) .right).1.height = heightOf (tree.toList.take stop) ∧
      heightOf (tree.toList.take stop) ≤ target := by
  obtain ⟨stop, hle, hcount, hheight, hpassed⟩ := find_exact ht hgrid (Height target)
  refine ⟨stop, hle, hcount, hheight, ?_⟩
  rcases hpassed with rfl | hpassed
  · exact hge
  · simp only [passes, Height, hheight, decide_true, Bool.and_true, Bool.or_eq_true,
      decide_eq_true_eq, compare_gt_iff_gt, compare_eq_iff_eq] at hpassed
    exact hpassed.elim le_of_lt ge_of_eq

theorem find_count_zero : (tree.find (Count 0) .right).1.height = 0 := by
  obtain ⟨stop, -, hcount, hheight, hpassed⟩ := find_exact ht hgrid (Count 0)
  have hstop : stop = 0 := by
    rcases hpassed with hstart | hpassed
    · exact hstart
    · simp only [passes, Count, hcount, decide_true, Bool.and_true, Bool.or_eq_true,
        decide_eq_true_eq, compare_gt_iff_gt, compare_eq_iff_eq] at hpassed
      omega
  rw [hheight, hstop]
  rfl

end Seeks

end Zui.ListElement
