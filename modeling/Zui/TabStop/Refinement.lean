/-
The map of a run holds the inserted handles in order.

`Refines map operations` says what the fields of the map are behind a run of operations; its
tree holds the nodes of `inOrder operations`.

* `apply_spec` — an operation keeps it, on a tree of at most 16 levels;
* `height_le` — the tree has at most 16 levels when the focus ids are distinct: there are not as
  many of them as handles that a tree with more levels has;
* `nextInner_spec`, `prevInner_spec` — the nearest tab stop behind a node and in front of it;
* `next_spec`, `prev_spec` — the tab stop behind the handle of a node, or the first one, and
  the one in front of it, or the last one.
-/
import Zui.SumTree.Ends
import Zui.TabStop.Order

namespace Zui

open SumTree Cursor
open scoped List

namespace TabStop

/-! ### Skipping what is not a tab stop -/

section Skip

variable {t : SumTree TabStopNode TabStopOrderNodeSummary} {pre post : List TabStopNode}
  {x : TabStopNode} {cursor cursor' : NodeCursor}
  {move : NodeCursor → Result NodeCursor}

theorem skipPass_none (h : cursor.item = .ok none) :
    skipPass move cursor = .ok (.done none) := by
  rw [skipPass, h]
  rfl

theorem skipPass_stop (h : cursor.item = .ok (some x)) (hx : x.tabStop = true) :
    skipPass move cursor = .ok (.done (some x)) := by
  rw [skipPass, h, ok_bind]
  exact if_pos hx

theorem skipPass_skip (h : cursor.item = .ok (some x)) (hx : ¬ x.tabStop = true)
    (hmove : move cursor = .ok cursor') : skipPass move cursor = .ok (.next cursor') := by
  rw [skipPass, h, ok_bind]
  refine (if_neg hx).trans ?_
  rw [hmove]
  rfl

theorem skip_next (ht : Valid t) (hheight : t.height ≤ 15) (hc : Between t pre post cursor)
    {fuel : ℕ} (hfuel : post.length < fuel) :
    loop .outOfFuel (skipPass Cursor.next) fuel cursor
      = .ok (post.find? fun item => item.tabStop) := by
  induction post generalizing pre cursor fuel with
  | nil =>
    obtain ⟨fuel, rfl⟩ := Nat.exists_eq_succ_of_ne_zero (Nat.ne_of_gt hfuel)
    exact loop_done (skipPass_none hc.item)
  | cons x post ih =>
    obtain ⟨fuel, rfl⟩ := Nat.exists_eq_succ_of_ne_zero (Nat.ne_of_gt (Nat.zero_lt_of_lt hfuel))
    by_cases hx : x.tabStop = true
    · rw [loop_done (skipPass_stop hc.item hx), List.find?_cons_of_pos hx]
    · obtain ⟨cursor', hmove, hc'⟩ := hc.next ht hheight
      rw [loop_next (skipPass_skip hc.item hx hmove), List.find?_cons_of_neg hx]
      exact ih hc' (Nat.lt_of_succ_lt_succ hfuel)

/-- The cursor is at the last item of the first part, if that has one. -/
def AtLast (t : SumTree TabStopNode TabStopOrderNodeSummary) (pre post : List TabStopNode)
    (cursor : NodeCursor) : Prop :=
  pre = [] ∧ cursor.item = .ok none ∨
    ∃ init x, pre = init ++ [x] ∧ Between t init (x :: post) cursor

theorem prev_atLast (ht : Valid t) (hheight : t.height ≤ 15) (hc : Between t pre post cursor) :
    ∃ cursor', cursor.prev = .ok cursor' ∧ AtLast t pre post cursor' := by
  rcases List.eq_nil_or_concat pre with rfl | ⟨init, x, rfl⟩
  · obtain ⟨cursor', hmove, hitem⟩ := hc.prev ht hheight
    exact ⟨cursor', hmove, Or.inl ⟨rfl, hitem⟩⟩
  · rw [List.concat_eq_append] at *
    obtain ⟨cursor', hmove, hc'⟩ := hc.prev_item ht hheight
    exact ⟨cursor', hmove, Or.inr ⟨init, x, rfl, hc'⟩⟩

/-- The loop of `prev_inner` finds the last tab stop in front of the cursor. -/
theorem skip_prev (ht : Valid t) (hheight : t.height ≤ 15) (hc : AtLast t pre post cursor)
    {fuel : ℕ} (hfuel : pre.length < fuel) :
    loop .outOfFuel (skipPass Cursor.prev) fuel cursor
      = .ok (pre.reverse.find? fun item => item.tabStop) := by
  induction pre using List.reverseRecOn generalizing post cursor fuel with
  | nil =>
    obtain ⟨fuel, rfl⟩ := Nat.exists_eq_succ_of_ne_zero (Nat.ne_of_gt hfuel)
    rcases hc with ⟨-, hitem⟩ | ⟨init, x, hnil, -⟩
    · exact loop_done (skipPass_none hitem)
    · exact absurd hnil (by simp)
  | append_singleton init x ih =>
    obtain ⟨fuel, rfl⟩ := Nat.exists_eq_succ_of_ne_zero (Nat.ne_of_gt (Nat.zero_lt_of_lt hfuel))
    rcases hc with ⟨hnil, -⟩ | ⟨init', x', hpre, hc⟩
    · exact absurd hnil (by simp)
    obtain ⟨rfl, hx'⟩ := List.append_inj' hpre rfl
    obtain rfl := List.singleton_inj.mp hx'
    rw [List.reverse_append, List.reverse_singleton, List.singleton_append]
    by_cases hx : x.tabStop = true
    · rw [loop_done (skipPass_stop hc.item hx), List.find?_cons_of_pos hx]
    · obtain ⟨cursor', hmove, hc'⟩ := prev_atLast ht hheight hc
      rw [loop_next (skipPass_skip hc.item hx hmove), List.find?_cons_of_neg hx]
      exact ih hc' (by simpa using hfuel)

variable {map : TabStopMap}

theorem nextInner_of_items (ht : Valid map.order) (hheight : map.order.height ≤ 15)
    (hs : KeySorted map.order.toList) (hitems : map.order.toList = pre ++ x :: post) :
    map.nextInner x = .ok (post.find? fun item => item.tabStop) := by
  obtain ⟨cursor, found, hseek, hc⟩ := seek_key ht hheight hs hitems
  obtain ⟨cursor', hmove, hc'⟩ := hc.next ht hheight
  have hfuel := length_toList_lt_weight map.order
  rw [hitems, List.length_append, List.length_cons] at hfuel
  rw [TabStopMap.nextInner]
  simp only [hseek, hmove, ok_bind]
  exact skip_next ht hheight hc' (by omega)

theorem prevInner_of_items (ht : Valid map.order) (hheight : map.order.height ≤ 15)
    (hs : KeySorted map.order.toList) (hitems : map.order.toList = pre ++ x :: post) :
    map.prevInner x = .ok (pre.reverse.find? fun item => item.tabStop) := by
  obtain ⟨cursor, found, hseek, hc⟩ := seek_key ht hheight hs hitems
  obtain ⟨cursor', hmove, hc'⟩ := prev_atLast ht hheight hc
  have hfuel := length_toList_lt_weight map.order
  rw [hitems, List.length_append, List.length_cons] at hfuel
  rw [TabStopMap.prevInner]
  simp only [hseek, hmove, ok_bind]
  exact skip_prev ht hheight hc' (by omega)

end Skip

/-! ### The map of a run -/

/-- The map behind a run of operations. -/
structure Refines (map : TabStopMap) (operations : List TabStopOperation) : Prop where
  path : map.currentPath = openPath [] operations
  history : map.insertionHistory = operations
  byId : ((inserted operations).map fun entry => entry.1.id).Nodup →
    ∀ entry ∈ inserted operations, map.byId entry.1.id = some (node entry)
  valid : Valid map.order
  tall : Tall 0 map.order
  items : map.order.toList = (inOrder operations).map node

variable {map : TabStopMap} {operations : List TabStopOperation}

theorem refines_default : Refines .default [] where
  path := rfl
  history := rfl
  byId _ _ h := absurd h List.not_mem_nil
  valid := valid_new
  tall := Or.inl (Nat.le_refl 0)
  items := rfl

namespace Refines

theorem keySorted (h : Refines map operations) : KeySorted map.order.toList := by
  rw [h.items]
  refine ⟨(List.pairwise_map).mpr (inOrder_strict operations), fun x hx => ?_⟩
  obtain ⟨entry, hentry, rfl⟩ := List.mem_map.mp hx
  exact zero_lt_key (path_ne_nil (mem_inOrder.mp hentry))

theorem insert_eq (h : Refines map operations) (focusHandle : FocusHandle) :
    map.insert focusHandle = (do
      let (tree, _) ← map.order.insertOrReplace (node (newEntry operations focusHandle))
      .ok { map with
        insertionHistory := map.insertionHistory ++ [.insert focusHandle]
        byId := Function.update map.byId focusHandle.id
          (some (node (newEntry operations focusHandle)))
        order := tree }) := by
  have hnode : (⟨map.currentPath ++ [focusHandle.tabIndex],
      (map.insertionHistory ++ [TabStopOperation.insert focusHandle]).length - 1,
      focusHandle.tabStop⟩ : TabStopNode) = node (newEntry operations focusHandle) := by
    simp [node, newEntry, h.path, h.history]
  rw [TabStopMap.insert]
  simp only [hnode]

/-- An insertion. -/
theorem insert_spec (h : Refines map operations) (hheight : map.order.height ≤ 15)
    (focusHandle : FocusHandle) :
    ∃ map', map.insert focusHandle = .ok map' ∧
      Refines map' (operations ++ [.insert focusHandle]) := by
  set entry := newEntry operations focusHandle with hentry
  have hinserted : inserted (operations ++ [.insert focusHandle]) =
    inserted operations ++ [entry] :=
    inserted_insert operations focusHandle
  -- The new node has the greatest insertion index, so its key is new.
  have hnew : ∀ y ∈ map.order.toList,
      (KeyedItem.key y : TabStopOrder) ≠ KeyedItem.key (node entry) := by
    intro y hy heq
    rw [h.items] at hy
    obtain ⟨other, hother, rfl⟩ := List.mem_map.mp hy
    have hlt := inserted_index_lt (mem_inOrder.mp hother)
    exact Nat.ne_of_lt hlt (congrArg TabStopOrder.nodeInsertionIndex heq)
  obtain ⟨tree, pre, post, hrun, hv, hitems, hlist, hs, htall⟩ :=
    insertOrReplace_fresh h.valid hheight h.keySorted (zero_lt_newEntry operations focusHandle) hnew
  refine ⟨_, by rw [h.insert_eq, hrun]; rfl, ?_, ?_, ?_, hv, htall 0 h.tall, ?_⟩
  · rw [openPath_append]
    exact h.path
  · rw [h.history]
  · intro hids other hother
    rw [hinserted, List.map_append, List.nodup_append] at hids
    obtain ⟨hids, -, hdisjoint⟩ := hids
    rw [hinserted] at hother
    rcases List.mem_append.mp hother with hother | hother
    · have hne : other.1.id ≠ focusHandle.id :=
        hdisjoint _ (List.mem_map_of_mem hother) _ (by simp [hentry, newEntry])
      exact (Function.update_of_ne hne _ _).trans (h.byId hids other hother)
    · rw [List.mem_singleton.mp hother]
      exact Function.update_self _ _ _
  · -- Both sides are the same nodes in strictly increasing order.
    have hperm : (tree.toList).Perm ((inOrder (operations ++ [.insert focusHandle])).map node) := by
      have hsame := (inOrder_perm (operations ++ [.insert focusHandle])).map node
      have hold := (inOrder_perm operations).map node
      rw [hinserted, List.map_append] at hsame
      rw [← h.items, hitems] at hold
      rw [hlist]
      calc pre ++ node entry :: post
        _ ~ node entry :: (pre ++ post) := List.perm_middle
        _ ~ node entry :: (inserted operations).map node := hold.cons _
        _ ~ (inserted operations).map node ++ [node entry] := (List.perm_append_singleton _ _).symm
        _ ~ (inOrder (operations ++ [TabStopOperation.insert focusHandle])).map node := hsame.symm
    have hstrict : ((inOrder (operations ++ [.insert focusHandle])).map node).Pairwise
        fun a b => (KeyedItem.key a : TabStopOrder) < KeyedItem.key b :=
      List.pairwise_map.mpr (inOrder_strict _)
    exact hperm.eq_of_pairwise (fun a b _ _ hab hba => absurd hba (lt_asymm hab)) hs.sorted hstrict

theorem beginGroup_spec (h : Refines map operations) (tabIndex : TabIndex) :
    Refines (map.beginGroup tabIndex) (operations ++ [.group tabIndex]) := by
  have hinserted : inserted (operations ++ [.group tabIndex]) = inserted operations :=
    (inserted_snoc operations (.group tabIndex)).trans (List.append_nil _)
  refine ⟨?_, ?_, ?_, h.valid, h.tall, ?_⟩
  · rw [openPath_append, ← h.path]
    rfl
  · rw [← h.history]
    rfl
  · rw [hinserted]
    exact h.byId
  · rw [inOrder, hinserted]
    exact h.items

theorem endGroup_spec (h : Refines map operations) :
    Refines map.endGroup (operations ++ [.groupEnd]) := by
  have hinserted : inserted (operations ++ [.groupEnd]) = inserted operations :=
    (inserted_snoc operations .groupEnd).trans (List.append_nil _)
  refine ⟨?_, ?_, ?_, h.valid, h.tall, ?_⟩
  · rw [openPath_append, ← h.path]
    rfl
  · rw [← h.history]
    rfl
  · rw [hinserted]
    exact h.byId
  · rw [inOrder, hinserted]
    exact h.items

/-- An operation. -/
theorem apply_spec (h : Refines map operations) (hheight : map.order.height ≤ 15)
    (operation : TabStopOperation) :
    ∃ map', map.apply operation = .ok map' ∧ Refines map' (operations ++ [operation]) := by
  cases operation with
  | insert focusHandle => exact h.insert_spec hheight focusHandle
  | group tabIndex => exact ⟨_, rfl, h.beginGroup_spec tabIndex⟩
  | groupEnd => exact ⟨_, rfl, h.endGroup_spec⟩

/-- The tree of handles with distinct focus ids has at most 16 levels. -/
theorem height_le (h : Refines map operations)
    (hids : ((inserted operations).map fun entry => entry.1.id).Nodup) :
    map.order.height ≤ 15 := by
  have hcard := hids.length_le_card
  rw [List.length_map, Fintype.card_fin] at hcard
  have hlen : map.order.toList.length = (inserted operations).length := by
    rw [h.items, List.length_map, (inOrder_perm operations).length_eq]
  -- A root of more levels has a child with more items than there are focus ids.
  have hfew : map.order.toList.length < TREE_BASE ^ 13 := by
    rw [hlen]
    exact hcard.trans_lt (by decide)
  exact (h.tall.height_le_add h.valid hfew).trans (by decide)

/-! ### The queries -/

variable {entry : FocusHandle × TabStopOrder} {pre post : List (FocusHandle × TabStopOrder)}

theorem focusHandleForOrder_spec (h : Refines map operations)
    (hentry : entry ∈ inOrder operations) :
    map.focusHandleForOrder (node entry) = .ok (some entry.1) := by
  have hget : index map.insertionHistory (node entry).nodeInsertionIndex
      = .ok (.insert entry.1) := by
    rw [h.history, index, node, inserted_history (mem_inOrder.mp hentry)]
  rw [TabStopMap.focusHandleForOrder, hget]
  rfl

theorem handleOf_spec (h : Refines map operations) {found : Option (FocusHandle × TabStopOrder)}
    (hfound : ∀ entry ∈ found, entry ∈ inOrder operations) :
    map.handleOf (found.map node) = .ok (found.map Prod.fst) := by
  cases found with
  | none => rfl
  | some entry => exact h.focusHandleForOrder_spec (hfound entry rfl)

theorem find?_mem {entries : List (FocusHandle × TabStopOrder)}
    (hmem : ∀ entry ∈ entries, entry ∈ inOrder operations) :
    ∀ entry ∈ entries.find? (fun entry => entry.1.tabStop), entry ∈ inOrder operations :=
  fun entry hentry => hmem entry (List.mem_of_find?_eq_some hentry)

theorem find?_skip (hstop : ¬ entry.1.tabStop = true)
    (entries : List (FocusHandle × TabStopOrder)) :
    (entry :: entries).find? (fun entry => entry.1.tabStop)
      = entries.find? fun entry => entry.1.tabStop :=
  List.find?_cons_of_neg hstop

theorem nextInner_spec (h : Refines map operations) (hheight : map.order.height ≤ 15)
    (hsplit : inOrder operations = pre ++ entry :: post) :
    map.nextInner (node entry) = .ok ((post.find? fun entry => entry.1.tabStop).map node) := by
  have hitems : map.order.toList = pre.map node ++ node entry :: post.map node := by
    rw [h.items, hsplit, List.map_append, List.map_cons]
  rw [nextInner_of_items h.valid hheight h.keySorted hitems, List.find?_map]
  rfl

theorem prevInner_spec (h : Refines map operations) (hheight : map.order.height ≤ 15)
    (hsplit : inOrder operations = pre ++ entry :: post) :
    map.prevInner (node entry)
      = .ok ((pre.reverse.find? fun entry => entry.1.tabStop).map node) := by
  have hitems : map.order.toList = pre.map node ++ node entry :: post.map node := by
    rw [h.items, hsplit, List.map_append, List.map_cons]
  rw [prevInner_of_items h.valid hheight h.keySorted hitems, ← List.map_reverse, List.find?_map]
  rfl

theorem nextFromStart_spec (h : Refines map operations) (hheight : map.order.height ≤ 15) :
    map.nextFromStart = .ok (tabOrder operations).head? := by
  rw [TabStopMap.nextFromStart, first_spec h.valid, h.items, head?_tabOrder]
  cases hall : inOrder operations with
  | nil => rfl
  | cons entry post =>
    have hmem : ∀ other ∈ entry :: post, other ∈ inOrder operations := by simp [hall]
    by_cases hstop : entry.1.tabStop = true
    · have hhandle := h.focusHandleForOrder_spec (hmem entry (by simp))
      simpa [hstop] using hhandle
    · have hsplit : inOrder operations = [] ++ entry :: post := hall
      have hinner := h.nextInner_spec hheight hsplit
      have hhandle := h.handleOf_spec (find?_mem fun other hother =>
        hmem other (List.mem_cons_of_mem entry hother))
      rw [find?_skip hstop]
      simp only [List.map_cons, List.head?_cons, ok_bind, tabStop_node, hstop, hinner, hhandle]
      rfl

theorem prevFromEnd_spec (h : Refines map operations) (hheight : map.order.height ≤ 15) :
    map.prevFromEnd = .ok (tabOrder operations).getLast? := by
  rw [TabStopMap.prevFromEnd, last_spec h.valid, h.items, getLast?_tabOrder]
  rcases List.eq_nil_or_concat (inOrder operations) with hall | ⟨pre, entry, hall⟩
  · rw [hall]
    rfl
  · rw [List.concat_eq_append] at hall
    have hmem : ∀ other ∈ pre ++ [entry], other ∈ inOrder operations := by simp [hall]
    by_cases hstop : entry.1.tabStop = true
    · have hhandle := h.focusHandleForOrder_spec (hmem entry (by simp))
      simpa [hall, hstop] using hhandle
    · have hsplit : inOrder operations = pre ++ entry :: [] := hall
      have hinner := h.prevInner_spec hheight hsplit
      have hhandle := h.handleOf_spec (find?_mem fun other hother =>
        hmem other (List.mem_append_left _ (List.mem_reverse.mp hother)))
      rw [hall, List.reverse_append, List.reverse_singleton, List.singleton_append,
        find?_skip hstop]
      simp only [List.map_append, List.map_cons, List.map_nil, List.getLast?_concat, ok_bind,
        tabStop_node, hstop, hinner, hhandle]
      rfl

/-- `next` of a handle is the first tab stop behind it, or the first one. -/
theorem next_spec (h : Refines map operations) (hheight : map.order.height ≤ 15)
    (hids : ((inserted operations).map fun entry => entry.1.id).Nodup)
    (hsplit : inOrder operations = pre ++ entry :: post) :
    map.next (some entry.1.id)
      = .ok ((tabStops post).head?.or (tabOrder operations).head?) := by
  have hmem : ∀ other ∈ pre ++ entry :: post, other ∈ inOrder operations := by simp [hsplit]
  have hnode : map.tabNodeForFocusId entry.1.id = some (node entry) :=
    h.byId hids entry (mem_inOrder.mp (hmem entry (by simp)))
  rw [TabStopMap.next, hnode]
  simp only [h.nextInner_spec hheight hsplit, ok_bind, head?_tabStops]
  cases hfound : post.find? fun entry => entry.1.tabStop with
  | none => exact h.nextFromStart_spec hheight
  | some found =>
    exact h.focusHandleForOrder_spec
      (hmem found (by simp [List.mem_of_find?_eq_some hfound]))

/-- `prev` of a handle is the last tab stop in front of it, or the last one. -/
theorem prev_spec (h : Refines map operations) (hheight : map.order.height ≤ 15)
    (hids : ((inserted operations).map fun entry => entry.1.id).Nodup)
    (hsplit : inOrder operations = pre ++ entry :: post) :
    map.prev (some entry.1.id)
      = .ok ((tabStops pre).getLast?.or (tabOrder operations).getLast?) := by
  have hmem : ∀ other ∈ pre ++ entry :: post, other ∈ inOrder operations := by simp [hsplit]
  have hnode : map.tabNodeForFocusId entry.1.id = some (node entry) :=
    h.byId hids entry (mem_inOrder.mp (hmem entry (by simp)))
  rw [TabStopMap.prev, hnode]
  simp only [h.prevInner_spec hheight hsplit, ok_bind, getLast?_tabStops]
  cases hfound : pre.reverse.find? fun entry => entry.1.tabStop with
  | none => exact h.prevFromEnd_spec hheight
  | some found =>
    have hin := List.mem_reverse.mp (List.mem_of_find?_eq_some hfound)
    exact h.focusHandleForOrder_spec (hmem found (by simp [hin]))

end Refines

end TabStop

end Zui
