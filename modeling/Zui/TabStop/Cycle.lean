/-
The tab order is a cycle.

Behind any run of operations that inserts handles with distinct focus ids, the calls of `next` go
around the tab stops of the run in their order, and the calls of `prev` go around them in the
reverse order (`tab_order_cycle`).
-/
import Zui.Library.Tour
import Zui.TabStop.Refinement

namespace Zui

open SumTree Cursor

namespace TabStop

theorem replay_spec : ∀ (operations : List TabStopOperation) {map : TabStopMap}
    {done : List TabStopOperation}, Refines map done →
    ((inserted (done ++ operations)).map fun entry => entry.1.id).Nodup →
    ∃ map', map.replay operations = .ok map' ∧ Refines map' (done ++ operations) := by
  intro operations
  induction operations with
  | nil =>
    intro map done hmap _
    exact ⟨map, rfl, by simpa using hmap⟩
  | cons operation operations ih =>
    intro map done hmap hids
    have hdone : ((inserted done).map fun entry => entry.1.id).Nodup := by
      rw [inserted, insertedFrom_append, List.map_append] at hids
      exact hids.of_append_left
    obtain ⟨map₁, hrun, hmap₁⟩ := hmap.apply_spec (hmap.height_le hdone) operation
    obtain ⟨map', hruns, hmap'⟩ := ih hmap₁ (by simpa using hids)
    refine ⟨map', ?_, by simpa using hmap'⟩
    rw [TabStopMap.replay, List.foldlM_cons, hrun]
    exact hruns

section Cycle

variable {map : TabStopMap} {operations : List TabStopOperation}

theorem Refines.goesAround_next (h : Refines map operations) (hheight : map.order.height ≤ 15)
    (hids : ((inserted operations).map fun entry => entry.1.id).Nodup) :
    GoesAround (fun focused => map.next (focused.map FocusHandle.id)) (tabOrder operations) where
  start := h.nextFromStart_spec hheight
  onward pre x post hx := by
    obtain ⟨before, entry, behind, hsplit, rfl, -, rfl⟩ := tabOrder_split hx
    exact h.next_spec hheight hids hsplit

theorem Refines.goesAround_prev (h : Refines map operations) (hheight : map.order.height ≤ 15)
    (hids : ((inserted operations).map fun entry => entry.1.id).Nodup) :
    GoesAround (fun focused => map.prev (focused.map FocusHandle.id))
      (tabOrder operations).reverse where
  start := by
    rw [List.head?_reverse]
    exact h.prevFromEnd_spec hheight
  onward pre x post hx := by
    have hflip : tabOrder operations = post.reverse ++ x :: pre.reverse := by
      rw [← List.reverse_reverse (tabOrder operations), hx]
      simp
    obtain ⟨before, entry, behind, hsplit, rfl, hbefore, -⟩ := tabOrder_split hflip
    rw [List.head?_reverse, ← List.getLast?_reverse, ← hbefore]
    exact h.prev_spec hheight hids hsplit

end Cycle

/-- **Tab order.**  The tab stops that a run of operations inserts are ordered by the path of
their groups and their tab index, and then by their insertion.  When the focus ids are distinct,
they are what `next` comes by from nowhere, around and around; `prev` comes by them in the reverse
order, and each of the two undoes the other. -/
theorem tab_order_cycle (operations : List TabStopOperation)
    (hids : ((inserted operations).map fun entry => entry.1.id).Nodup) :
    (∃ entries : List (FocusHandle × TabStopOrder), tabOrder operations = entries.map Prod.fst ∧
      entries.Perm ((inserted operations).filter fun entry => entry.1.tabStop) ∧
      entries.Pairwise fun a b => a.2.path < b.2.path ∨
        a.2.path = b.2.path ∧ a.2.nodeInsertionIndex < b.2.nodeInsertionIndex) ∧
    ∃ map, TabStopMap.default.replay operations = .ok map ∧
      (∀ n, tour (fun focused => map.next (focused.map FocusHandle.id)) n none
        = .ok (around (tabOrder operations) 0 n)) ∧
      (∀ n, tour (fun focused => map.prev (focused.map FocusHandle.id)) n none
        = .ok (around (tabOrder operations).reverse 0 n)) ∧
      ∀ x ∈ tabOrder operations,
        (∃ y, map.next (some x.id) = .ok (some y) ∧ map.prev (some y.id) = .ok (some x)) ∧
        ∃ y, map.prev (some x.id) = .ok (some y) ∧ map.next (some y.id) = .ok (some x) := by
  obtain ⟨map, hrun, hmap⟩ := replay_spec operations refines_default hids
  rw [List.nil_append] at hmap
  have hheight := hmap.height_le hids
  have hnext := hmap.goesAround_next hheight hids
  have hprev := hmap.goesAround_prev hheight hids
  refine ⟨⟨(inOrder operations).filter fun entry => entry.1.tabStop, rfl,
    (inOrder_perm operations).filter _, ?_⟩, map, hrun, hnext.tour, hprev.tour,
    fun x hx => ⟨?_, ?_⟩⟩
  · exact ((inOrder_strict operations).filter _).imp TabStopOrder.lt_iff.mp
  · obtain ⟨y, -, hy⟩ := hnext.undo hprev hx
    exact ⟨y, hy⟩
  · obtain ⟨y, -, hy⟩ := hprev.undo (by rw [List.reverse_reverse]; exact hnext)
      (List.mem_reverse.mpr hx)
    exact ⟨y, hy⟩

/-- A handle, and a group of a tab stop and a handle that is none. -/
def grouped : List TabStopOperation :=
  [.insert ⟨1, 5, true⟩, .group 2, .insert ⟨2, 0, true⟩, .insert ⟨3, 7, false⟩, .groupEnd]

/-- The theorem at a run with a group, which comes before the handle in front of it. -/
theorem tab_order_cycle_grouped : ∃ map, TabStopMap.default.replay grouped = .ok map ∧
    tour (fun focused => map.next (focused.map FocusHandle.id)) 3 none
      = .ok [⟨2, 0, true⟩, ⟨1, 5, true⟩, ⟨2, 0, true⟩] := by
  obtain ⟨-, map, hrun, hnext, -⟩ := tab_order_cycle grouped (by decide)
  refine ⟨map, hrun, ?_⟩
  rw [hnext]
  decide +kernel

end TabStop

end Zui
