/-
Elements grouped by a key.

A map from keys to lists of elements is an association list; `pushUnder` appends an element to
the list under its key, and `groupUnder` does it for the elements of a list in turn.

* `Grouped` — what the groups of a list are, whatever order they come in;
* `crowded` — the elements that share their group with another one;
* `mem_crowded`, `nodup_crowded` — which these are, and that each comes up once.
-/
import Mathlib

namespace Zui

variable {α κ : Type} [DecidableEq κ] {key : α → κ}

/-- Appends an element to the list under a key. -/
def pushUnder (k : κ) (x : α) (groups : List (κ × List α)) : List (κ × List α) :=
  if k ∈ groups.map Prod.fst then
    groups.map fun g => if g.1 = k then (g.1, g.2 ++ [x]) else g
  else
    groups ++ [(k, [x])]

/-- The groups of the elements of a list. -/
def groupUnder (key : α → κ) (xs : List α) : List (κ × List α) :=
  xs.foldl (fun groups x => pushUnder (key x) x groups) []

/-- The groups of a list, in some order. -/
structure Grouped (key : α → κ) (xs : List α) (groups : List (κ × List α)) : Prop where
  nodup : (groups.map Prod.fst).Nodup
  members : ∀ g ∈ groups, g.2 = xs.filter (key · = g.1)
  covers : ∀ x ∈ xs, key x ∈ groups.map Prod.fst

/-- The elements of the groups with more than one member. -/
def crowded (groups : List (κ × List α)) : List α :=
  (groups.filter (1 < ·.2.length)).flatMap Prod.snd

/-! ### Pushing -/

theorem keys_pushUnder {k : κ} {x : α} {groups : List (κ × List α)} :
    (pushUnder k x groups).map Prod.fst =
      if k ∈ groups.map Prod.fst then groups.map Prod.fst else groups.map Prod.fst ++ [k] := by
  unfold pushUnder
  split
  · rw [List.map_map]
    refine List.map_congr_left fun g _ => ?_
    show (if g.1 = k then (g.1, g.2 ++ [x]) else g).1 = g.1
    split <;> rfl
  · simp

theorem Grouped.push {xs : List α} {groups : List (κ × List α)} (h : Grouped key xs groups)
    (x : α) : Grouped key (xs ++ [x]) (pushUnder (key x) x groups) where
  nodup := by
    rw [keys_pushUnder]
    split
    · exact h.nodup
    · next hnew => exact List.nodup_append_comm.mp (List.nodup_cons.mpr ⟨hnew, h.nodup⟩)
  members := by
    intro g hg
    unfold pushUnder at hg
    rw [List.filter_append]
    split at hg
    · obtain ⟨g', hg', rfl⟩ := List.mem_map.mp hg
      have hmembers := h.members g' hg'
      split
      · next heq => simp [heq, hmembers]
      · next hne => simp [Ne.symm hne, hmembers]
    · next hnew =>
      rcases List.mem_append.mp hg with hg | hg
      · have hne : key x ≠ g.1 := fun heq => hnew (heq ▸ List.mem_map_of_mem hg)
        simp [hne, h.members g hg]
      · obtain rfl := List.mem_singleton.mp hg
        -- no element before `x` has its key
        have hnone : xs.filter (fun y => key y = key x) = [] := by
          refine List.filter_eq_nil_iff.mpr fun y hy heq => hnew ?_
          exact of_decide_eq_true heq ▸ h.covers y hy
        simp [hnone]
  covers := by
    intro y hy
    rw [keys_pushUnder]
    rcases List.mem_append.mp hy with hy | hy
    · split
      · exact h.covers y hy
      · exact List.mem_append_left _ (h.covers y hy)
    · obtain rfl := List.mem_singleton.mp hy
      split
      · assumption
      · simp

theorem grouped_groupUnder (key : α → κ) (xs : List α) : Grouped key xs (groupUnder key xs) := by
  induction xs using List.reverseRecOn with
  | nil => exact ⟨List.nodup_nil, by simp [groupUnder], by simp⟩
  | append_singleton xs x ih =>
    rw [groupUnder, List.foldl_append]
    exact ih.push x

/-! ### Crowded groups -/

theorem Grouped.mem_crowded {xs : List α} {groups : List (κ × List α)}
    (h : Grouped key xs groups) {x : α} :
    x ∈ crowded groups ↔ x ∈ xs ∧ 1 < (xs.filter (key · = key x)).length := by
  simp only [crowded, List.mem_flatMap, List.mem_filter, decide_eq_true_eq]
  constructor
  · rintro ⟨g, ⟨hg, hlong⟩, hx⟩
    rw [h.members g hg] at hx hlong
    obtain ⟨hmem, hkey⟩ := List.mem_filter.mp hx
    exact ⟨hmem, by rwa [of_decide_eq_true hkey]⟩
  · rintro ⟨hx, hlong⟩
    obtain ⟨g, hg, hkey⟩ := List.mem_map.mp (h.covers x hx)
    have hmembers := h.members g hg
    rw [hkey] at hmembers
    exact ⟨g, ⟨hg, hmembers ▸ hlong⟩, by simp [hmembers, hx]⟩

theorem Grouped.nodup_crowded {xs : List α} {groups : List (κ × List α)}
    (h : Grouped key xs groups) (hxs : xs.Nodup) : (crowded groups).Nodup := by
  refine List.nodup_flatMap.mpr ⟨fun g hg => ?_, ?_⟩
  · rw [h.members g (List.mem_of_mem_filter hg)]
    exact hxs.filter _
  · have hpairs : groups.Pairwise fun g g' => g.1 ≠ g'.1 := List.pairwise_map.mp h.nodup
    refine ((hpairs.imp_of_mem ?_).filter _)
    intro g g' hg hg' hne x hx hx'
    rw [h.members g hg] at hx
    rw [h.members g' hg'] at hx'
    exact hne ((of_decide_eq_true (List.mem_filter.mp hx).2).symm.trans
      (of_decide_eq_true (List.mem_filter.mp hx').2))

/-- In a list without repetitions, an element is crowded if another one has its key. -/
theorem one_lt_length_filter {xs : List α} (hxs : xs.Nodup) {x : α} (hx : x ∈ xs) :
    1 < (xs.filter (key · = key x)).length ↔ ∃ y ∈ xs, y ≠ x ∧ key y = key x := by
  have hmem : x ∈ xs.filter (key · = key x) := by simp [hx]
  constructor
  · intro hlong
    by_contra hnone
    push Not at hnone
    have hall : ∀ y ∈ xs.filter (key · = key x), y = x := by
      intro y hy
      obtain ⟨hy, hkey⟩ := List.mem_filter.mp hy
      by_contra hne
      exact hnone y hy hne (of_decide_eq_true hkey)
    have hsub : xs.filter (key · = key x) ⊆ [x] :=
      fun y hy => List.mem_singleton.mpr (hall y hy)
    have hle := (hxs.filter _).length_le_of_subset hsub
    simp only [List.length_singleton] at hle
    omega
  · rintro ⟨y, hy, hne, hkey⟩
    have hsub : [x, y].Subperm (xs.filter (key · = key x)) :=
      List.subperm_of_subset (by simp [hne.symm]) (by simp [hx, hy, hkey])
    exact hsub.length_le

omit [DecidableEq κ] in
theorem crowded_perm {groups groups' : List (κ × List α)} (h : groups.Perm groups') :
    (crowded groups).Perm (crowded groups') :=
  (h.filter _).flatMap_right _

end Zui
