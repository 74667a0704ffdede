/-
The reference counts.

* `Counted` — a count is the number of the strong handles, and the ids whose count is
  zero are those in the dropped list and the one that a thread is about to push there;
* `Counted.step` — every step keeps it, and none but `lease` panics.
-/
import Zui.Library.Loop
import Zui.Entities.Basic

namespace Zui.Gpui

namespace EntityMap

variable {EntityId Value : Type} [DecidableEq EntityId]

/-- What holds of the counts in every state. -/
structure Counted (s : EntityMap EntityId Value) : Prop where
  count : ∀ id, s.handles.count id = (s.counts id).getD 0
  allocated : ∀ id, id ∉ s.allocated → s.counts id = none
  slots : ∀ id, s.slots.count id ≤ s.handles.count id
  nodup : s.droppedEntityIds.Nodup
  dropped : ∀ id ∈ s.droppedEntityIds, s.counts id = some 0
  releasing : ∀ id, .releasing id ∈ s.inFlight → s.counts id = some 0 ∧ id ∉ s.droppedEntityIds
  single : (s.inFlight.filter InFlight.isReleasing).length ≤ 1
  zero : ∀ id, s.counts id = some 0 → id ∈ s.droppedEntityIds ∨ .releasing id ∈ s.inFlight
  upgrading : ∀ id loaded, .upgrading id loaded ∈ s.inFlight → s.counts id ≠ none ∧ loaded ≠ 0

theorem counted_new : (new : EntityMap EntityId Value).Counted := by
  constructor <;> simp [new]

variable {s s' : EntityMap EntityId Value} {id : EntityId} {ids : List EntityId}

/-- The map after a handle was dropped that left the count `n`, and with these slots. -/
def dropped (s : EntityMap EntityId Value) (id : EntityId) (n : ℕ) (slots : List EntityId) :
    EntityMap EntityId Value :=
  { s with
      counts := Function.update s.counts id (some n)
      handles := s.handles.erase id
      slots := slots
      inFlight := if n + 1 = 1 then s.inFlight ++ [.releasing id] else s.inFlight }

namespace Counted

theorem counts_of_mem (h : s.Counted) (hid : id ∈ s.handles) :
    ∃ n, s.counts id = some (n + 1) := by
  have hpos := List.count_pos_iff.mpr hid
  rw [h.count] at hpos
  cases hc : s.counts id with
  | none => simp [hc] at hpos
  | some n =>
    rw [hc, Option.getD_some] at hpos
    exact ⟨n - 1, by rw [Nat.sub_add_cancel hpos]⟩

theorem count_eq (h : s.Counted) {n : ℕ} (hn : s.counts id = some n) :
    s.handles.count id = n := by
  rw [h.count, hn, Option.getD_some]

theorem allocated_of_counts (h : s.Counted) (hn : s.counts id ≠ none) : id ∈ s.allocated := by
  by_contra hid
  exact hn (h.allocated id hid)

/-- A count that is not zero changes to another one, with its handles. -/
theorem update (h : s.Counted) (t : EntityMap EntityId Value) {n m : ℕ}
    (hn : s.counts id = some (n + 1))
    (hcounts : t.counts = Function.update s.counts id (some m))
    (hhandles : ∀ j, t.handles.count j = if j = id then m else s.handles.count j)
    (hallocated : t.allocated = s.allocated) (hslots : ∀ j, t.slots.count j ≤ t.handles.count j)
    (hdropped : t.droppedEntityIds = s.droppedEntityIds)
    (hreleasing : ∀ j, .releasing j ∈ t.inFlight ↔
      .releasing j ∈ s.inFlight ∨ (j = id ∧ m = 0))
    (hupgrading : ∀ j loaded, .upgrading j loaded ∈ t.inFlight → .upgrading j loaded ∈ s.inFlight)
    (hsingle : (t.inFlight.filter InFlight.isReleasing).length ≤ 1) : t.Counted where
  count j := by
    rw [hhandles, hcounts, Function.update_apply]
    by_cases hj : j = id
    · rw [if_pos hj, if_pos hj, Option.getD_some]
    · rw [if_neg hj, if_neg hj]
      exact h.count j
  allocated j hj := by
    rw [hallocated] at hj
    -- what has a count is allocated
    have hne : j ≠ id := by
      rintro rfl
      exact hj (h.allocated_of_counts (by simp [hn]))
    rw [hcounts, Function.update_of_ne hne]
    exact h.allocated j hj
  slots := hslots
  nodup := hdropped ▸ h.nodup
  dropped j hj := by
    rw [hdropped] at hj
    have hzero := h.dropped j hj
    -- the count that changes was positive, so the entity was not dropped
    have hne : j ≠ id := by
      rintro rfl
      rw [hn] at hzero
      cases hzero
    rw [hcounts, Function.update_of_ne hne]
    exact hzero
  releasing j hj := by
    rw [hdropped, hcounts]
    rcases (hreleasing j).mp hj with hj | ⟨rfl, rfl⟩
    · have hzero := h.releasing j hj
      have hne : j ≠ id := by
        rintro rfl
        rw [hn] at hzero
        cases hzero.1
      rw [Function.update_of_ne hne]
      exact hzero
    · refine ⟨Function.update_self _ _ _, fun hmem => ?_⟩
      have hzero := h.dropped j hmem
      rw [hn] at hzero
      cases hzero
  single := hsingle
  zero j hj := by
    rw [hdropped, hreleasing]
    rw [hcounts, Function.update_apply] at hj
    by_cases hne : j = id
    · rw [if_pos hne] at hj
      exact Or.inr (Or.inr ⟨hne, Option.some.inj hj⟩)
    · rw [if_neg hne] at hj
      exact (h.zero j hj).imp_right Or.inl
  upgrading j loaded hj := by
    obtain ⟨hcount, hloaded⟩ := h.upgrading j loaded (hupgrading j loaded hj)
    refine ⟨?_, hloaded⟩
    rw [hcounts, Function.update_apply]
    split
    · simp
    · exact hcount

/-- The counts are left as they are, and no handle is dropped. -/
theorem unchanged (h : s.Counted) (t : EntityMap EntityId Value) (hcounts : t.counts = s.counts)
    (hhandles : t.handles = s.handles) (hallocated : t.allocated = s.allocated)
    (hslots : ∀ j, t.slots.count j ≤ s.slots.count j)
    (hdropped : t.droppedEntityIds = s.droppedEntityIds)
    (hreleasing : ∀ j, .releasing j ∈ t.inFlight ↔ .releasing j ∈ s.inFlight)
    (hupgrading : ∀ j loaded, .upgrading j loaded ∈ t.inFlight →
      s.counts j ≠ none ∧ loaded ≠ 0)
    (hsingle : (t.inFlight.filter InFlight.isReleasing).length ≤ 1) : t.Counted where
  count := by
    rw [hcounts, hhandles]
    exact h.count
  allocated := by
    rw [hcounts, hallocated]
    exact h.allocated
  slots j := by
    rw [hhandles]
    exact (hslots j).trans (h.slots j)
  nodup := hdropped ▸ h.nodup
  dropped := by
    rw [hcounts, hdropped]
    exact h.dropped
  releasing j hj := by
    rw [hcounts, hdropped]
    exact h.releasing j ((hreleasing j).mp hj)
  single := hsingle
  zero j hj := by
    rw [hdropped, hreleasing]
    rw [hcounts] at hj
    exact h.zero j hj
  upgrading := by
    rw [hcounts]
    exact hupgrading

/-! ### Handles -/

theorem reserve (h : s.Counted) (hfree : s.inFlight = []) (hid : id ∉ s.allocated) :
    (s.reserve id).Counted := by
  have hnone := h.allocated id hid
  have hcount : s.handles.count id = 0 := by
    rw [h.count, hnone, Option.getD_none]
  have hne : ∀ j, s.counts j ≠ none → j ≠ id := by
    rintro j hj rfl
    exact hj hnone
  exact {
    count := by
      intro j
      show (id :: s.handles).count j = (Function.update s.counts id (some 1) j).getD 0
      rw [List.count_cons, Function.update_apply]
      by_cases hj : j = id
      · subst hj
        simp [hcount]
      · simp [hj, Ne.symm hj, h.count]
    allocated := by
      intro j hj
      obtain ⟨hne, hj⟩ := not_or.mp (mt List.mem_cons.mpr hj)
      exact (Function.update_of_ne hne _ _).trans (h.allocated j hj)
    slots := by
      intro j
      show (id :: s.slots).count j ≤ (id :: s.handles).count j
      rw [List.count_cons, List.count_cons]
      exact Nat.add_le_add_right (h.slots j) _
    nodup := h.nodup
    dropped := by
      intro j hj
      have hzero := h.dropped j hj
      exact (Function.update_of_ne (hne j (by simp [hzero])) _ _).trans hzero
    releasing := by
      intro j hj
      rw [EntityMap.reserve, hfree] at hj
      cases hj
    single := by
      rw [EntityMap.reserve, hfree]
      simp
    zero := by
      intro j hj
      have hj : Function.update s.counts id (some 1) j = some 0 := hj
      rw [Function.update_apply] at hj
      split at hj
      · cases hj
      · exact h.zero j hj
    upgrading := by
      intro j loaded hj
      rw [EntityMap.reserve, hfree] at hj
      cases hj }

theorem insert (h : s.Counted) (entity : Value) : (s.insert id entity).Counted :=
  h.unchanged _ rfl rfl rfl (fun j => (List.erase_sublist.count_le j)) rfl (fun _ => Iff.rfl)
    h.upgrading h.single

theorem clone (h : s.Counted) (hid : id ∈ s.handles) :
    ∃ n, s.counts id = some (n + 1) ∧
      s.clone id = .ok { s with
        counts := Function.update s.counts id (some (n + 2)), handles := id :: s.handles } ∧
      Counted { s with
        counts := Function.update s.counts id (some (n + 2)), handles := id :: s.handles } := by
  obtain ⟨n, hn⟩ := h.counts_of_mem hid
  refine ⟨n, hn, ?_, h.update _ hn rfl (fun j => ?_) rfl (fun j => ?_) rfl (fun j => by simp)
    (fun j loaded hj => hj) h.single⟩
  · rw [EntityMap.clone, hn]
    rfl
  · show (id :: s.handles).count j = _
    rw [List.count_cons]
    by_cases hj : j = id
    · subst hj
      simp [h.count_eq hn]
    · simp [hj, Ne.symm hj]
  · exact (h.slots j).trans (List.sublist_cons_self _ _ |>.count_le j)

theorem drop (h : s.Counted) (hid : id ∈ s.handles)
    (hfree : ∀ t ∈ s.inFlight, ¬ t.isReleasing) {slots : List EntityId}
    (hslots : ∀ j, slots.count j ≤ (s.handles.erase id).count j) :
    ∃ n, s.counts id = some (n + 1) ∧
      EntityMap.drop { s with slots := slots } id = .ok (s.dropped id n slots) ∧
      (s.dropped id n slots).Counted := by
  obtain ⟨n, hn⟩ := h.counts_of_mem hid
  have hnone : s.inFlight.filter InFlight.isReleasing = [] :=
    List.filter_eq_nil_iff.mpr hfree
  refine ⟨n, hn, ?_, h.update _ hn rfl (fun j => ?_) rfl hslots rfl (fun j => ?_)
    (fun j loaded hj => ?_) ?_⟩
  · rw [EntityMap.drop]
    dsimp only
    rw [hn]
    rfl
  · show (s.handles.erase id).count j = _
    rw [List.count_erase]
    by_cases hj : j = id
    · subst hj
      simp [h.count_eq hn]
    · simp [hj, Ne.symm hj]
  · show .releasing j ∈ (if n + 1 = 1 then s.inFlight ++ [.releasing id] else s.inFlight) ↔ _
    by_cases hzero : n = 0
    · subst hzero
      simp
    · simp [hzero]
  · have hmem : .upgrading j loaded ∈
        if n + 1 = 1 then s.inFlight ++ [.releasing id] else s.inFlight := hj
    split at hmem
    · simpa using hmem
    · exact hmem
  · show ((if n + 1 = 1 then s.inFlight ++ [.releasing id] else s.inFlight).filter _).length ≤ 1
    split
    · rw [List.filter_append, hnone, List.nil_append]
      exact List.length_filter_le _ _
    · simp [hnone]

/-! ### Threads -/

/-- The thread that pushes its id is the only one with a lock. -/
theorem release (h : s.Counted) {thread : ℕ} (hthread : s.inFlight[thread]? = some (.releasing id))
    (hall : ∀ t ∈ s.inFlight, t.isReleasing) : (s.release thread id).Counted := by
  -- all that is in flight are releases, and there is at most one
  have hfilter : s.inFlight.filter InFlight.isReleasing = s.inFlight :=
    List.filter_eq_self.mpr hall
  have hsingle := h.single
  rw [hfilter] at hsingle
  have hmem : .releasing id ∈ s.inFlight := List.mem_of_getElem? hthread
  obtain ⟨only, honly⟩ := List.length_eq_one_iff.mp
    (Nat.le_antisymm hsingle (List.length_pos_of_mem hmem))
  obtain rfl : only = .releasing id := by
    rw [honly] at hmem
    exact (List.mem_singleton.mp hmem).symm
  have hnil : (s.release thread id).inFlight = [] := by
    have hlt := (List.getElem?_eq_some_iff.mp hthread).1
    rw [honly, List.length_singleton, Nat.lt_one_iff] at hlt
    show s.inFlight.eraseIdx thread = []
    rw [honly, hlt]
    rfl
  obtain ⟨hzero, hnot⟩ := h.releasing id hmem
  exact {
    count := h.count
    allocated := h.allocated
    slots := h.slots
    nodup := by
      refine List.nodup_append.mpr ⟨h.nodup, List.nodup_singleton _, ?_⟩
      rintro a ha b hb rfl
      exact hnot (List.mem_singleton.mp hb ▸ ha)
    dropped := by
      intro j hj
      rcases List.mem_append.mp hj with hj | hj
      · exact h.dropped j hj
      · exact List.mem_singleton.mp hj ▸ hzero
    releasing := by
      intro j hj
      rw [hnil] at hj
      cases hj
    single := by
      rw [hnil]
      simp
    zero := by
      intro j hj
      refine Or.inl ?_
      show j ∈ s.droppedEntityIds ++ [id]
      rcases h.zero j hj with hj | hj
      · exact List.mem_append_left _ hj
      · rw [honly, List.mem_singleton] at hj
        simp [InFlight.releasing.inj hj]
    upgrading := by
      intro j loaded hj
      rw [hnil] at hj
      cases hj }

/-- An attempt to upgrade, which succeeds only when the count is not zero. -/
theorem attempted (h : s.Counted) {n : ℕ} (hn : s.counts id = some n) {attempt : Attempt}
    (hupgraded : attempt = .upgraded → n ≠ 0)
    (hretry : ∀ loaded, attempt = .retry loaded → loaded ≠ 0) :
    (s.attempted id attempt).Counted := by
  cases attempt with
  | upgraded =>
    obtain ⟨m, rfl⟩ := Nat.exists_eq_succ_of_ne_zero (hupgraded rfl)
    refine h.update _ hn (m := m + 2) ?_ (fun j => ?_) rfl (fun j => ?_) rfl (fun j => ?_)
      (fun j loaded hj => hj) h.single
    · rw [EntityMap.attempted, hn]
      rfl
    · show (id :: s.handles).count j = _
      rw [List.count_cons]
      by_cases hj : j = id
      · subst hj
        simp [h.count_eq hn]
      · simp [hj, Ne.symm hj]
    · exact (h.slots j).trans (List.sublist_cons_self _ _ |>.count_le j)
    · show .releasing j ∈ s.inFlight ↔ _
      simp
  | failed => exact h
  | retry loaded =>
    refine h.unchanged _ rfl rfl rfl (fun j => le_rfl) rfl (fun j => ?_) (fun j l hj => ?_) ?_
    · simp [EntityMap.attempted]
    · rcases List.mem_append.mp hj with hj | hj
      · exact h.upgrading j l hj
      · obtain ⟨rfl, rfl⟩ := InFlight.upgrading.inj (List.mem_singleton.mp hj)
        exact ⟨by simp [hn], hretry l rfl⟩
    · show ((s.inFlight ++ [InFlight.upgrading id loaded]).filter InFlight.isReleasing).length ≤ 1
      rw [List.filter_append, List.filter_singleton]
      simpa [InFlight.isReleasing] using h.single

theorem upgrade (h : s.Counted) (id : EntityId) : (s.upgrade id).Counted := by
  rw [EntityMap.upgrade]
  split
  · exact h
  · rename_i count hcount
    refine h.attempted hcount ?_ ?_
    · intro hup
      rw [loadedCount] at hup
      split at hup <;> cases hup
    · intro loaded hretry
      rw [loadedCount] at hretry
      split at hretry
      · cases hretry
      · obtain rfl := Attempt.retry.inj hretry
        assumption

theorem compareExchangeWeak_spec (count : ℕ) {loaded : ℕ} (hloaded : loaded ≠ 0)
    (spurious : Bool) :
    (compareExchangeWeak count loaded spurious = .upgraded → count ≠ 0) ∧
      (compareExchangeWeak count loaded spurious = .failed ↔ count = 0) ∧
      ∀ n, compareExchangeWeak count loaded spurious = .retry n → n ≠ 0 := by
  rw [compareExchangeWeak, loadedCount]
  by_cases heq : count = loaded ∧ spurious = false
  · rw [if_pos heq]
    refine ⟨fun _ => heq.1 ▸ hloaded, ⟨by simp, fun h => absurd (heq.1 ▸ h) hloaded⟩, by simp⟩
  · rw [if_neg heq]
    by_cases hzero : count = 0
    · simp [hzero]
    · simp [hzero]

theorem exchange (h : s.Counted) {thread : ℕ} {loaded count : ℕ}
    (hthread : s.inFlight[thread]? = some (.upgrading id loaded))
    (hcount : s.counts id = some count)
    (spurious : Bool) : (s.exchange thread id count loaded spurious).Counted := by
  obtain ⟨hlt, hget⟩ := List.getElem?_eq_some_iff.mp hthread
  have hperm : (InFlight.upgrading id loaded :: s.inFlight.eraseIdx thread).Perm s.inFlight :=
    hget ▸ List.getElem_cons_eraseIdx_perm hlt
  obtain ⟨-, hloaded⟩ := h.upgrading id loaded (List.mem_of_getElem? hthread)
  -- The thread is taken away, and comes back when it has to try again.
  have herased : Counted { s with inFlight := s.inFlight.eraseIdx thread } := by
    refine h.unchanged _ rfl rfl rfl (fun j => le_rfl) rfl (fun j => ?_) (fun j l hj => ?_) ?_
    · rw [← hperm.mem_iff]
      simp
    · exact h.upgrading j l (List.mem_of_mem_eraseIdx hj)
    · exact ((List.eraseIdx_sublist _ _).filter _).length_le.trans h.single
  obtain ⟨hup, -, hretry⟩ := compareExchangeWeak_spec count hloaded spurious
  exact herased.attempted hcount hup hretry

end Counted

/-! ### The sweep -/

/-- The map after `take_dropped` has gone through the ids. -/
def taken (s : EntityMap EntityId Value) (ids : List EntityId) : EntityMap EntityId Value :=
  { s with
      counts := fun id => if id ∈ ids then none else s.counts id
      accessedEntities := fun id => if id ∈ ids then false else s.accessedEntities id
      entities := fun id => if id ∈ ids then none else s.entities id
      returned := s.returned ++
        ids.filterMap fun id => (s.entities id).map fun entity => (id, entity) }

theorem taken_cons (hid : id ∉ ids) : (s.taken [id]).taken ids = s.taken (id :: ids) := by
  have hvalues : ids.filterMap (fun j => ((s.taken [id]).entities j).map fun entity =>
    (j, entity)) =
      ids.filterMap fun j => (s.entities j).map fun entity => (j, entity) := by
    refine List.filterMap_congr fun j hj => ?_
    have hne : j ≠ id := by
      rintro rfl
      exact hid hj
    simp [taken, hne]
  have hmerge : ∀ {α : Type} (f : EntityId → α) (a : α), (fun j => if j ∈ ids then a else
      if j ∈ [id] then a else f j) = fun j => if j ∈ id :: ids then a else f j := by
    intro α f a
    funext j
    by_cases hj : j ∈ ids <;> by_cases hji : j = id <;> simp [hj, hji]
  rw [taken, hvalues]
  simp only [taken, hmerge, List.append_assoc]
  cases hentity : s.entities id <;> simp [hentity]

theorem takeOne_ok (hid : s.counts id = some 0) : s.takeOne id = .ok (s.taken [id]) := by
  have hupdate : ∀ {α : Type} (f : EntityId → α) (a : α),
      Function.update f id a = fun j => if j ∈ [id] then a else f j := by
    intro α f a
    funext j
    rw [Function.update_apply]
    simp
  rw [takeOne, hid]
  simp only [taken, hupdate]
  cases hentity : s.entities id <;> simp [hentity]

/-- The sweep finds every id with a count of zero, and goes through all of them. -/
theorem foldlM_takeOne : ∀ {ids : List EntityId} {s : EntityMap EntityId Value}, ids.Nodup →
    (∀ id ∈ ids, s.counts id = some 0) → ids.foldlM takeOne s = .ok (s.taken ids) := by
  intro ids
  induction ids with
  | nil =>
    intro s _ _
    simp [taken, pure, Except.pure]
  | cons id ids ih =>
    intro s hnodup hzero
    obtain ⟨hid, hnodup⟩ := List.nodup_cons.mp hnodup
    rw [List.foldlM_cons, takeOne_ok (hzero id (by simp)), ok_bind, ih hnodup, taken_cons hid]
    intro j hj
    have hne : j ≠ id := by
      rintro rfl
      exact hid hj
    simpa [taken, hne] using hzero j (by simp [hj])

namespace Counted

theorem takeDropped_ok (h : s.Counted) :
    s.takeDropped = .ok (taken { s with droppedEntityIds := [] } s.droppedEntityIds) := by
  rw [EntityMap.takeDropped]
  exact foldlM_takeOne h.nodup h.dropped

theorem taken (h : s.Counted) (hfree : s.inFlight = []) :
    (EntityMap.taken { s with droppedEntityIds := [] } s.droppedEntityIds).Counted where
  count j := by
    show s.handles.count j = (if j ∈ s.droppedEntityIds then none else s.counts j).getD 0
    rw [h.count]
    split
    · rename_i hj
      rw [h.dropped j hj]
      rfl
    · rfl
  allocated j hj := by
    show (if j ∈ s.droppedEntityIds then none else s.counts j) = none
    rw [h.allocated j hj, ite_self]
  slots := h.slots
  nodup := List.nodup_nil
  dropped := by simp [EntityMap.taken]
  releasing := by simp [EntityMap.taken, hfree]
  single := by simp [EntityMap.taken, hfree]
  zero j hj := by
    have hj : (if j ∈ s.droppedEntityIds then none else s.counts j) = some 0 := hj
    split at hj
    · cases hj
    · rcases h.zero j hj with hmem | hmem
      · contradiction
      · rw [hfree] at hmem
        cases hmem
  upgrading := by simp [EntityMap.taken, hfree]

end Counted

end EntityMap

end Zui.Gpui
