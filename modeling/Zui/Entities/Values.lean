/-
The values of the entities, and runs of the entity map.

* `Placed` — the value of an inserted entity is in the map, leased or returned, and in
  one of these places only;
* `Kept` — a value that was not returned has a count.  A value that is leased while its
  entity is swept comes back without one, so `take_dropped` must not be called then
  (`Disciplined`): who leases an entity keeps a handle of it;
* `reference_counts` — what holds in every state of a disciplined run.
-/
import Zui.Entities.Counts

namespace Zui.Gpui

namespace EntityMap

variable {EntityId Value : Type} [DecidableEq EntityId]

/-- The entities that are leased. -/
def leasedIds (s : EntityMap EntityId Value) : List EntityId :=
  s.leases.map Prod.fst

/-- The entities whose value was returned. -/
def returnedIds (s : EntityMap EntityId Value) : List EntityId :=
  s.returned.map Prod.fst

/-- What holds of the values in every state. -/
structure Placed (s : EntityMap EntityId Value) : Prop where
  place : ∀ id, (s.entities id).toList.length + s.leasedIds.count id + s.returnedIds.count id =
    s.inserted.count id
  once : ∀ id, s.inserted.count id + s.slots.count id ≤ 1
  allocated : ∀ id ∈ s.inserted, id ∈ s.allocated
  gone : ∀ id ∈ s.returnedIds, s.counts id = none

/-- A value that is in the map or leased has a count. -/
def Kept (s : EntityMap EntityId Value) : Prop :=
  ∀ id, s.entities id ≠ none ∨ id ∈ s.leasedIds → s.counts id ≠ none

variable {s s' : EntityMap EntityId Value} {id : EntityId} {ids : List EntityId}

theorem placed_new : (new : EntityMap EntityId Value).Placed := by
  constructor <;> simp [new, leasedIds, returnedIds]

omit [DecidableEq EntityId] in
theorem kept_new : (new : EntityMap EntityId Value).Kept := by
  simp [Kept, new, leasedIds]

namespace Placed

theorem counted (hp : s.Placed) (t : EntityMap EntityId Value)
    (hcounts : ∀ j, t.counts j = none ↔ s.counts j = none) (hentities : t.entities = s.entities)
    (hleases : t.leases = s.leases) (hreturned : t.returned = s.returned)
    (hinserted : t.inserted = s.inserted) (hallocated : t.allocated = s.allocated)
    (hslots : ∀ j, t.slots.count j ≤ s.slots.count j) : t.Placed where
  place j := by
    rw [hentities, leasedIds, hleases, returnedIds, hreturned, hinserted]
    exact hp.place j
  once j := by
    rw [hinserted]
    exact (Nat.add_le_add_left (hslots j) _).trans (hp.once j)
  allocated := by
    rw [hinserted, hallocated]
    exact hp.allocated
  gone j hj := by
    rw [returnedIds, hreturned] at hj
    exact (hcounts j).mpr (hp.gone j hj)

end Placed

omit [DecidableEq EntityId] in
theorem Kept.counted (hk : s.Kept) (t : EntityMap EntityId Value)
    (hcounts : ∀ j, t.counts j = none ↔ s.counts j = none) (hentities : t.entities = s.entities)
    (hleases : t.leases = s.leases) : t.Kept := by
  intro j hj
  rw [hentities, leasedIds, hleases] at hj
  rw [ne_eq, hcounts]
  exact hk j hj

theorem update_eq_none {n m : ℕ} (hn : s.counts id = some n) (j : EntityId) :
    Function.update s.counts id (some m) j = none ↔ s.counts j = none := by
  rw [Function.update_apply]
  by_cases hj : j = id
  · simp [hj, hn]
  · simp [hj]

theorem count_taken (hnodup : ids.Nodup) (id : EntityId) :
    ((ids.filterMap fun j => (s.entities j).map fun entity => (j, entity)).map Prod.fst).count id =
      if id ∈ ids then (s.entities id).toList.length else 0 := by
  induction ids with
  | nil => rfl
  | cons a ids ih =>
    obtain ⟨ha, hnodup⟩ := List.nodup_cons.mp hnodup
    rw [List.filterMap_cons]
    cases hentity : s.entities a with
    | none =>
      simp only [Option.map_none]
      rw [ih hnodup]
      by_cases hid : id = a
      · subst hid
        simp [ha, hentity]
      · simp [hid]
    | some entity =>
      simp only [Option.map_some, List.map_cons, List.count_cons]
      rw [ih hnodup]
      by_cases hid : id = a
      · subst hid
        simp [ha, hentity]
      · simp [hid, Ne.symm hid]

namespace Placed

theorem reserve (hp : s.Placed) (hc : s.Counted) (hid : id ∉ s.allocated) :
    (s.reserve id).Placed where
  place := hp.place
  once j := by
    show s.inserted.count j + (id :: s.slots).count j ≤ 1
    rw [List.count_cons]
    by_cases hj : j = id
    · subst hj
      -- The key is new, so it was not inserted and has no other slot.
      have hinserted : s.inserted.count j = 0 :=
        List.count_eq_zero.mpr fun hmem => hid (hp.allocated j hmem)
      have hslots := hc.slots j
      rw [hc.count, hc.allocated j hid, Option.getD_none] at hslots
      simp only [BEq.rfl, if_true]
      omega
    · simpa [Ne.symm hj] using hp.once j
  allocated j hj := List.mem_cons_of_mem _ (hp.allocated j hj)
  gone j hj := by
    have hne : j ≠ id := by
      rintro rfl
      have hplace := hp.place j
      have hpos : 0 < s.returnedIds.count j := List.count_pos_iff.mpr hj
      exact hid (hp.allocated j (List.count_pos_iff.mp (by omega)))
    exact (Function.update_of_ne hne _ _).trans (hp.gone j hj)

theorem insert (hp : s.Placed) (hc : s.Counted) (hid : id ∈ s.slots) (entity : Value) :
    (s.insert id entity).Placed where
  place j := by
    show (Function.update s.entities id (some entity) j).toList.length + _ + _ =
      (id :: s.inserted).count j
    rw [Function.update_apply, List.count_cons]
    have hplace := hp.place j
    by_cases hj : j = id
    · subst hj
      have honce := hp.once j
      have hpos : 0 < s.slots.count j := List.count_pos_iff.mpr hid
      simp only [if_true, BEq.rfl, Option.toList_some, List.length_singleton]
      show 1 + s.leasedIds.count j + s.returnedIds.count j = _
      omega
    · have hbeq : (id == j) = false := by simpa using Ne.symm hj
      rw [if_neg hj, hbeq]
      exact hplace
  once j := by
    show (id :: s.inserted).count j + (s.slots.erase id).count j ≤ 1
    rw [List.count_cons, List.count_erase]
    have honce := hp.once j
    by_cases hj : j = id
    · subst hj
      have hpos : 0 < s.slots.count j := List.count_pos_iff.mpr hid
      simp only [if_true, BEq.rfl]
      omega
    · simpa [Ne.symm hj] using honce
  allocated j hj := by
    rcases List.mem_cons.mp hj with rfl | hj
    · have hmem : j ∈ s.handles :=
        List.count_pos_iff.mp ((List.count_pos_iff.mpr hid).trans_le (hc.slots j))
      obtain ⟨n, hn⟩ := hc.counts_of_mem hmem
      exact hc.allocated_of_counts (by simp [hn])
    · exact hp.allocated j hj
  gone := hp.gone

theorem lease (hp : s.Placed) {entity : Value} (hentity : s.entities id = some entity) :
    ∃ t, s.lease id = .ok t ∧ t.Placed := by
  refine ⟨_, by rw [EntityMap.lease, hentity], ?_⟩
  refine ⟨fun j => ?_, hp.once, hp.allocated, hp.gone⟩
  show (Function.update s.entities id none j).toList.length +
    (((id, entity) :: s.leases).map Prod.fst).count j + s.returnedIds.count j = s.inserted.count j
  rw [Function.update_apply, List.map_cons, List.count_cons, ← hp.place j]
  by_cases hj : j = id
  · subst hj
    simp only [if_true, BEq.rfl, hentity, Option.toList_some, Option.toList_none,
      List.length_singleton, List.length_nil, leasedIds]
    omega
  · simp [hj, Ne.symm hj, leasedIds]

theorem endLease (hp : s.Placed) {lease : EntityId × Value}
    (hfind : (s.leases.find? fun other => other.1 = id) = some lease) (entity : Value) :
    (s.endLease lease entity).Placed := by
  have hid : lease.1 = id := by simpa using List.find?_some hfind
  have hmem : id ∈ s.leasedIds := hid ▸ List.mem_map_of_mem (List.mem_of_find?_eq_some hfind)
  have herase : (s.leases.eraseP fun other => other.1 = id).map Prod.fst =
    s.leasedIds.erase id := by
    rw [leasedIds, List.erase_eq_eraseP, List.eraseP_map]
    congr 2
    funext other
    simp [Function.comp, eq_comm, Bool.beq_eq_decide_eq]
  refine ⟨fun j => ?_, hp.once, hp.allocated, hp.gone⟩
  show (Function.update s.entities lease.1 (some entity) j).toList.length +
    ((s.leases.eraseP fun other => other.1 = lease.1).map Prod.fst).count j +
      s.returnedIds.count j = s.inserted.count j
  have hplace := hp.place j
  rw [hid, herase, Function.update_apply, List.count_erase]
  by_cases hj : j = id
  · -- Its value was not in the map, for it is in one place only.
    subst hj
    have hpos : 0 < s.leasedIds.count j := List.count_pos_iff.mpr hmem
    have honce := hp.once j
    simp only [if_true, BEq.rfl, Option.toList_some, List.length_singleton]
    omega
  · have hbeq : (id == j) = false := by simpa using Ne.symm hj
    rw [if_neg hj, hbeq]
    exact hplace

theorem taken (hp : s.Placed) (hc : s.Counted) :
    (EntityMap.taken { s with droppedEntityIds := [] } s.droppedEntityIds).Placed where
  place j := by
    have hplace := hp.place j
    show (if j ∈ s.droppedEntityIds then none else s.entities j).toList.length +
      s.leasedIds.count j + ((s.returned ++ _).map Prod.fst).count j = s.inserted.count j
    rw [List.map_append, List.count_append, count_taken hc.nodup]
    split
    · simp only [Option.toList_none, List.length_nil]
      rw [← hplace, returnedIds]
      omega
    · rw [← hplace, returnedIds]
      omega
  once := hp.once
  allocated := hp.allocated
  gone j hj := by
    show (if j ∈ s.droppedEntityIds then none else s.counts j) = none
    by_cases hmem : j ∈ s.droppedEntityIds
    · rw [if_pos hmem]
    · rw [if_neg hmem]
      refine hp.gone j ?_
      have hcount : 0 < ((s.returned ++ s.droppedEntityIds.filterMap fun id =>
          (s.entities id).map fun entity => (id, entity)).map Prod.fst).count j :=
        List.count_pos_iff.mpr hj
      rw [List.map_append, List.count_append, count_taken hc.nodup, if_neg hmem] at hcount
      exact List.count_pos_iff.mp hcount

end Placed

/-! ### Runs -/

/-- `take_dropped` is not called while an entity without handles is leased. -/
def Disciplined (s : EntityMap EntityId Value) : EntityOp EntityId Value → Prop
  | .takeDropped => ∀ id ∈ s.leasedIds, id ∉ s.droppedEntityIds
  | _ => True

instance (s : EntityMap EntityId Value) (op : EntityOp EntityId Value) :
    Decidable (s.Disciplined op) :=
  match op with
  | .takeDropped => inferInstanceAs (Decidable (∀ id ∈ s.leasedIds, id ∉ s.droppedEntityIds))
  | .reserve _ | .insert _ _ | .clone _ | .drop _ | .dropSlot _ | .release _ | .upgrade _
  | .exchange _ _ | .lease _ | .endLease _ _ => inferInstanceAs (Decidable True)

/-- What a step leads to: a state in which the invariants hold again. -/
structure Stepped (s : EntityMap EntityId Value) (op : EntityOp EntityId Value)
    (t : EntityMap EntityId Value) : Prop where
  counted : t.Counted
  placed : t.Placed
  kept : s.Disciplined op → s.Kept → t.Kept

/-- A step on the counts, which leaves the values where they are. -/
theorem Stepped.onCounts (hp : s.Placed) {op : EntityOp EntityId Value}
    (t : EntityMap EntityId Value) (hc : t.Counted)
    (hcounts : ∀ j, t.counts j = none ↔ s.counts j = none) (hentities : t.entities = s.entities)
    (hleases : t.leases = s.leases) (hreturned : t.returned = s.returned)
    (hinserted : t.inserted = s.inserted) (hallocated : t.allocated = s.allocated)
    (hslots : ∀ j, t.slots.count j ≤ s.slots.count j) : s.Stepped op t where
  counted := hc
  placed := hp.counted t hcounts hentities hleases hreturned hinserted hallocated hslots
  kept _ hk := hk.counted t hcounts hentities hleases

theorem attempted_onCounts (op : EntityOp EntityId Value) (hp : s.Placed) {attempt : Attempt}
    (hc : (s.attempted id attempt).Counted) : s.Stepped op (s.attempted id attempt) := by
  cases attempt with
  | upgraded =>
    refine .onCounts hp _ hc (fun j => ?_) rfl rfl rfl rfl rfl fun j => le_rfl
    show Function.update s.counts id _ j = none ↔ _
    rw [Function.update_apply]
    by_cases hj : j = id
    · simp [hj]
    · simp [hj]
  | failed => exact .onCounts hp _ hc (fun j => Iff.rfl) rfl rfl rfl rfl rfl fun j => le_rfl
  | retry loaded => exact .onCounts hp _ hc (fun j => Iff.rfl) rfl rfl rfl rfl rfl fun j => le_rfl

theorem Stepped.drop (op : EntityOp EntityId Value) (hp : s.Placed) (hc : s.Counted)
    (hid : id ∈ s.handles) (hfree : ∀ t ∈ s.inFlight, ¬ t.isReleasing) {slots : List EntityId}
    (hslots : ∀ j, slots.count j ≤ (s.handles.erase id).count j)
    (hslots' : ∀ j, slots.count j ≤ s.slots.count j) :
    ∃ t, EntityMap.drop { s with slots := slots } id = .ok t ∧ s.Stepped op t := by
  obtain ⟨n, hn, hdrop, hc'⟩ := hc.drop hid hfree hslots
  exact ⟨_, hdrop, .onCounts hp _ hc' (update_eq_none hn) rfl rfl rfl rfl rfl hslots'⟩

/-- A step keeps the invariants, and only `lease` panics. -/
theorem step_spec (hc : s.Counted) (hp : s.Placed) {op : EntityOp EntityId Value}
    {r : Except EntityPanic (EntityMap EntityId Value)} (hstep : s.step op = some r) :
    (∃ t, r = .ok t ∧ s.Stepped op t) ∨ ∃ id, op = .lease id ∧ s.entities id = none := by
  cases op with
  | reserve id =>
    obtain ⟨⟨hfree, hid⟩, h⟩ := Option.ite_none_right_eq_some.mp hstep
    have hpos : ∀ j, s.counts j ≠ none → Function.update s.counts id (some 1) j ≠ none := by
      intro j hj
      rw [Function.update_apply]
      split
      · simp
      · exact hj
    exact Or.inl ⟨_, (Option.some.inj h).symm, hc.reserve hfree hid, hp.reserve hc hid,
      fun _ hk j hj => hpos j (hk j hj)⟩
  | insert id entity =>
    obtain ⟨hid, h⟩ := Option.ite_none_right_eq_some.mp hstep
    have hmem : id ∈ s.handles :=
      List.count_pos_iff.mp ((List.count_pos_iff.mpr hid).trans_le (hc.slots id))
    obtain ⟨n, hn⟩ := hc.counts_of_mem hmem
    refine Or.inl ⟨_, (Option.some.inj h).symm, hc.insert entity, hp.insert hc hid entity,
      fun _ hk j hj => ?_⟩
    show s.counts j ≠ none
    by_cases hji : j = id
    · simp [hji, hn]
    · have hentity : (s.insert id entity).entities j = s.entities j := Function.update_of_ne hji _ _
      rw [hentity] at hj
      exact hk j hj
  | clone id =>
    obtain ⟨hid, h⟩ := Option.ite_none_right_eq_some.mp hstep
    obtain ⟨n, hn, hclone, hc'⟩ := hc.clone hid
    rw [hclone] at h
    exact Or.inl ⟨_, (Option.some.inj h).symm, .onCounts hp _ hc' (update_eq_none hn) rfl rfl rfl
      rfl rfl fun j => le_rfl⟩
  | drop id =>
    obtain ⟨⟨hlt, hfree⟩, h⟩ := Option.ite_none_right_eq_some.mp hstep
    have hid : id ∈ s.handles := List.count_pos_iff.mp (Nat.zero_lt_of_lt hlt)
    have hslots : ∀ j, s.slots.count j ≤ (s.handles.erase id).count j := by
      intro j
      rw [List.count_erase]
      by_cases hj : j = id
      · subst hj
        simp only [BEq.rfl, if_true]
        omega
      · simpa [Ne.symm hj] using hc.slots j
    obtain ⟨t, hdrop, hstepped⟩ := Stepped.drop (.drop id) hp hc hid hfree hslots
      fun j => le_rfl
    exact Or.inl ⟨t, (Option.some.inj h).symm.trans hdrop, hstepped⟩
  | dropSlot id =>
    obtain ⟨⟨hmem, hfree⟩, h⟩ := Option.ite_none_right_eq_some.mp hstep
    have hpos : 0 < s.slots.count id := List.count_pos_iff.mpr hmem
    have hid : id ∈ s.handles := List.count_pos_iff.mp (hpos.trans_le (hc.slots id))
    have hslots : ∀ j, (s.slots.erase id).count j ≤ (s.handles.erase id).count j := by
      intro j
      rw [List.count_erase, List.count_erase]
      exact Nat.sub_le_sub_right (hc.slots j) _
    obtain ⟨t, hdrop, hstepped⟩ := Stepped.drop (.dropSlot id) hp hc hid hfree hslots
      fun j => List.erase_sublist.count_le j
    exact Or.inl ⟨t, (Option.some.inj h).symm.trans hdrop, hstepped⟩
  | release thread =>
    rw [step] at hstep
    split at hstep
    · obtain ⟨hall, h⟩ := Option.ite_none_right_eq_some.mp hstep
      exact Or.inl ⟨_, (Option.some.inj h).symm, .onCounts hp _ (hc.release ‹_› hall)
        (fun j => Iff.rfl) rfl rfl rfl rfl rfl fun j => le_rfl⟩
    · cases hstep
  | upgrade id =>
    refine Or.inl ⟨_, (Option.some.inj hstep).symm, ?_⟩
    have hc' := hc.upgrade id
    rw [EntityMap.upgrade] at hc' ⊢
    split at hc'
    · exact .onCounts hp _ hc' (fun j => Iff.rfl) rfl rfl rfl rfl rfl fun j => le_rfl
    · exact attempted_onCounts _ hp hc'
  | exchange thread spurious =>
    rw [step] at hstep
    split at hstep
    · rename_i id loaded hthread
      obtain ⟨count, hcount, h⟩ := Option.map_eq_some_iff.mp hstep
      have herased : ({ s with inFlight := s.inFlight.eraseIdx thread } :
          EntityMap EntityId Value).Placed := ⟨hp.place, hp.once, hp.allocated, hp.gone⟩
      obtain ⟨hc', hp', hk'⟩ := attempted_onCounts (.exchange thread spurious) herased
        (hc.exchange hthread hcount spurious)
      exact Or.inl ⟨_, h.symm, hc', hp', fun _ hk => hk' trivial hk⟩
    · cases hstep
  | lease id =>
    obtain ⟨hid, h⟩ := Option.ite_none_right_eq_some.mp hstep
    cases hentity : s.entities id with
    | none => exact Or.inr ⟨id, rfl, hentity⟩
    | some entity =>
      obtain ⟨t, hlease, hp'⟩ := hp.lease hentity
      refine Or.inl ⟨t, (Option.some.inj h).symm.trans hlease, ?_⟩
      rw [EntityMap.lease, hentity] at hlease
      obtain rfl := Except.ok.inj hlease
      refine ⟨⟨hc.count, hc.allocated, hc.slots, hc.nodup, hc.dropped, hc.releasing, hc.single,
        hc.zero, hc.upgrading⟩, hp', fun _ hk j hj => hk j ?_⟩
      by_cases hji : j = id
      · exact Or.inl (by simp [hji, hentity])
      · refine hj.imp (fun hj => ?_) fun hj => ?_
        · exact (Function.update_of_ne hji _ _).symm.trans_ne hj
        · exact (List.mem_cons.mp hj).resolve_left hji
  | endLease id entity =>
    obtain ⟨lease, hfind, h⟩ := Option.map_eq_some_iff.mp hstep
    have hmem : lease.1 ∈ s.leasedIds := List.mem_map_of_mem (List.mem_of_find?_eq_some hfind)
    refine Or.inl ⟨_, h.symm, ⟨hc.count, hc.allocated, hc.slots, hc.nodup, hc.dropped,
      hc.releasing, hc.single, hc.zero, hc.upgrading⟩, hp.endLease hfind entity,
      fun _ hk j hj => hk j ?_⟩
    by_cases hji : j = lease.1
    · exact Or.inr (hji ▸ hmem)
    · refine hj.imp (fun hj => ?_) fun hj => ?_
      · exact (Function.update_of_ne hji _ _).symm.trans_ne hj
      · obtain ⟨other, hother, rfl⟩ := List.mem_map.mp hj
        exact List.mem_map_of_mem (List.mem_of_mem_eraseP hother)
  | takeDropped =>
    obtain ⟨hfree, h⟩ := Option.ite_none_right_eq_some.mp hstep
    rw [hc.takeDropped_ok] at h
    refine Or.inl ⟨_, (Option.some.inj h).symm, hc.taken hfree, hp.taken hc,
      fun hdisciplined hk j hj => ?_⟩
    -- A value that is left belongs to an id that was not swept.
    have hnot : j ∉ s.droppedEntityIds := by
      rcases hj with hj | hj
      · intro hmem
        exact hj (if_pos hmem)
      · exact hdisciplined j hj
    show (if j ∈ s.droppedEntityIds then none else s.counts j) ≠ none
    rw [if_neg hnot]
    refine hk j (hj.imp_left fun hj => ?_)
    have hentity : (if j ∈ s.droppedEntityIds then none else s.entities j) ≠ none := hj
    rwa [if_neg hnot] at hentity

/-- The states that steps which are allowed lead to. -/
inductive Reachable (allowed : EntityMap EntityId Value → EntityOp EntityId Value → Prop) :
    EntityMap EntityId Value → Prop
  | new : Reachable allowed EntityMap.new
  | step {s s' : EntityMap EntityId Value} {op : EntityOp EntityId Value}
      (hs : Reachable allowed s) (hop : allowed s op) (hstep : s.step op = some (.ok s')) :
      Reachable allowed s'

/-- Takes steps one after another, as long as they are allowed. -/
def run (allowed : EntityMap EntityId Value → EntityOp EntityId Value → Prop)
    [∀ s op, Decidable (allowed s op)] (s : EntityMap EntityId Value) :
    List (EntityOp EntityId Value) → Option (EntityMap EntityId Value)
  | [] => some s
  | op :: ops =>
    if allowed s op then
      match s.step op with
      | some (.ok s') => s'.run allowed ops
      | _ => none
    else none

theorem Reachable.run {allowed : EntityMap EntityId Value → EntityOp EntityId Value → Prop}
    [∀ s op, Decidable (allowed s op)] :
    ∀ {s : EntityMap EntityId Value} {ops : List (EntityOp EntityId Value)},
      Reachable allowed s → s.run allowed ops = some s' → Reachable allowed s' := by
  intro s ops
  induction ops generalizing s with
  | nil =>
    intro hs hrun
    exact Option.some.inj hrun ▸ hs
  | cons op ops ih =>
    intro hs hrun
    rw [EntityMap.run] at hrun
    split at hrun
    · split at hrun
      · exact ih (.step hs ‹_› ‹_›) hrun
      · cases hrun
    · cases hrun

theorem Reachable.invariants {allowed : EntityMap EntityId Value → EntityOp EntityId Value → Prop}
    (h : Reachable allowed s) : s.Counted ∧ s.Placed := by
  induction h with
  | new => exact ⟨counted_new, placed_new⟩
  | step _ _ hstep ih =>
    rcases step_spec ih.1 ih.2 hstep with ⟨t, ht, hstepped⟩ | ⟨id, rfl, hnone⟩
    · obtain rfl := Except.ok.inj ht
      exact ⟨hstepped.counted, hstepped.placed⟩
    · -- The lease would have panicked.
      obtain ⟨-, h⟩ := Option.ite_none_right_eq_some.mp hstep
      rw [EntityMap.lease, hnone] at h
      cases Option.some.inj h

theorem Reachable.kept (h : Reachable Disciplined s) : s.Kept := by
  induction h with
  | new => exact kept_new
  | step hs hop hstep ih =>
    obtain ⟨hc, hp⟩ := hs.invariants
    rcases step_spec hc hp hstep with ⟨t, ht, hstepped⟩ | ⟨id, rfl, hnone⟩
    · obtain rfl := Except.ok.inj ht
      exact hstepped.kept hop ih
    · obtain ⟨-, h⟩ := Option.ite_none_right_eq_some.mp hstep
      rw [EntityMap.lease, hnone] at h
      cases Option.some.inj h

/-- What holds in a state of the entity map. -/
structure Sound (s : EntityMap EntityId Value) : Prop where
  /-- The count of an id is the number of its strong handles. -/
  count : ∀ id, (s.counts id).getD 0 = s.handles.count id
  /-- A dropped id is in the list once, and only while its count is zero. -/
  nodup : s.droppedEntityIds.Nodup
  dropped : ∀ id ∈ s.droppedEntityIds, s.counts id = some 0
  /-- No step panics, but a lease of a value that is not there. -/
  noPanic : ∀ op e, s.step op = some (.error e) → ∃ id, op = .lease id ∧ s.entities id = none
  /-- `take_dropped` returns values of entities without strong handles, and those of all
  inserted entities without strong handles. -/
  takes : ∀ t, s.Disciplined .takeDropped → s.step .takeDropped = some (.ok t) →
    ∃ taken, t.returned = s.returned ++ taken ∧
      (∀ entry ∈ taken, s.handles.count entry.1 = 0) ∧
      ∀ id ∈ s.inserted, s.handles.count id = 0 → id ∈ t.returnedIds
  /-- No value is returned twice. -/
  once : s.returnedIds.Nodup
  /-- The load of a weak upgrade: it fails when the count is zero, and goes on else. -/
  load : ∀ id, s.upgrade id = if (s.counts id).getD 0 = 0 then s else
    { s with inFlight := s.inFlight ++ [.upgrading id ((s.counts id).getD 0)] }
  /-- The exchange of a weak upgrade: it succeeds only when the count is not zero, and
  fails just when it is zero. -/
  upgrades : ∀ id loaded, .upgrading id loaded ∈ s.inFlight → ∃ count, s.counts id = some count ∧
    ∀ spurious, (compareExchangeWeak count loaded spurious = .upgraded → count ≠ 0) ∧
      (compareExchangeWeak count loaded spurious = .failed ↔ count = 0)
  /-- No handle refers to a value that was returned. -/
  alive : ∀ id ∈ s.handles, id ∉ s.returnedIds ∧
    (id ∈ s.inserted → s.entities id ≠ none ∨ id ∈ s.leasedIds)

theorem Placed.returned_or (hp : s.Placed) (hid : id ∈ s.inserted) :
    id ∈ s.returnedIds ∨ s.entities id ≠ none ∨ id ∈ s.leasedIds := by
  by_contra! hno
  obtain ⟨hreturned, hentity, hleased⟩ := hno
  have hplace := hp.place id
  rw [hentity, List.count_eq_zero.mpr hreturned, List.count_eq_zero.mpr hleased] at hplace
  have hpos : 0 < s.inserted.count id := List.count_pos_iff.mpr hid
  simp only [Option.toList_none, List.length_nil] at hplace
  omega

theorem sound_takes (hc : s.Counted) (hp : s.Placed) (hk : s.Kept) {t : EntityMap EntityId Value}
    (hdisciplined : s.Disciplined .takeDropped) (hstep : s.step .takeDropped = some (.ok t)) :
    ∃ taken, t.returned = s.returned ++ taken ∧ (∀ entry ∈ taken, s.handles.count entry.1 = 0) ∧
      ∀ id ∈ s.inserted, s.handles.count id = 0 → id ∈ t.returnedIds := by
  obtain ⟨hfree, h⟩ := Option.ite_none_right_eq_some.mp hstep
  rw [hc.takeDropped_ok] at h
  obtain rfl := Except.ok.inj (Option.some.inj h)
  refine ⟨_, rfl, fun entry hentry => ?_, fun id hid hzero => ?_⟩
  · obtain ⟨id, hid, hsome⟩ := List.mem_filterMap.mp hentry
    obtain ⟨entity, -, rfl⟩ := Option.map_eq_some_iff.mp hsome
    exact hc.count_eq (hc.dropped id hid)
  · show id ∈ (s.returned ++ s.droppedEntityIds.filterMap fun id =>
      (s.entities id).map fun entity => (id, entity)).map Prod.fst
    rw [List.map_append, List.mem_append]
    rcases hp.returned_or hid with hreturned | halive
    · exact Or.inl hreturned
    · -- It has a count, which is zero, so its id waits in the list.
      have hcount : s.counts id = some 0 := by
        cases hcount : s.counts id with
        | none => exact absurd hcount (hk id halive)
        | some n =>
          rw [hc.count_eq hcount] at hzero
          rw [hzero]
      have hdropped : id ∈ s.droppedEntityIds := by
        rcases hc.zero id hcount with hmem | hmem
        · exact hmem
        · rw [hfree] at hmem
          cases hmem
      obtain ⟨entity, hentity⟩ := Option.ne_none_iff_exists'.mp
        (halive.resolve_right fun hleased => hdisciplined id hleased hdropped)
      exact Or.inr (List.mem_map.mpr ⟨(id, entity), List.mem_filterMap.mpr
        ⟨id, hdropped, by simp [hentity]⟩, rfl⟩)

theorem upgrade_eq (s : EntityMap EntityId Value) (id : EntityId) :
    s.upgrade id = if (s.counts id).getD 0 = 0 then s else
      { s with inFlight := s.inFlight ++ [.upgrading id ((s.counts id).getD 0)] } := by
  rw [upgrade]
  cases hcount : s.counts id with
  | none => rfl
  | some count =>
    rw [Option.getD_some]
    dsimp only
    rw [loadedCount]
    split
    · rfl
    · rfl

end EntityMap

/-- **Reference counts.**  In every state of a disciplined run, whatever the threads do,
the counts are those of the strong handles, the dropped list has no id twice or with a
count, `take_dropped` returns the value of each dropped entity once, and a weak upgrade
succeeds just when the count is not zero. -/
theorem reference_counts {EntityId Value : Type} [DecidableEq EntityId]
    (s : EntityMap EntityId Value) (hrun : EntityMap.Reachable EntityMap.Disciplined s) :
    s.Sound := by
  obtain ⟨hc, hp⟩ := hrun.invariants
  have hk := hrun.kept
  exact {
    count := fun id => (hc.count id).symm
    nodup := hc.nodup
    dropped := hc.dropped
    noPanic := by
      intro op e hstep
      rcases EntityMap.step_spec hc hp hstep with ⟨t, ht, -⟩ | h
      · cases ht
      · exact h
    takes := fun t hdisciplined hstep => EntityMap.sound_takes hc hp hk hdisciplined hstep
    once := by
      rw [List.nodup_iff_count_le_one]
      intro id
      have hplace := hp.place id
      have honce := hp.once id
      omega
    load := s.upgrade_eq
    upgrades := by
      intro id loaded hmem
      obtain ⟨hcount, hloaded⟩ := hc.upgrading id loaded hmem
      obtain ⟨count, hcount⟩ := Option.ne_none_iff_exists'.mp hcount
      refine ⟨count, hcount, fun spurious => ?_⟩
      obtain ⟨hupgraded, hfailed, -⟩ :=
        EntityMap.Counted.compareExchangeWeak_spec count hloaded spurious
      exact ⟨hupgraded, hfailed⟩
    alive := by
      intro id hid
      obtain ⟨n, hn⟩ := hc.counts_of_mem hid
      have hreturned : id ∉ s.returnedIds := by
        intro hmem
        rw [hp.gone id hmem] at hn
        cases hn
      exact ⟨hreturned, fun hinserted => (hp.returned_or hinserted).resolve_left hreturned⟩ }

/-- An entity whose last handles are a clone and one that a weak handle was upgraded to,
while the first handle is dropped. -/
def sharedEntity : List (EntityOp ℕ ℕ) :=
  [.reserve 0, .insert 0 5, .clone 0, .upgrade 0, .drop 0, .exchange 0 false, .exchange 0 true,
    .exchange 0 false, .drop 0, .drop 0, .release 0, .upgrade 0, .takeDropped]

theorem reference_counts_shared : ∃ s : EntityMap ℕ ℕ, s.returned = [(0, 5)] ∧ s.Sound := by
  have hrun : ((EntityMap.new : EntityMap ℕ ℕ).run EntityMap.Disciplined sharedEntity).map
      EntityMap.returned = some [(0, 5)] := by
    decide
  obtain ⟨s, hs, hreturned⟩ := Option.map_eq_some_iff.mp hrun
  exact ⟨s, hreturned, reference_counts s (.run .new hs)⟩

/-- An entity that is leased while its last handle is dropped and swept. -/
def leasedEntity : List (EntityOp ℕ ℕ) :=
  [.reserve 0, .insert 0 5, .lease 0, .drop 0, .release 0, .takeDropped, .endLease 0 5]

/-- Its value comes back to the map behind the sweep, and no sweep returns it any more. -/
theorem leased_value_stays :
    ∃ s t : EntityMap ℕ ℕ, EntityMap.Reachable (fun _ _ => True) s ∧ 0 ∈ s.inserted ∧
      s.handles = [] ∧ s.leases = [] ∧ s.step .takeDropped = some (.ok t) ∧
      t.returned = [] ∧ t.entities 0 = some 5 := by
  have hrun : ((EntityMap.new : EntityMap ℕ ℕ).run (fun _ _ => True) leasedEntity).map (fun s =>
      (s.inserted, s.handles, s.leases, s.returned, s.droppedEntityIds, s.inFlight,
        s.entities 0)) = some ([0], [], [], [], [], [], some 5) := rfl
  obtain ⟨s, hs, hobserved⟩ := Option.map_eq_some_iff.mp hrun
  simp only [Prod.mk.injEq] at hobserved
  obtain ⟨hinserted, hhandles, hleases, hreturned, hdropped, hfree, hentity⟩ := hobserved
  refine ⟨s, { s with droppedEntityIds := [] }, .run .new hs, by simp [hinserted], hhandles,
    hleases, ?_, hreturned, hentity⟩
  rw [EntityMap.step, if_pos hfree, EntityMap.takeDropped, hdropped]
  rfl

end Zui.Gpui
