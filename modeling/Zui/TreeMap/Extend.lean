/-
Extending a map by many entries at once.

`extend` makes one batch of edits of its entries, an insertion for each.  The batch leaves the
entries of the map merged with the sorted insertions (`extend_spec`).  As long as no key is
repeated, that is what the insertions do one by one (`entries_mergeAll`).  When one is repeated,
two entries with it stand behind each other.
-/
import Zui.SumTree.Edits
import Zui.TreeMap.Runs

namespace Zui

open SumTree Cursor

variable {K V : Type} [LinearOrder K]

/-! ### The keys as a dimension -/

theorem mapKey_lt {a b : K} : (⟨some a⟩ : MapKey K) < ⟨some b⟩ ↔ a < b := WithBot.coe_lt_coe

instance : KeyOfLast (MapEntry K V) (MapKey K) (MapKey K) where
  addSummary_eq d xs x _ _ := by
    rw [sumItems_concat]
    rfl

theorem increasing_iff_sorted {items : List (MapEntry K V)} :
    Increasing (KeyedItem.key : MapEntry K V → MapKey K) items ↔ Sorted items :=
  List.Pairwise.iff fun _ _ => mapKey_lt

theorem increasing_iff_pairs {items : List (MapEntry K V)} :
    Increasing (KeyedItem.key : MapEntry K V → MapKey K) items ↔
      (items.map MapEntry.pair).Pairwise fun a b => a.1 < b.1 := by
  rw [increasing_iff_sorted, List.pairwise_map]
  rfl

theorem Sorted.keyed {items : List (MapEntry K V)} (h : Sorted items) : Keyed (MapKey K) items where
  sorted := increasing_iff_sorted.mpr h
  zero_le _ _ := show (⊥ : WithBot K) ≤ ordKey _ from bot_le

/-! ### The updates of some entries -/

/-- The edit that inserts an entry. -/
def insertEdit (a : K × V) : Edit (MapEntry K V) (MapKey K) := .insert ⟨a.1, a.2⟩

omit [LinearOrder K] in
theorem map_key_insertEdit (entries : List (K × V)) :
    (entries.map insertEdit).map Edit.key = (entries.map Prod.fst).map fun k => ⟨some k⟩ := by
  rw [List.map_map, List.map_map]
  rfl

omit [LinearOrder K] in
theorem nodup_insertEdit {entries : List (K × V)} :
    ((entries.map insertEdit).map Edit.key).Nodup ↔ (entries.map Prod.fst).Nodup := by
  rw [map_key_insertEdit, List.nodup_map_iff]
  intro a b h
  exact Option.some_inj.mp (congrArg MapKey.key h)

theorem entries_putAt {items : List (MapEntry K V)} {m : K → Option V} (a : K × V)
    (h : Entries (items.map MapEntry.pair) m) :
    Entries ((putAt KeyedItem.key items (insertEdit a).update).map MapEntry.pair)
      (Function.update m a.1 (some a.2)) := by
  have hsorted := increasing_putAt (increasing_iff_pairs.mpr h.sorted) (insertEdit a).update_fits
  refine ⟨increasing_iff_pairs.mp hsorted, fun k v => ?_⟩
  have hpair : ∀ {items : List (MapEntry K V)},
      (k, v) ∈ items.map MapEntry.pair ↔ (⟨k, v⟩ : MapEntry K V) ∈ items := by
    intro items
    rw [List.mem_map]
    constructor
    · rintro ⟨⟨k', v'⟩, he, heq⟩
      cases heq
      exact he
    · intro he
      exact ⟨_, he, rfl⟩
  have hkey : (KeyedItem.key (⟨k, v⟩ : MapEntry K V) : MapKey K) = (insertEdit a).update.key ↔
      k = a.1 := by
    refine ⟨fun heq => Option.some_inj.mp (congrArg MapKey.key heq), ?_⟩
    rintro rfl
    rfl
  have hitem : (⟨k, v⟩ : MapEntry K V) ∈ (insertEdit a).update.item ↔ k = a.1 ∧ v = a.2 := by
    simp [insertEdit, Edit.update, eq_comm]
  rw [hpair, mem_putAt, hitem, Ne, hkey, ← hpair, h.mem_iff, Function.update_apply]
  by_cases hk : k = a.1
  · simp [hk, eq_comm]
  · simp [hk]

theorem entries_foldl_putAt {entries : List (K × V)} :
    ∀ {items : List (MapEntry K V)} {m : K → Option V}, Entries (items.map MapEntry.pair) m →
      Entries ((((entries.map insertEdit).map Edit.update).foldl (putAt KeyedItem.key) items).map
        MapEntry.pair) (setEntries m entries) := by
  induction entries with
  | nil =>
    intro items m h
    exact h
  | cons a entries ih =>
    intro items m h
    exact ih (entries_putAt a h)

namespace TreeMap

/-! ### One batch -/

variable {self other map : TreeMap K V} {m m' : K → Option V} {entries : List (K × V)}
  {sortByKey : SortByKey (MapEntry K V) (MapKey K)}

theorem extend_eq (sortByKey : SortByKey (MapEntry K V) (MapKey K)) :
    self.extend sortByKey entries = (self.tree.edit sortByKey (entries.map insertEdit)).bind
      fun edited => .ok (⟨edited.1⟩ : TreeMap K V) := rfl

/-- What `extend` leaves. -/
theorem extend_spec (sortByKey : SortByKey (MapEntry K V) (MapKey K)) (hm : self.Refines m)
    (hheight : self.tree.height ≤ 15) (hlen : entries.length ≤ maxItems) :
    ∃ map, self.extend sortByKey entries = .ok map ∧ Valid map.tree ∧
      map.tree.toList = mergeAll KeyedItem.key
        ((sortByKey.sort (entries.map insertEdit)).map Edit.update) self.tree.toList := by
  obtain ⟨tree, hrun, hv, hitems⟩ := edit_spec sortByKey hm.valid hheight hm.sorted.keyed
    (show (entries.map insertEdit).length ≤ maxItems by rwa [List.length_map])
  refine ⟨⟨tree⟩, ?_, hv, hitems⟩
  rw [extend_eq, hrun]
  rfl

theorem sorted_updates (sortByKey : SortByKey (MapEntry K V) (MapKey K))
    (entries : List (K × V)) :
    (((sortByKey.sort (entries.map insertEdit)).map Edit.update).map Update.key).Pairwise
      (· ≤ ·) := by
  rw [map_update_key]
  exact sortByKey.sorted _

theorem sorted_mergeAll_iff (hm : self.Refines m) :
    ((mergeAll KeyedItem.key ((sortByKey.sort (entries.map insertEdit)).map Edit.update)
      self.tree.toList).map MapEntry.pair).Pairwise (fun a b => a.1 < b.1) ↔
      (entries.map Prod.fst).Nodup := by
  have hperm := sortByKey.perm (entries.map insertEdit)
  have hupdates : ∀ u ∈ (sortByKey.sort (entries.map insertEdit)).map Edit.update,
      u.Fits (KeyedItem.key : MapEntry K V → MapKey K) ∧ u.item.isSome := by
    intro u hu
    obtain ⟨e, he, rfl⟩ := List.mem_map.mp hu
    obtain ⟨a, -, rfl⟩ := List.mem_map.mp (hperm.subset he)
    exact ⟨(insertEdit a).update_fits, rfl⟩
  rw [← increasing_iff_pairs, increasing_mergeAll_iff (sorted_updates sortByKey entries)
    (fun u hu => (hupdates u hu).1) (fun u hu => (hupdates u hu).2) hm.sorted.keyed.sorted,
    map_update_key, (hperm.map Edit.key).nodup_iff, nodup_insertEdit]

/-- Without repeated keys, the merge is what the insertions leave one by one. -/
theorem entries_mergeAll (hm : self.Refines m) (hnodup : (entries.map Prod.fst).Nodup) :
    Entries ((mergeAll KeyedItem.key
      ((sortByKey.sort (entries.map insertEdit)).map Edit.update) self.tree.toList).map
        MapEntry.pair) (setEntries m entries) := by
  have hperm := sortByKey.perm (entries.map insertEdit)
  have hfits : ∀ u ∈ (entries.map insertEdit).map Edit.update,
      u.Fits (KeyedItem.key : MapEntry K V → MapKey K) := by
    intro u hu
    obtain ⟨e, -, rfl⟩ := List.mem_map.mp hu
    exact e.update_fits
  rw [mergeAll_eq_foldl (hperm.map Edit.update) (sorted_updates sortByKey entries) hfits
    (by rwa [map_update_key, nodup_insertEdit]) hm.sorted.keyed.sorted]
  exact entries_foldl_putAt hm.entries

/-! ### The batch and the insertions -/

/-- The insertions of some entries, one by one. -/
def insertions (entries : List (K × V)) : List (Command K V Unit) :=
  entries.map fun a => .insert a.1 a.2

theorem applyAll_insertions (entries : List (K × V)) (m : K → Option V) :
    (Command.applyAll (insertions entries) m).1 = setEntries m entries := by
  induction entries generalizing m with
  | nil => rfl
  | cons a entries ih => exact ih _

/-- The map is the one that the insertions of the entries leave: its keys increase strictly, the
last value of a key counts, and `iter` yields each key once. -/
structure ExtendedBy (start : TreeMap K V) (entries : List (K × V)) (map : TreeMap K V) :
    Prop where
  increasing : map.pairs.Pairwise fun a b => a.1 < b.1
  get : ∀ k, map.get k = (lookupEntry entries.reverse k).or (start.get k)
  iter : map.tree.height ≤ 15 → map.iter = .ok map.pairs
  inserts : Command.FitsAll (insertions entries) start →
    ∃ one outputs, Command.runAll (insertions entries) start = .ok (one, outputs) ∧
      map.pairs = one.pairs

theorem Refines.extendedBy (hm : self.Refines m) (hmap : map.Refines (setEntries m entries)) :
    self.ExtendedBy entries map where
  increasing := hmap.entries.sorted
  get k := by rw [get_spec hmap, get_spec hm, setEntries_apply]
  iter hheight := iter_spec hmap hheight
  inserts hfits := by
    obtain ⟨one, hrun, hone, -⟩ := Command.runAll_spec (insertions entries) hm hfits
    rw [applyAll_insertions] at hone
    exact ⟨one, _, hrun, hmap.entries.ext hone.entries⟩

theorem Refines.wf (hm : self.Refines m) (hheight : ¬ self.tree.height ≤ 15) :
    ∃ h, WF h self.tree ∧ 16 ≤ h := by
  rcases hm.valid with hnew | ⟨h, hw⟩
  · rw [hnew] at hheight
    exact absurd (Nat.zero_le 15) hheight
  · rw [hw.height_eq] at hheight
    exact ⟨h, hw, by omega⟩

/-- **One batch of insertions.** -/
theorem extendedBy_iff (sortByKey : SortByKey (MapEntry K V) (MapKey K)) (hm : self.Refines m)
    (hlen : entries.length ≤ maxItems) :
    (∃ map, self.extend sortByKey entries = .ok map ∧ self.ExtendedBy entries map) ↔
      entries = [] ∨ self.tree.height ≤ 15 ∧ (entries.map Prod.fst).Nodup := by
  by_cases hempty : entries = []
  · subst hempty
    have hrun : self.extend sortByKey [] = .ok self := rfl
    exact ⟨fun _ => Or.inl rfl, fun _ => ⟨self, hrun, hm.extendedBy hm⟩⟩
  by_cases hheight : self.tree.height ≤ 15
  · obtain ⟨map, hrun, hv, hitems⟩ := extend_spec sortByKey hm hheight hlen
    have hpairs : map.pairs = (mergeAll KeyedItem.key
        ((sortByKey.sort (entries.map insertEdit)).map Edit.update) self.tree.toList).map
          MapEntry.pair := by rw [pairs, hitems]
    constructor
    · rintro ⟨map', hrun', hext⟩
      obtain rfl : map = map' := Except.ok.inj (hrun.symm.trans hrun')
      have hincreasing := hext.increasing
      rw [hpairs, sorted_mergeAll_iff hm] at hincreasing
      exact Or.inr ⟨hheight, hincreasing⟩
    · intro h
      have hnodup := (h.resolve_left hempty).2
      refine ⟨map, hrun, hm.extendedBy ⟨hv, ?_⟩⟩
      rw [hpairs]
      exact entries_mergeAll hm hnodup
  · -- The first seek of the batch panics.
    obtain ⟨h, hw, hh⟩ := hm.wf hheight
    have hpanic := edit_deep sortByKey (show entries.map insertEdit ≠ [] by simpa using hempty)
      hw hh hm.sorted.keyed
    have hrun : self.extend sortByKey entries = .error .capacity := by
      rw [extend_eq, hpanic]
      rfl
    constructor
    · rintro ⟨map, hrun', -⟩
      rw [hrun] at hrun'
      exact absurd hrun' (by simp)
    · intro h
      exact absurd (h.resolve_left hempty).1 hheight

theorem insertTree_iff (sortByKey : SortByKey (MapEntry K V) (MapKey K)) (hm : self.Refines m)
    (hother : other.Refines m') :
    (∃ map, self.insertTree sortByKey other = .ok map ∧ self.ExtendedBy other.pairs map) ↔
      other.tree.height ≤ 15 ∧ (other.pairs = [] ∨ self.tree.height ≤ 15) := by
  by_cases hheight : other.tree.height ≤ 15
  · have hrun : self.insertTree sortByKey other = self.extend sortByKey other.pairs := by
      rw [insertTree, iter_spec hother hheight]
      rfl
    have hlen : other.pairs.length ≤ maxItems := by
      rw [pairs, List.length_map]
      exact hother.valid.length_toList_le hheight
    have hnodup : (other.pairs.map Prod.fst).Nodup := by
      rw [List.Nodup, List.pairwise_map]
      exact hother.entries.sorted.imp ne_of_lt
    rw [hrun, extendedBy_iff sortByKey hm hlen]
    simp only [hnodup, hheight, and_true, true_and]
  · obtain ⟨h, hw, hh⟩ := hother.wf hheight
    have hrun : self.insertTree sortByKey other = .error .capacity := by
      rw [insertTree, iter, Iter.collect_deep hw hh]
      rfl
    constructor
    · rintro ⟨map, hrun', -⟩
      rw [hrun] at hrun'
      exact absurd hrun' (by simp)
    · intro h
      exact absurd h.1 hheight

end TreeMap

open TreeMap

/-- **Extending a map.**  `extend` leaves the map that the insertions of its entries leave one by
one exactly when no key is repeated among them, and so does the one of a set.  `insert_tree`
always does, as the keys of a map differ.  Maps have at most 16 levels here; on deeper ones all
of them panic. -/
theorem extend_repeated_keys {K V : Type} [LinearOrder K] {self : TreeMap K V}
    {m : K → Option V} (hm : self.Refines m) :
    (∀ (sortByKey : SortByKey (MapEntry K V) (MapKey K)) (entries : List (K × V)),
      entries.length ≤ maxItems →
      ((∃ map, self.extend sortByKey entries = .ok map ∧ self.ExtendedBy entries map) ↔
        entries = [] ∨ self.tree.height ≤ 15 ∧ (entries.map Prod.fst).Nodup)) ∧
    (∀ (sortByKey : SortByKey (MapEntry K V) (MapKey K)) {other : TreeMap K V}
      {m' : K → Option V}, other.Refines m' →
      ((∃ map, self.insertTree sortByKey other = .ok map ∧ self.ExtendedBy other.pairs map) ↔
        other.tree.height ≤ 15 ∧ (other.pairs = [] ∨ self.tree.height ≤ 15))) ∧
    ∀ (sortByKey : SortByKey (MapEntry K Unit) (MapKey K)) {set : TreeSet K}
      {m' : K → Option Unit} (keys : List K), set.map.Refines m' → keys.length ≤ maxItems →
      ((∃ set', set.extend sortByKey keys = .ok set' ∧
          set.map.ExtendedBy (keys.map fun key => (key, ())) set'.map) ↔
        keys = [] ∨ set.map.tree.height ≤ 15 ∧ keys.Nodup) := by
  refine ⟨fun sortByKey entries hlen => extendedBy_iff sortByKey hm hlen,
    fun sortByKey _ _ hother => insertTree_iff sortByKey hm hother,
    fun sortByKey set m' keys hset hlen => ?_⟩
  have hmap := extendedBy_iff sortByKey hset
    (show (keys.map fun key => (key, ())).length ≤ maxItems by rwa [List.length_map])
  have hkeys : (keys.map fun key => (key, ())).map Prod.fst = keys := by
    rw [List.map_map]
    exact List.map_id keys
  rw [hkeys, List.map_eq_nil_iff] at hmap
  rw [← hmap]
  constructor
  · rintro ⟨set', hrun, hext⟩
    obtain ⟨map, hrun', hr⟩ := bind_eq_ok.mp hrun
    cases hr
    exact ⟨map, hrun', hext⟩
  · rintro ⟨map, hrun, hext⟩
    refine ⟨⟨map⟩, ?_, hext⟩
    rw [TreeSet.extend, hrun]
    rfl

/-- The theorem at the empty map. -/
theorem extend_repeated_keys_pair :
    ∃ map : TreeMap ℕ ℕ, (empty : TreeMap ℕ ℕ).extend .insertion [(2, 20), (1, 10)] = .ok map ∧
      empty.ExtendedBy [(2, 20), (1, 10)] map :=
  ((extend_repeated_keys empty_spec).1 .insertion [(2, 20), (1, 10)] (by decide)).mpr
    (Or.inr ⟨by decide, by decide⟩)

/-- With a repeated key, the map keeps both entries: `iter` yields the key twice, and `get`
returns the first value.  The insertions one by one keep the last. -/
theorem extend_keeps_both :
    (∃ map one : TreeMap ℕ ℕ,
      (empty : TreeMap ℕ ℕ).extend .insertion [(1, 10), (1, 20)] = .ok map ∧
      map.iter = .ok [(1, 10), (1, 20)] ∧ map.get 1 = some 10 ∧
      Command.runAll (insertions [(1, 10), (1, 20)]) empty = .ok (one, [.unit, .unit]) ∧
      one.iter = .ok [(1, 20)] ∧ one.get 1 = some 20) ∧
    ∃ set : TreeSet ℕ, (⟨empty⟩ : TreeSet ℕ).extend .insertion [1, 1] = .ok set ∧
      set.iter = .ok [1, 1] :=
  ⟨⟨_, _, rfl, rfl, rfl, rfl, rfl, rfl⟩, _, rfl, rfl⟩

end Zui
