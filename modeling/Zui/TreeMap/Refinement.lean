/-
A `TreeMap` refines a finite map.

`Refines self m` says that the tree is valid and holds the entries of the map `m` in
increasing order of their keys.  Each operation takes a map that refines `m` to one
that refines what the operation makes of `m`, and returns what it returns on `m`.

* `insertOrReplace_spec`, `remove_spec`, `update_spec` — the tree is cut at the key and
  put together again;
* `get_spec`, `closest_spec`, `iterFrom_spec` — the queries by key;
* `iter_spec`, `retain_spec` — the enumeration, and the operation that goes through it.

Maps with a tree of at most 16 levels are within the room of a cursor.
-/
import Zui.SumTree.Contents
import Zui.TreeMap.Cut

namespace Zui

open SumTree Cursor

variable {K V : Type}

/-- The key and the value. -/
def MapEntry.pair (self : MapEntry K V) : K × V := (self.key, self.value)

theorem map_pair_entryAt (k : K) (mid : Option V) :
    (entryAt k mid).map MapEntry.pair = (mid.map fun v => (k, v)).toList := by
  cases mid <;> rfl

namespace TreeMap

/-- The entries of the map. -/
def pairs (self : TreeMap K V) : List (K × V) := self.tree.toList.map MapEntry.pair

variable [LinearOrder K]

/-- The map refines `m`. -/
structure Refines (map : TreeMap K V) (m : K → Option V) : Prop where
  valid : Valid map.tree
  entries : Entries map.pairs m

variable {self : TreeMap K V} {m : K → Option V} {k : K} {mid : Option V}
  {pre rest : List (MapEntry K V)}

theorem Refines.sorted (h : self.Refines m) : Sorted self.tree.toList :=
  (List.pairwise_map (f := MapEntry.pair)).mp h.entries.sorted

/-! ### A map that is cut at a key -/

/-- The entries in front of the key, the entry of the key, and the ones behind it. -/
structure SplitAt (map : TreeMap K V) (k : K) (pre : List (MapEntry K V)) (mid : Option V)
    (rest : List (MapEntry K V)) : Prop where
  items : map.tree.toList = pre ++ (entryAt k mid ++ rest)
  before : ∀ e ∈ pre, e.key < k
  behind : ∀ e ∈ rest, k < e.key

namespace SplitAt

theorem pairs_eq (h : self.SplitAt k pre mid rest) :
    self.pairs = Entries.cut (pre.map MapEntry.pair) k mid (rest.map MapEntry.pair) := by
  rw [pairs, h.items, List.map_append, List.map_append, map_pair_entryAt]

theorem pairs_before (h : self.SplitAt k pre mid rest) : ∀ a ∈ pre.map MapEntry.pair, a.1 < k := by
  intro a ha
  obtain ⟨e, he, rfl⟩ := List.mem_map.mp ha
  exact h.before e he

theorem pairs_behind (h : self.SplitAt k pre mid rest) :
    ∀ a ∈ rest.map MapEntry.pair, k < a.1 := by
  intro a ha
  obtain ⟨e, he, rfl⟩ := List.mem_map.mp ha
  exact h.behind e he

theorem value (h : self.SplitAt k pre mid rest) (hm : self.Refines m) : m k = mid := by
  have hentries := hm.entries
  rw [h.pairs_eq] at hentries
  exact hentries.get h.pairs_before h.pairs_behind

theorem set (h : self.SplitAt k pre mid rest) (hm : self.Refines m) (mid' : Option V)
    {tree : SumTree (MapEntry K V) (MapKey K)} (hv : Valid tree)
    (hitems : tree.toList = pre ++ (entryAt k mid' ++ rest)) :
    Refines ⟨tree⟩ (Function.update m k mid') := by
  have hentries := hm.entries
  rw [h.pairs_eq] at hentries
  refine ⟨hv, ?_⟩
  rw [pairs, hitems, List.map_append, List.map_append, map_pair_entryAt]
  exact hentries.set h.pairs_before h.pairs_behind mid'

end SplitAt

variable (k) in
theorem Refines.split (D : Type) [Dimension D (MapKey K)] [KeyDimension D K]
    [LawfulDimension D (MapKey K)] (h : self.Refines m) (hheight : self.tree.height ≤ 15) :
    ∃ c tree pre mid rest,
      (Cursor.new self.tree : Cursor _ _ D).slice (keyTarget D k) .left = .ok (c, tree) ∧
      self.SplitAt k pre mid rest ∧ Valid tree ∧ tree.toList = pre ∧ tree.height ≤ 39 ∧
      Between self.tree pre (entryAt k mid ++ rest) c := by
  obtain ⟨c, tree, pre, post, hrun, hv, hitems, hle, hbetween, hcut⟩ :=
    slice_cut D .left k h.valid hheight h.sorted
  have hs := h.sorted
  rw [hbetween.items] at hs
  obtain ⟨mid, rest, rfl, hrest⟩ := cut_exists hs hcut
  exact ⟨c, tree, pre, mid, rest, hrun, ⟨hbetween.items, hcut.before, hrest⟩, hv, hitems, hle,
    hbetween⟩

/-! ### Changing the entry of a key -/

theorem end_eq_cut {D : Type} [Dimension D (MapKey K)] [KeyDimension D K]
    (h : self.SplitAt k pre mid rest) :
    keyTarget D k (positionAfter D (pre ++ (entryAt k mid ++ rest).head?.toList)) = .eq ↔
      mid.isSome := by
  have hcut : CutAt .left k pre (entryAt k mid ++ rest) := by
    refine ⟨h.before, fun e he hlt => ?_⟩
    rcases List.mem_append.mp he with hin | hin
    · cases mid with
      | none => exact absurd hin (by simp)
      | some v =>
        rw [entryAt_some, List.mem_singleton] at hin
        subst hin
        exact lt_irrefl k hlt
    · exact lt_asymm hlt (h.behind e hin)
  rw [end_eq_iff hcut]
  cases mid with
  | some v => simp
  | none =>
    cases rest with
    | nil => simp
    | cons e rest =>
      have hlt := h.behind e (by simp)
      simp [ne_of_gt hlt]

theorem removeEntry_cut {c : Cursor (MapEntry K V) (MapKey K) (MapKeyRef K)}
    (hv : Valid self.tree) (hheight : self.tree.height ≤ 15) (h : self.SplitAt k pre mid rest)
    (hc : Between self.tree pre (entryAt k mid ++ rest) c) :
    ∃ c', removeEntry ⟨some k⟩ c = .ok (c', mid) ∧
      Between self.tree (pre ++ entryAt k mid) rest c' := by
  have htest := end_eq_cut (D := MapKeyRef K) h
  rw [removeEntry, hc.endPosition hv, ok_bind, target_eq]
  cases mid with
  | none =>
    rw [if_neg (by simpa using htest)]
    exact ⟨c, rfl, by simpa using hc⟩
  | some v =>
    obtain ⟨c', hnext, hbetween⟩ := hc.next hv hheight
    rw [if_pos (by simpa using htest), hc.item, ok_bind]
    refine ⟨c', ?_, hbetween⟩
    show ((Cursor.next c).bind fun cursor => .ok (cursor, some v)) = _
    rw [hnext]
    rfl

theorem updateEntry_cut {R : Type} (f : V → V × R)
    {c : Cursor (MapEntry K V) (MapKey K) (MapKeyRef K)}
    {tree : SumTree (MapEntry K V) (MapKey K)} (hv : Valid self.tree)
    (hheight : self.tree.height ≤ 15) (h : self.SplitAt k pre mid rest)
    (hc : Between self.tree pre (entryAt k mid ++ rest) c) (htree : Valid tree)
    (hitems : tree.toList = pre) (hle : tree.height ≤ 39) :
    ∃ c' tree', updateEntry ⟨some k⟩ f c tree = .ok (c', tree', mid.map fun v => (f v).2) ∧
      Between self.tree (pre ++ entryAt k mid) rest c' ∧ Valid tree' ∧
      tree'.toList = pre ++ entryAt k (mid.map fun v => (f v).1) ∧ tree'.height ≤ 40 := by
  have htest := end_eq_cut (D := MapKeyRef K) h
  rw [updateEntry, hc.endPosition hv, ok_bind, target_eq]
  cases mid with
  | none =>
    rw [if_neg (by simpa using htest)]
    exact ⟨c, tree, rfl, by simpa using hc, htree, by simpa using hitems, by omega⟩
  | some v =>
    obtain ⟨c', hnext, hbetween⟩ := hc.next hv hheight
    obtain ⟨tree', hpush, hj⟩ := pushItem_spec htree hle (by omega) ⟨k, (f v).1⟩
    rw [if_pos (by simpa using htest), hc.item, ok_bind]
    refine ⟨c', tree', ?_, hbetween, hj.valid, by rw [hj.items, hitems]; rfl, hj.height_le⟩
    show ((pushItem tree ⟨k, (f v).1⟩).bind fun newTree =>
      (Cursor.next c).bind fun cursor => .ok (cursor, newTree, some (f v).2)) = _
    rw [hpush]
    show ((Cursor.next c).bind fun cursor => .ok (cursor, tree', some (f v).2)) = _
    rw [hnext]
    rfl

theorem takeKey_cut {c : Cursor (MapEntry K V) (MapKey K) (MapKey K)}
    (hv : Valid self.tree) (hheight : self.tree.height ≤ 15) (h : self.SplitAt k pre mid rest)
    (hc : Between self.tree pre (entryAt k mid ++ rest) c) :
    ∃ c', c.takeKey (⟨some k⟩ : MapKey K) = .ok (c', mid.map fun v => ⟨k, v⟩) ∧
      Between self.tree (pre ++ entryAt k mid) rest c' := by
  rw [takeKey, hc.item, ok_bind]
  cases mid with
  | none =>
    refine ⟨c, ?_, by simpa using hc⟩
    cases rest with
    | nil => rfl
    | cons e rest =>
      have hne : (KeyedItem.key e : MapKey K) ≠ ⟨some k⟩ := by
        intro heq
        have hkey : e.key = k := Option.some_inj.mp (congrArg MapKey.key heq)
        exact lt_irrefl k (hkey ▸ h.behind e (by simp))
      simp [hne]
  | some v =>
    obtain ⟨c', hnext, hbetween⟩ := hc.next hv hheight
    refine ⟨c', ?_, hbetween⟩
    show (if (⟨some k⟩ : MapKey K) = ⟨some k⟩ then
      (Cursor.next c).bind fun self => .ok (self, some (⟨k, v⟩ : MapEntry K V)) else _) = _
    rw [if_pos rfl, hnext]
    rfl

/-! ### The operations -/

/-- The part behind the key is put to the other part. -/
theorem rejoin {D : Type} [Dimension D (MapKey K)] [LawfulDimension D (MapKey K)]
    {c : Cursor (MapEntry K V) (MapKey K) D} {tree : SumTree (MapEntry K V) (MapKey K)}
    (hm : self.Refines m) (hheight : self.tree.height ≤ 15) (h : self.SplitAt k pre mid rest)
    {done : List (MapEntry K V)} (hc : Between self.tree done rest c) (hv : Valid tree)
    (mid' : Option V) (hitems : tree.toList = pre ++ entryAt k mid') (hle : tree.height ≤ 40) :
    ∃ c' suffix tree', c.suffix = .ok (c', suffix) ∧ tree.append suffix = .ok tree' ∧
      Refines ⟨tree'⟩ (Function.update m k mid') := by
  obtain ⟨c', suffix, hsuffix, hv', hrest, hle'⟩ := hc.suffix hm.valid hheight
  obtain ⟨tree', happend, hj⟩ := append_spec hv hv' hle (Nat.le_trans hle' (by omega)) (by omega)
  refine ⟨c', suffix, tree', hsuffix, happend, h.set hm mid' hj.valid ?_⟩
  rw [hj.items, hitems, hrest, List.append_assoc]

theorem sumTree_insertOrReplace_spec (v : V) (hm : self.Refines m)
    (hheight : self.tree.height ≤ 15) :
    ∃ tree, self.tree.insertOrReplace (⟨k, v⟩ : MapEntry K V)
        = .ok (tree, (m k).map fun v => ⟨k, v⟩) ∧
      Refines ⟨tree⟩ (Function.update m k (some v)) := by
  obtain ⟨c, tree, pre, mid, rest, hslice, hsplit, hv, hitems, hle, hc⟩ :=
    hm.split k (MapKey K) hheight
  obtain ⟨c', htake, hc'⟩ := takeKey_cut hm.valid hheight hsplit hc
  obtain ⟨pushed, hpush, hj⟩ := pushItem_spec hv hle (by omega) (⟨k, v⟩ : MapEntry K V)
  obtain ⟨c'', suffix, tree', hsuffix, happend, hrefines⟩ :=
    rejoin hm hheight hsplit hc' hj.valid (some v) (by rw [hj.items, hitems]; rfl)
      hj.height_le
  refine ⟨tree', ?_, hrefines⟩
  have hkey : (KeyedItem.key (⟨k, v⟩ : MapEntry K V) : MapKey K) = ⟨some k⟩ := rfl
  rw [SumTree.insertOrReplace, hkey, of_eq, hsplit.value hm]
  simp only [hslice, htake, hpush, hsuffix, happend, ok_bind]

theorem insertOrReplace_spec (k : K) (v : V) (hm : self.Refines m)
    (hheight : self.tree.height ≤ 15) :
    ∃ self', self.insertOrReplace k v = .ok (self', m k) ∧
      self'.Refines (Function.update m k (some v)) := by
  obtain ⟨tree, hrun, hrefines⟩ := sumTree_insertOrReplace_spec v hm hheight
  refine ⟨⟨tree⟩, ?_, hrefines⟩
  rw [insertOrReplace, hrun]
  cases m k <;> rfl

theorem insert_spec (k : K) (v : V) (hm : self.Refines m) (hheight : self.tree.height ≤ 15) :
    ∃ self', self.insert k v = .ok self' ∧ self'.Refines (Function.update m k (some v)) := by
  obtain ⟨tree, hrun, hrefines⟩ := sumTree_insertOrReplace_spec v hm hheight
  exact ⟨⟨tree⟩, by rw [insert, hrun]; rfl, hrefines⟩

theorem remove_spec (k : K) (hm : self.Refines m) (hheight : self.tree.height ≤ 15) :
    ∃ self', self.remove k = .ok (self', m k) ∧ self'.Refines (Function.update m k none) := by
  obtain ⟨c, tree, pre, mid, rest, hslice, hsplit, hv, hitems, hle, hc⟩ :=
    hm.split k (MapKeyRef K) hheight
  obtain ⟨c', hremove, hc'⟩ := removeEntry_cut hm.valid hheight hsplit hc
  obtain ⟨c'', suffix, tree', hsuffix, happend, hrefines⟩ :=
    rejoin hm hheight hsplit hc' hv none (by simpa using hitems)
      (Nat.le_trans hle (by omega))
  refine ⟨⟨tree'⟩, ?_, hrefines⟩
  rw [remove, target_eq, hsplit.value hm]
  simp only [hslice, hremove, hsuffix, happend, ok_bind]

theorem update_spec {R : Type} (k : K) (f : V → V × R) (hm : self.Refines m)
    (hheight : self.tree.height ≤ 15) :
    ∃ self', self.update k f = .ok (self', (m k).map fun v => (f v).2) ∧
      self'.Refines (Function.update m k ((m k).map fun v => (f v).1)) := by
  obtain ⟨c, tree, pre, mid, rest, hslice, hsplit, hv, hitems, hle, hc⟩ :=
    hm.split k (MapKeyRef K) hheight
  obtain ⟨c', tree₁, hupdate, hc', hv₁, hitems₁, hle₁⟩ :=
    updateEntry_cut f hm.valid hheight hsplit hc hv hitems hle
  obtain ⟨c'', suffix, tree', hsuffix, happend, hrefines⟩ :=
    rejoin hm hheight hsplit hc' hv₁ _ hitems₁ hle₁
  rw [hsplit.value hm]
  refine ⟨⟨tree'⟩, ?_, hrefines⟩
  rw [update, target_eq]
  simp only [hslice, hupdate, hsuffix, happend, ok_bind]

theorem empty_spec : (empty : TreeMap K V).Refines fun _ => none :=
  ⟨valid_new, by simpa [pairs, empty] using Entries.empty⟩

theorem clear_spec : self.clear.Refines fun _ => none := empty_spec

theorem fromOrderedEntries_spec {entries : List (K × V)}
    (hs : entries.Pairwise fun a b => a.1 < b.1) (hlen : entries.length ≤ (2 * TREE_BASE) ^ 256) :
    ∃ self, fromOrderedEntries entries = .ok self ∧ self.pairs = entries ∧
      self.Refines (lookupEntry entries) := by
  have hstart : fromOrderedEntries entries = (do
      let tree ← SumTree.fromIter (entries.map fun entry => (⟨entry.1, entry.2⟩ : MapEntry K V))
      .ok ⟨tree⟩) := rfl
  have hcount : (entries.map fun entry => (⟨entry.1, entry.2⟩ : MapEntry K V)).length ≤
      (2 * TREE_BASE) ^ 256 := by simpa using hlen
  obtain ⟨tree, hrun, hv, hitems, -⟩ := fromIter_spec (S := MapKey K) (Nat.le_refl 255) hcount
  have hpairs : pairs ⟨tree⟩ = entries := by
    rw [pairs, hitems, List.map_map]
    exact List.map_id entries
  refine ⟨⟨tree⟩, by rw [hstart, hrun]; rfl, hpairs, hv, ?_⟩
  rw [hpairs]
  exact Entries.of_sorted hs

/-! ### The queries -/

theorem iter_spec (hm : self.Refines m) (hheight : self.tree.height ≤ 15) :
    self.iter = .ok self.pairs := by
  rw [iter, Iter.collect_spec hm.valid hheight]
  rfl

theorem get_spec (hm : self.Refines m) (k : K) : self.get k = m k := by
  obtain ⟨pre, post, hitems, hcut⟩ := exists_cut .left k hm.sorted
  have hs := hm.sorted
  rw [hitems] at hs
  obtain ⟨mid, rest, rfl, hrest⟩ := cut_exists hs hcut
  have hsplit : self.SplitAt k pre mid rest := ⟨hitems, hcut.before, hrest⟩
  rw [get, target_eq, find_cut hm.valid hm.sorted hitems hcut, hsplit.value hm]
  cases mid with
  | some v => simp [KeyedItem.key]
  | none =>
    cases rest with
    | nil => rfl
    | cons e rest =>
      have hlt := hrest e (by simp)
      simp [KeyedItem.key, ne_of_lt hlt]

theorem containsKey_spec (hm : self.Refines m) (k : K) : self.containsKey k = (m k).isSome := by
  rw [containsKey, get_spec hm]

theorem closest_spec (hm : self.Refines m) (hheight : self.tree.height ≤ 15) (k : K) :
    ∃ entry, self.closest k = .ok entry ∧ IsClosest m k entry := by
  obtain ⟨c, found, pre, post, hrun, hbetween, hcut⟩ :=
    seek_cut (MapKeyRef K) .right k hm.valid hheight hm.sorted
  obtain ⟨c', hprev, hitem⟩ := hbetween.prev hm.valid hheight
  refine ⟨pre.getLast?.map MapEntry.pair, ?_, ?_⟩
  · rw [closest, target_eq]
    simp only [hrun, hprev, hitem, ok_bind]
    rfl
  · have hentries := hm.entries
    rw [pairs, hbetween.items, List.map_append] at hentries
    rw [← List.getLast?_map]
    refine hentries.closest (fun a ha => ?_) fun a ha => ?_
    · obtain ⟨e, he, rfl⟩ := List.mem_map.mp ha
      exact hcut.before e he
    · obtain ⟨e, he, rfl⟩ := List.mem_map.mp ha
      exact not_le.mp (hcut.behind e he)

theorem iterFrom_spec (hm : self.Refines m) (hheight : self.tree.height ≤ 15) (k : K) :
    self.iterFrom k = .ok (self.pairs.filter fun a => k ≤ a.1) := by
  obtain ⟨c, found, pre, post, hrun, hbetween, hcut⟩ :=
    seek_cut (MapKeyRef K) .left k hm.valid hheight hm.sorted
  have hfilter : self.pairs.filter (fun a => k ≤ a.1) = post.map MapEntry.pair := by
    rw [pairs, hbetween.items, List.map_append]
    refine Entries.from_cut (fun a ha => ?_) fun a ha => ?_
    · obtain ⟨e, he, rfl⟩ := List.mem_map.mp ha
      exact hcut.before e he
    · obtain ⟨e, he, rfl⟩ := List.mem_map.mp ha
      exact not_lt.mp (hcut.behind e he)
  rw [iterFrom, target_eq, hfilter]
  simp only [hrun, hbetween.collect hm.valid hheight, ok_bind]
  rfl

/-! ### `retain` -/

/-- The new map of `retain` behind some entries. -/
structure Retained (predicate : K → V → Bool) (done : List (MapEntry K V))
    (newMap : SumTree (MapEntry K V) (MapKey K)) : Prop where
  valid : Valid newMap
  tall : Tall 0 newMap
  items : newMap.toList = done.filter fun e => predicate e.key e.value

omit [LinearOrder K] in
theorem retainEntry_spec {predicate : K → V → Bool} {done : List (MapEntry K V)}
    {newMap : SumTree (MapEntry K V) (MapKey K)} (h : Retained predicate done newMap)
    (hlen : done.length ≤ maxItems) (e : MapEntry K V) :
    ∃ newMap', retainEntry predicate newMap e = .ok newMap' ∧
      Retained predicate (done ++ [e]) newMap' := by
  obtain ⟨hv, htall, hitems⟩ := h
  rw [retainEntry]
  by_cases hkeep : predicate e.key e.value = true
  · have hroom : newMap.toList.length ≤ 4 * maxItems := by
      have := List.length_filter_le (fun e => predicate e.key e.value) done
      rw [hitems]
      omega
    have hle := htall.height_le hv hroom
    have he := wf_item (S := MapKey K) e
    obtain ⟨newMap', hrun, hv', hitems', htall'⟩ :=
      append_tall hv he.valid htall (by omega) (Nat.zero_le 0) (by omega)
    rw [if_pos hkeep]
    refine ⟨newMap', hrun, hv', htall', ?_⟩
    rw [hitems', hitems, List.filter_append]
    simp [hkeep]
  · rw [if_neg hkeep]
    refine ⟨newMap, rfl, hv, htall, ?_⟩
    rw [hitems, List.filter_append]
    simp [hkeep]

theorem retain_spec (predicate : K → V → Bool) (hm : self.Refines m)
    (hheight : self.tree.height ≤ 15) :
    ∃ self', self.retain predicate = .ok self' ∧
      self'.Refines fun k => (m k).filter (predicate k) := by
  obtain ⟨c, p, hnext, htree, hat, hp, -, -, hitems⟩ := next_spec (D := MapKeyRef K) tracks_exactly
    hm.valid hheight (at_new tracks_exactly self.tree)
  have hrest : p.rest = self.tree.toList := hitems.symm
  have hroom := hm.valid.length_toList_le hheight
  obtain ⟨newMap, hrun, hretained⟩ := forEach_spec (Retained predicate) tracks_exactly
    (c := c) (by rw [htree]; exact hm.valid) (by rw [htree]; exact hheight) hat hp
    (fun done x todo newMap hsplit h => retainEntry_spec h (by
      rw [hrest] at hsplit
      rw [hsplit, List.length_append] at hroom
      omega) x)
    (show Retained predicate [] .new from ⟨valid_new, Or.inl (Nat.le_refl 0), rfl⟩)
  refine ⟨⟨newMap⟩, ?_, hretained.valid, ?_⟩
  · rw [retain, hnext, ok_bind, hrun, ok_bind]
  · have hpairs : pairs ⟨newMap⟩ = self.pairs.filter fun a => predicate a.1 a.2 := by
      rw [pairs, hretained.items, hrest, pairs, List.filter_map]
      rfl
    rw [hpairs]
    exact hm.entries.filter predicate

end TreeMap

end Zui
