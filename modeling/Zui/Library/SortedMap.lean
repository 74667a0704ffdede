/-
Finite maps as sorted lists of entries.

A finite map is a function to options; `Entries l m` says that the list `l` holds
its entries in increasing order of their keys, which determines `l`.

* `setEntries_apply` — the entries of a list come in one by one, and the last one of a key counts;
* `Entries.get`, `Entries.set` — a list that is cut at a key: what the map holds at the
  key, and the entries after that was changed;
* `Entries.filter` — the entries that a test keeps;
* `Entries.closest`, `Entries.from_cut` — the last entry up to a key, the entries from a key
  on;
* `insertEntry`, `extendEntries` — one entry or all those of another list come in, in the
  order of the keys and in place of an entry with the same key.
-/
import Mathlib

namespace Zui

variable {K V : Type} [LinearOrder K]

/-- The list holds the entries of the map, in increasing order of the keys. -/
structure Entries (l : List (K × V)) (m : K → Option V) : Prop where
  sorted : l.Pairwise fun a b => a.1 < b.1
  mem_iff : ∀ k v, (k, v) ∈ l ↔ m k = some v

/-- The value at a key of a list of entries. -/
def lookupEntry (l : List (K × V)) (k : K) : Option V :=
  (l.find? fun a => a.1 = k).map Prod.snd

/-- The entry with the greatest key up to `k`. -/
def IsClosest (m : K → Option V) (k : K) : Option (K × V) → Prop
  | none => ∀ j, j ≤ k → m j = none
  | some (k', v) => m k' = some v ∧ k' ≤ k ∧ ∀ j v', j ≤ k → m j = some v' → j ≤ k'

/-- The map behind the entries of a list, put in one after another. -/
def setEntries (m : K → Option V) (new : List (K × V)) : K → Option V :=
  new.foldl (fun m a => Function.update m a.1 (some a.2)) m

/-- Puts an entry into a sorted list, in place of one with its key. -/
def insertEntry (a : K × V) : List (K × V) → List (K × V)
  | [] => [a]
  | b :: l => if a.1 < b.1 then a :: b :: l else if a.1 = b.1 then a :: l else b :: insertEntry a l

/-- Puts the entries of the second list into the first one. -/
def extendEntries (l new : List (K × V)) : List (K × V) :=
  new.foldl (fun entries a => insertEntry a entries) l

theorem lookupEntry_append (l₁ l₂ : List (K × V)) (k : K) :
    lookupEntry (l₁ ++ l₂) k = (lookupEntry l₁ k).or (lookupEntry l₂ k) := by
  rw [lookupEntry, List.find?_append, Option.map_or]
  rfl

/-- The last entry of a key counts. -/
theorem setEntries_apply {m : K → Option V} {new : List (K × V)} {k : K} :
    setEntries m new k = (lookupEntry new.reverse k).or (m k) := by
  induction new generalizing m with
  | nil => rfl
  | cons a new ih =>
    have hstep : setEntries m (a :: new) = setEntries (Function.update m a.1 (some a.2)) new := rfl
    rw [hstep, ih, List.reverse_cons, lookupEntry_append, Option.or_assoc]
    congr 1
    rw [Function.update_apply]
    by_cases hk : k = a.1
    · simp [hk, lookupEntry]
    · simp [hk, Ne.symm hk, lookupEntry]

theorem mem_keys_insertEntry {a : K × V} {j : K} {l : List (K × V)} :
    j ∈ (insertEntry a l).map Prod.fst ↔ j = a.1 ∨ j ∈ l.map Prod.fst := by
  induction l with
  | nil => simp [insertEntry]
  | cons b l ih =>
    rw [insertEntry]
    by_cases hlt : a.1 < b.1
    · simp [hlt]
    · by_cases heq : a.1 = b.1
      · simp [heq]
      · rw [if_neg hlt, if_neg heq, List.map_cons, List.mem_cons, ih, List.map_cons,
          List.mem_cons]
        exact or_left_comm

theorem sorted_insertEntry {a : K × V} {l : List (K × V)} (hs : l.Pairwise fun a b => a.1 < b.1) :
    (insertEntry a l).Pairwise fun a b => a.1 < b.1 := by
  induction l with
  | nil => simp [insertEntry]
  | cons b l ih =>
    obtain ⟨hb, hl⟩ := List.pairwise_cons.mp hs
    rw [insertEntry]
    by_cases hlt : a.1 < b.1
    · rw [if_pos hlt]
      refine List.pairwise_cons.mpr ⟨fun c hc => ?_, hs⟩
      rcases List.mem_cons.mp hc with rfl | hc
      · exact hlt
      · exact hlt.trans (hb c hc)
    · by_cases heq : a.1 = b.1
      · rw [if_neg hlt, if_pos heq]
        exact List.pairwise_cons.mpr ⟨fun c hc => heq ▸ hb c hc, hl⟩
      · rw [if_neg hlt, if_neg heq]
        refine List.pairwise_cons.mpr ⟨fun c hc => ?_, ih hl⟩
        -- A key behind `b` is the new one or was there before.
        have hkey : c.1 ∈ (insertEntry a l).map Prod.fst := List.mem_map_of_mem hc
        rcases mem_keys_insertEntry.mp hkey with hc | hc
        · rw [hc]
          exact lt_of_le_of_ne (not_lt.mp hlt) (Ne.symm heq)
        · obtain ⟨c', hc', hkey⟩ := List.mem_map.mp hc
          rw [← hkey]
          exact hb c' hc'

theorem mem_keys_extendEntries {j : K} {l new : List (K × V)} :
    j ∈ (extendEntries l new).map Prod.fst ↔ j ∈ l.map Prod.fst ∨ j ∈ new.map Prod.fst := by
  induction new generalizing l with
  | nil => simp [extendEntries]
  | cons a new ih =>
    have hstep : extendEntries l (a :: new) = extendEntries (insertEntry a l) new := rfl
    rw [hstep, ih, mem_keys_insertEntry, List.map_cons, List.mem_cons, or_assoc]
    exact or_left_comm

theorem sorted_extendEntries {l new : List (K × V)} (hs : l.Pairwise fun a b => a.1 < b.1) :
    (extendEntries l new).Pairwise fun a b => a.1 < b.1 := by
  induction new generalizing l with
  | nil => exact hs
  | cons a new ih => exact ih (sorted_insertEntry hs)

namespace Entries

variable {l pre post : List (K × V)} {m : K → Option V} {k : K}

/-- The entries of a map. -/
theorem ext {l' : List (K × V)} (h : Entries l m) (h' : Entries l' m) : l = l' := by
  have hnodup : ∀ {l : List (K × V)}, Entries l m → l.Nodup := fun h =>
    h.sorted.imp fun hlt heq => ne_of_lt hlt (congrArg Prod.fst heq)
  refine ((List.perm_ext_iff_of_nodup (hnodup h) (hnodup h')).mpr fun a => ?_).eq_of_pairwise
    (fun a b _ _ hab hba => absurd hba (lt_asymm hab)) h.sorted h'.sorted
  rw [h.mem_iff a.1 a.2, h'.mem_iff a.1 a.2]

theorem empty : Entries ([] : List (K × V)) fun _ => none := ⟨.nil, by simp⟩

/-- A sorted list holds the entries of the map that looks them up. -/
theorem of_sorted (h : l.Pairwise fun a b => a.1 < b.1) : Entries l (lookupEntry l) := by
  refine ⟨h, ?_⟩
  induction l with
  | nil => simp [lookupEntry]
  | cons a l ih =>
    intro k v
    obtain ⟨ha, hl⟩ := List.pairwise_cons.mp h
    have hcons : lookupEntry (a :: l) k = if a.1 = k then some a.2 else lookupEntry l k := by
      rw [lookupEntry, List.find?_cons]
      by_cases hk : a.1 = k
      · simp [hk]
      · simp [hk, lookupEntry]
    rw [List.mem_cons, ih hl k v, hcons]
    by_cases hk : a.1 = k
    · have hnone : ∀ v, ¬ lookupEntry l k = some v := by
        intro v hv
        have := ha (k, v) ((ih hl k v).mpr hv)
        rw [hk] at this
        exact absurd this (lt_irrefl k)
      subst hk
      simp [hnone, Prod.ext_iff, eq_comm]
    · simp [hk, Prod.ext_iff, Ne.symm hk]

/-- The entries of a list that is cut at a key, with a value at that key or without
one. -/
abbrev cut (pre : List (K × V)) (k : K) (mid : Option V) (post : List (K × V)) : List (K × V) :=
  pre ++ ((mid.map fun v => (k, v)).toList ++ post)

theorem sorted_cut {mid : Option V} (hs : (pre ++ post).Pairwise fun a b => a.1 < b.1)
    (hpre : ∀ a ∈ pre, a.1 < k) (hpost : ∀ a ∈ post, k < a.1) :
    (cut pre k mid post).Pairwise fun a b => a.1 < b.1 := by
  obtain ⟨h₁, h₂, h₃⟩ := List.pairwise_append.mp hs
  cases mid with
  | none => simpa [cut] using hs
  | some v =>
    refine List.pairwise_append.mpr ⟨h₁, List.pairwise_cons.mpr ⟨hpost, h₂⟩, fun a ha b hb => ?_⟩
    rcases List.mem_cons.mp hb with rfl | hb
    · exact hpre a ha
    · exact h₃ a ha b hb

theorem mem_cut {mid : Option V} (hpre : ∀ a ∈ pre, a.1 < k) (hpost : ∀ a ∈ post, k < a.1)
    (j : K) (v : V) :
    (j, v) ∈ cut pre k mid post ↔ if j = k then mid = some v else (j, v) ∈ pre ++ post := by
  have hk : ∀ v, (k, v) ∉ pre ++ post := by
    intro v hv
    rcases List.mem_append.mp hv with h | h
    · exact lt_irrefl k (hpre _ h)
    · exact lt_irrefl k (hpost _ h)
  have hmem : (j, v) ∈ cut pre k mid post ↔ (j = k ∧ mid = some v) ∨ (j, v) ∈ pre ++ post := by
    simp only [cut, List.mem_append, Option.mem_toList, Option.map_eq_some_iff, Prod.mk.injEq]
    constructor
    · rintro (h | ⟨w, hw, rfl, rfl⟩ | h)
      · exact Or.inr (Or.inl h)
      · exact Or.inl ⟨rfl, hw⟩
      · exact Or.inr (Or.inr h)
    · rintro (⟨rfl, hw⟩ | h | h)
      · exact Or.inr (Or.inl ⟨v, hw, rfl, rfl⟩)
      · exact Or.inl h
      · exact Or.inr (Or.inr h)
  rw [hmem]
  by_cases hj : j = k
  · subst hj
    simp [hk]
  · simp [hj]

/-- What the map holds at the key that its entries are cut at. -/
theorem get {mid : Option V} (h : Entries (cut pre k mid post) m) (hpre : ∀ a ∈ pre, a.1 < k)
    (hpost : ∀ a ∈ post, k < a.1) : m k = mid := by
  cases hm : m k with
  | none =>
    cases mid with
    | none => rfl
    | some v =>
      have hmem : (k, v) ∈ cut pre k (some v) post := (mem_cut hpre hpost k v).mpr (by simp)
      rw [h.mem_iff, hm] at hmem
      exact absurd hmem (by simp)
  | some v =>
    have hmem := (h.mem_iff k v).mpr hm
    rw [mem_cut hpre hpost, if_pos rfl] at hmem
    exact hmem.symm

/-- Another value at the key, or none. -/
theorem set {mid : Option V} (h : Entries (cut pre k mid post) m) (hpre : ∀ a ∈ pre, a.1 < k)
    (hpost : ∀ a ∈ post, k < a.1) (mid' : Option V) :
    Entries (cut pre k mid' post) (Function.update m k mid') := by
  have hs : (pre ++ post).Pairwise fun a b => a.1 < b.1 := by
    refine h.sorted.sublist (List.Sublist.append_left ?_ pre)
    exact List.sublist_append_right _ _
  refine ⟨sorted_cut hs hpre hpost, fun j v => ?_⟩
  rw [mem_cut hpre hpost, Function.update_apply]
  by_cases hj : j = k
  · simp [hj]
  · have hmem : (j, v) ∈ cut pre k mid post ↔ _ := mem_cut hpre hpost j v
    rw [if_neg hj] at hmem
    rw [if_neg hj, if_neg hj, ← hmem, h.mem_iff]

/-- The entries that a test keeps. -/
theorem filter (h : Entries l m) (test : K → V → Bool) :
    Entries (l.filter fun a => test a.1 a.2) fun k => (m k).filter (test k) := by
  refine ⟨h.sorted.filter _, fun k v => ?_⟩
  rw [List.mem_filter, h.mem_iff]
  cases hm : m k with
  | none => simp
  | some w =>
    simp only [Option.some.injEq, Option.filter]
    by_cases ht : test k w = true
    · rw [if_pos ht]
      constructor
      · rintro ⟨rfl, -⟩
        rfl
      · rintro h
        obtain rfl := Option.some_inj.mp h
        exact ⟨rfl, ht⟩
    · rw [if_neg ht]
      constructor
      · rintro ⟨rfl, hv⟩
        exact absurd hv ht
      · intro h
        exact absurd h (by simp)

/-- The last entry in front of the cut behind a key is the closest one to the key. -/
theorem closest (h : Entries (pre ++ post) m) (hpre : ∀ a ∈ pre, a.1 ≤ k)
    (hpost : ∀ a ∈ post, k < a.1) : IsClosest m k pre.getLast? := by
  have hmem : ∀ j v, j ≤ k → m j = some v → (j, v) ∈ pre := by
    intro j v hj hm
    rcases List.mem_append.mp ((h.mem_iff j v).mpr hm) with hin | hin
    · exact hin
    · exact absurd (hpost _ hin) (not_lt_of_ge hj)
  rcases List.eq_nil_or_concat pre with rfl | ⟨pre, a, rfl⟩
  · intro j hj
    cases hm : m j with
    | none => rfl
    | some v => exact absurd (hmem j v hj hm) (by simp)
  · rw [List.concat_eq_append] at *
    rw [List.getLast?_concat]
    refine ⟨(h.mem_iff a.1 a.2).mp (by simp), hpre a (by simp), fun j v hj hm => ?_⟩
    rcases List.mem_append.mp (hmem j v hj hm) with hin | hin
    · have hs := (List.pairwise_append.mp (List.pairwise_append.mp h.sorted).1).2.2
      exact le_of_lt (hs _ hin a (by simp))
    · obtain rfl := List.mem_singleton.mp hin
      exact le_refl j

/-- The entries behind a cut are those from the key on. -/
theorem from_cut (hpre : ∀ a ∈ pre, a.1 < k) (hpost : ∀ a ∈ post, k ≤ a.1) :
    (pre ++ post).filter (fun a => k ≤ a.1) = post := by
  rw [List.filter_append, List.filter_eq_nil_iff.mpr, List.filter_eq_self.mpr, List.nil_append]
  · intro a ha
    simpa using hpost a ha
  · intro a ha
    simpa using hpre a ha

end Entries

end Zui
