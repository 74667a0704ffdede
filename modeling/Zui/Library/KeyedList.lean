/-
Lists that are sorted by a key, and batches of updates.

`key` gives every element a key; a list is `Increasing` when the keys increase strictly.  An
update says what stands at a key behind it: an element with that key, or nothing.

* `putAt` — one update; it keeps the order (`increasing_putAt`);
* `mergeAll` — a batch of updates in one pass over the list, in the order of the keys;
* `mergeAll_eq_foldl` — with different keys, the batch does what the updates do one by one, in
  any order;
* `increasing_mergeAll_iff` — with equal keys in it, the batch leaves the order.
-/
import Mathlib

namespace Zui

variable {α κ : Type} [LinearOrder κ] {key : α → κ}

/-- The keys increase strictly along the list. -/
def Increasing (key : α → κ) (xs : List α) : Prop := xs.Pairwise fun x y => key x < key y

/-- What stands at a key behind an update. -/
structure Update (α κ : Type) where
  key : κ
  item : Option α

/-- The element of an update has the key of the update. -/
def Update.Fits (key : α → κ) (u : Update α κ) : Prop := ∀ x ∈ u.item, key x = u.key

/-- One update of a sorted list. -/
def putAt (key : α → κ) (xs : List α) (u : Update α κ) : List α :=
  xs.filter (fun x => key x < u.key) ++ u.item.toList ++ xs.filter (fun x => u.key < key x)

/-- A batch of updates, sorted by their keys, in one pass over the list. -/
def mergeAll (key : α → κ) : List (Update α κ) → List α → List α
  | [], xs => xs
  | u :: us, xs =>
    xs.filter (fun x => key x < u.key) ++ u.item.toList ++
      mergeAll key us (xs.filter fun x => u.key < key x)

/-- The elements that such a pass removes or replaces. -/
def replacedAll (key : α → κ) : List (Update α κ) → List α → List α
  | [], _ => []
  | u :: us, xs =>
    xs.filter (fun x => key x = u.key) ++ replacedAll key us (xs.filter fun x => u.key < key x)

/-! ### One update -/

theorem Increasing.filter {xs : List α} (h : Increasing key xs) (p : α → Bool) :
    Increasing key (xs.filter p) := List.Pairwise.filter p h

theorem mem_putAt {xs : List α} {u : Update α κ} {y : α} :
    y ∈ putAt key xs u ↔ y ∈ u.item ∨ y ∈ xs ∧ key y ≠ u.key := by
  simp only [putAt, List.mem_append, List.mem_filter, decide_eq_true_eq, Option.mem_toList,
    ne_iff_lt_or_gt]
  tauto

/-- An update keeps the order. -/
theorem increasing_putAt {xs : List α} {u : Update α κ} (h : Increasing key xs)
    (hu : u.Fits key) : Increasing key (putAt key xs u) := by
  have hmiddle : ∀ x ∈ u.item.toList, key x = u.key := fun x hx => hu x (by simpa using hx)
  have hone : Increasing key u.item.toList := by
    cases u.item with
    | none => exact List.Pairwise.nil
    | some x => exact List.pairwise_singleton _ x
  refine List.pairwise_append.mpr ⟨List.pairwise_append.mpr ⟨h.filter _, hone, ?_⟩, h.filter _, ?_⟩
  · intro x hx y hy
    rw [hmiddle y hy]
    simpa using (List.mem_filter.mp hx).2
  · intro x hx y hy
    have hy : u.key < key y := by simpa using (List.mem_filter.mp hy).2
    rcases List.mem_append.mp hx with hx | hx
    · have hx : key x < u.key := by simpa using (List.mem_filter.mp hx).2
      exact hx.trans hy
    · rwa [hmiddle x hx]

/-! ### Updates one by one -/

theorem mem_foldl_putAt {us : List (Update α κ)} (hfits : ∀ u ∈ us, u.Fits key)
    (hnodup : (us.map Update.key).Nodup) {xs : List α} {y : α} :
    y ∈ us.foldl (putAt key) xs ↔
      (∃ u ∈ us, y ∈ u.item) ∨ y ∈ xs ∧ ∀ u ∈ us, key y ≠ u.key := by
  induction us generalizing xs with
  | nil => simp
  | cons u us ih =>
    rw [List.map_cons, List.nodup_cons] at hnodup
    obtain ⟨hhead, hnodup⟩ := hnodup
    have hother : y ∈ u.item → ∀ v ∈ us, key y ≠ v.key := by
      intro hy v hv heq
      rw [hfits u (by simp) y hy] at heq
      exact hhead (heq ▸ List.mem_map_of_mem hv)
    rw [List.foldl_cons, ih (fun v hv => hfits v (by simp [hv])) hnodup, mem_putAt]
    constructor
    · rintro (⟨v, hv, hy⟩ | ⟨hy | ⟨hy, hne⟩, hrest⟩)
      · exact Or.inl ⟨v, by simp [hv], hy⟩
      · exact Or.inl ⟨u, by simp, hy⟩
      · refine Or.inr ⟨hy, fun v hv => ?_⟩
        rcases List.mem_cons.mp hv with rfl | hv
        · exact hne
        · exact hrest v hv
    · rintro (⟨v, hv, hy⟩ | ⟨hy, hrest⟩)
      · rcases List.mem_cons.mp hv with rfl | hv
        · exact Or.inr ⟨Or.inl hy, hother hy⟩
        · exact Or.inl ⟨v, hv, hy⟩
      · exact Or.inr ⟨Or.inr ⟨hy, hrest u (by simp)⟩, fun v hv => hrest v (by simp [hv])⟩

theorem increasing_foldl_putAt {us : List (Update α κ)} (hfits : ∀ u ∈ us, u.Fits key) :
    ∀ {xs : List α}, Increasing key xs → Increasing key (us.foldl (putAt key) xs) := by
  induction us with
  | nil =>
    intro xs h
    exact h
  | cons u us ih =>
    intro xs h
    exact ih (fun v hv => hfits v (by simp [hv])) (increasing_putAt h (hfits u (by simp)))

/-! ### Updates in one pass -/

theorem mem_mergeAll {us : List (Update α κ)} (hsorted : (us.map Update.key).Pairwise (· ≤ ·))
    {xs : List α} {y : α} : y ∈ mergeAll key us xs ↔
      (∃ u ∈ us, y ∈ u.item) ∨ y ∈ xs ∧ ∀ u ∈ us, key y ≠ u.key := by
  induction us generalizing xs with
  | nil => simp [mergeAll]
  | cons u us ih =>
    rw [List.map_cons, List.pairwise_cons] at hsorted
    obtain ⟨hle, hsorted⟩ := hsorted
    have hbelow : key y < u.key → ∀ v ∈ us, key y ≠ v.key := fun hlt v hv =>
      ne_of_lt (hlt.trans_le (hle v.key (List.mem_map_of_mem hv)))
    simp only [mergeAll, List.mem_append, List.mem_filter, decide_eq_true_eq, Option.mem_toList,
      ih hsorted, List.forall_mem_cons, List.exists_mem_cons_iff]
    constructor
    · rintro ((⟨hy, hlt⟩ | hy) | hy | ⟨⟨hy, hlt⟩, hrest⟩)
      · exact Or.inr ⟨hy, ne_of_lt hlt, hbelow hlt⟩
      · exact Or.inl (Or.inl hy)
      · exact Or.inl (Or.inr hy)
      · exact Or.inr ⟨hy, ne_of_gt hlt, hrest⟩
    · rintro ((hy | hy) | ⟨hy, hne, hrest⟩)
      · exact Or.inl (Or.inr hy)
      · exact Or.inr (Or.inl hy)
      · rcases lt_or_gt_of_ne hne with hlt | hlt
        · exact Or.inl (Or.inl ⟨hy, hlt⟩)
        · exact Or.inr (Or.inr ⟨⟨hy, hlt⟩, hrest⟩)

/-- A pass keeps the order as long as the keys of the updates increase strictly. -/
theorem increasing_mergeAll {us : List (Update α κ)} (hfits : ∀ u ∈ us, u.Fits key)
    (hsorted : (us.map Update.key).Pairwise (· < ·)) :
    ∀ {xs : List α}, Increasing key xs → Increasing key (mergeAll key us xs) := by
  induction us with
  | nil =>
    intro xs h
    exact h
  | cons u us ih =>
    intro xs h
    rw [List.map_cons, List.pairwise_cons] at hsorted
    obtain ⟨hlt, hsorted⟩ := hsorted
    have hrest := ih (fun v hv => hfits v (by simp [hv])) hsorted
      (h.filter fun x => u.key < key x)
    have hbehind : ∀ y ∈ mergeAll key us (xs.filter fun x => u.key < key x), u.key < key y := by
      intro y hy
      rcases (mem_mergeAll (hsorted.imp le_of_lt)).mp hy with ⟨v, hv, hy⟩ | ⟨hy, -⟩
      · rw [hfits v (by simp [hv]) y hy]
        exact hlt v.key (List.mem_map_of_mem hv)
      · simpa using (List.mem_filter.mp hy).2
    have hmiddle : ∀ x ∈ u.item.toList, key x = u.key := fun x hx =>
      hfits u (by simp) x (by simpa using hx)
    have hone : Increasing key u.item.toList := by
      cases u.item with
      | none => exact List.Pairwise.nil
      | some x => exact List.pairwise_singleton _ x
    refine List.pairwise_append.mpr ⟨List.pairwise_append.mpr ⟨h.filter _, hone, ?_⟩, hrest, ?_⟩
    · intro x hx y hy
      rw [hmiddle y hy]
      simpa using (List.mem_filter.mp hx).2
    · intro x hx y hy
      have hy := hbehind y hy
      rcases List.mem_append.mp hx with hx | hx
      · have hx : key x < u.key := by simpa using (List.mem_filter.mp hx).2
        exact hx.trans hy
      · rwa [hmiddle x hx]

theorem Increasing.ext {xs ys : List α} (hx : Increasing key xs) (hy : Increasing key ys)
    (h : ∀ x, x ∈ xs ↔ x ∈ ys) : xs = ys := by
  have hnodup : ∀ {zs : List α}, Increasing key zs → zs.Nodup := fun hz =>
    hz.imp fun hlt heq => absurd (congrArg key heq) (ne_of_lt hlt)
  refine ((List.perm_ext_iff_of_nodup (hnodup hx) (hnodup hy)).mpr h).eq_of_pairwise
    (fun a b _ _ hab hba => absurd hba (lt_asymm hab)) hx hy

/-! ### Two parts of a list -/

/-- A first part and another part of a sorted list are in order together exactly when no element
is in both. -/
theorem Increasing.append_filter_iff {xs : List α} (h : Increasing key xs) {p q : α → Bool}
    (hp : ∀ x ∈ xs, ∀ y ∈ xs, key x < key y → p y → p x) :
    Increasing key (xs.filter p ++ xs.filter q) ↔ ∀ x ∈ xs, ¬ (p x ∧ q x) := by
  constructor
  · rintro hsorted x hx ⟨hpx, hqx⟩
    have hlt := (List.pairwise_append.mp hsorted).2.2 x (List.mem_filter.mpr ⟨hx, hpx⟩) x
      (List.mem_filter.mpr ⟨hx, hqx⟩)
    exact lt_irrefl _ hlt
  · intro hapart
    refine List.pairwise_append.mpr ⟨h.filter p, h.filter q, fun x hx y hy => ?_⟩
    obtain ⟨hx, hpx⟩ := List.mem_filter.mp hx
    obtain ⟨hy, hqy⟩ := List.mem_filter.mp hy
    have hpy : ¬ p y := fun hpy => hapart y hy ⟨hpy, hqy⟩
    rcases lt_trichotomy (key x) (key y) with hlt | heq | hlt
    · exact hlt
    · -- Elements with one key are the same.
      by_cases hxy : x = y
      · exact absurd (hxy ▸ hpx) hpy
      · have hsymm : Std.Symm fun a b => key a ≠ key b := ⟨fun _ _ => Ne.symm⟩
        have hne : xs.Pairwise fun a b => key a ≠ key b := h.imp ne_of_lt
        exact absurd heq (hne.forall hx hy hxy)
    · exact absurd (hp y hy x hx hlt hpx) hpy

theorem Increasing.append_filter {xs : List α} (h : Increasing key xs) {p q : α → Bool}
    (hp : ∀ x ∈ xs, ∀ y ∈ xs, key x < key y → p y → p x) (hapart : ∀ x ∈ xs, ¬ (p x ∧ q x)) :
    xs.filter p ++ xs.filter q = xs.filter fun x => p x || q x := by
  refine ((h.append_filter_iff hp).mpr hapart).ext (h.filter _) fun x => ?_
  simp only [List.mem_append, List.mem_filter, Bool.or_eq_true]
  exact and_or_left.symm

/-! ### A batch and its updates -/

/-- **A batch of updates.**  When the keys of the updates differ, a pass over them in the order
of their keys does what they do one by one, in any order. -/
theorem mergeAll_eq_foldl {us vs : List (Update α κ)} (hperm : us.Perm vs)
    (hsorted : (us.map Update.key).Pairwise (· ≤ ·)) (hfits : ∀ v ∈ vs, v.Fits key)
    (hnodup : (vs.map Update.key).Nodup) {xs : List α} (h : Increasing key xs) :
    mergeAll key us xs = vs.foldl (putAt key) xs := by
  have hfits' : ∀ u ∈ us, u.Fits key := fun u hu => hfits u (hperm.subset hu)
  have hstrict : (us.map Update.key).Pairwise (· < ·) := by
    have hnodup' := ((hperm.map Update.key).nodup_iff).mpr hnodup
    exact (hsorted.and hnodup').imp fun ⟨hle, hne⟩ => lt_of_le_of_ne hle hne
  refine (increasing_mergeAll hfits' hstrict h).ext (increasing_foldl_putAt hfits h) fun y => ?_
  rw [mem_mergeAll hsorted, mem_foldl_putAt hfits hnodup]
  simp only [hperm.mem_iff]

theorem replacedAll_eq_filter {us : List (Update α κ)}
    (hsorted : (us.map Update.key).Pairwise (· ≤ ·)) {xs : List α} (h : Increasing key xs) :
    replacedAll key us xs = xs.filter fun x => key x ∈ us.map Update.key := by
  induction us generalizing xs with
  | nil => simp [replacedAll]
  | cons u us ih =>
    rw [List.map_cons, List.pairwise_cons] at hsorted
    obtain ⟨hle, hsorted⟩ := hsorted
    rw [replacedAll, ih hsorted (h.filter _)]
    have hleft : Increasing key (xs.filter (fun x => key x = u.key) ++
        (xs.filter fun x => u.key < key x).filter fun x => key x ∈ us.map Update.key) := by
      refine List.pairwise_append.mpr ⟨h.filter _, (h.filter _).filter _, fun x hx y hy => ?_⟩
      have hx : key x = u.key := by simpa using (List.mem_filter.mp hx).2
      have hy : u.key < key y := by simpa using (List.mem_filter.mp (List.mem_filter.mp hy).1).2
      rwa [hx]
    refine hleft.ext (h.filter _) fun y => ?_
    simp only [List.mem_append, List.mem_filter, decide_eq_true_eq, List.map_cons, List.mem_cons]
    constructor
    · rintro (⟨hy, heq⟩ | ⟨⟨hy, -⟩, hmem⟩)
      · exact ⟨hy, Or.inl heq⟩
      · exact ⟨hy, Or.inr hmem⟩
    · rintro ⟨hy, hmem⟩
      by_cases heq : key y = u.key
      · exact Or.inl ⟨hy, heq⟩
      · have hmem := hmem.resolve_left heq
        exact Or.inr ⟨⟨hy, lt_of_le_of_ne (hle _ hmem) (Ne.symm heq)⟩, hmem⟩

/-- **Repeated keys.**  A pass that puts an element at each key of the batch keeps the order
exactly when no key occurs twice. -/
theorem increasing_mergeAll_iff {us : List (Update α κ)}
    (hsorted : (us.map Update.key).Pairwise (· ≤ ·)) (hfits : ∀ u ∈ us, u.Fits key)
    (hsome : ∀ u ∈ us, u.item.isSome) {xs : List α} (h : Increasing key xs) :
    Increasing key (mergeAll key us xs) ↔ (us.map Update.key).Nodup := by
  constructor
  · intro hincreasing
    induction us generalizing xs with
    | nil => simp
    | cons u us ih =>
      rw [List.map_cons, List.pairwise_cons] at hsorted
      rw [List.map_cons, List.nodup_cons]
      rw [mergeAll] at hincreasing
      obtain ⟨-, hrest, hacross⟩ := List.pairwise_append.mp hincreasing
      refine ⟨fun hmem => ?_, ih hsorted.2 (fun v hv => hfits v (by simp [hv]))
        (fun v hv => hsome v (by simp [hv])) (h.filter _) hrest⟩
      -- Both elements of the key are there, one behind the other.
      obtain ⟨v, hv, hkey⟩ := List.mem_map.mp hmem
      obtain ⟨x, hx⟩ := Option.isSome_iff_exists.mp (hsome u (by simp))
      obtain ⟨y, hy⟩ := Option.isSome_iff_exists.mp (hsome v (by simp [hv]))
      have hlt : key x < key y := by
        refine hacross x (by simp [hx]) y ((mem_mergeAll hsorted.2).mpr (Or.inl ⟨v, hv, hy⟩))
      rw [hfits u (by simp) x hx, hfits v (by simp [hv]) y hy, hkey] at hlt
      exact lt_irrefl _ hlt
  · intro hnodup
    have hstrict : (us.map Update.key).Pairwise (· < ·) :=
      (hsorted.and hnodup).imp fun ⟨hle, hne⟩ => lt_of_le_of_ne hle hne
    exact increasing_mergeAll hfits hstrict h

end Zui
