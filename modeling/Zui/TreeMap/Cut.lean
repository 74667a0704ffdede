/-
Cutting a map at a key.

The entries of a map are sorted, and the position behind some of them is the key of
the last one.  A seek to a key therefore cuts the entries in two: those before the key
and those from it on, or, with `Bias.right`, those up to the key and those behind it.

* `slice_cut`, `seek_cut` — the cursor and the parts after a seek from a new cursor;
* `find_cut` — the entry that `find` returns;
* `cut_exists`, `end_eq_iff` — the entry with the key, and the test that finds it at the
  cursor.
-/
import Zui.Library.SortedMap
import Zui.SumTree.Between
import Zui.TreeMap.Basic

namespace Zui

open SumTree Cursor

/-! ### Keys -/

variable {K V : Type}

instance : LawfulSummary (MapKey K) where
  zero_add _ := rfl
  add_assoc _ _ _ := rfl

instance : LawfulDimension (MapKeyRef K) (MapKey K) where
  add_zero := rfl
  add_add _ _ := rfl

/-- A dimension whose location behind some entries is the key of the last one. -/
class KeyDimension (D K : Type) [Dimension D (MapKey K)] where
  location : D → Option K
  location_zero : location (Dimension.zero (MapKey K)) = none
  location_add : ∀ d k, location (Dimension.addSummary d (⟨k⟩ : MapKey K)) = k

instance : KeyDimension (MapKeyRef K) K where
  location self := self.key
  location_zero := rfl
  location_add _ _ := rfl

instance : KeyDimension (MapKey K) K where
  location self := self.key
  location_zero := rfl
  location_add _ _ := rfl

/-- The entry of a key, if it has a value. -/
def entryAt (k : K) (mid : Option V) : List (MapEntry K V) := (mid.map fun v => ⟨k, v⟩).toList

@[simp] theorem entryAt_none (k : K) : entryAt k (none : Option V) = [] := rfl

@[simp] theorem entryAt_some (k : K) (v : V) : entryAt k (some v) = [⟨k, v⟩] := rfl

section Keys

variable {D : Type} [Dimension D (MapKey K)] [KeyDimension D K]

theorem location_positionAfter (xs : List (MapEntry K V)) :
    KeyDimension.location (positionAfter D xs) = xs.getLast?.map MapEntry.key := by
  rcases List.eq_nil_or_concat xs with rfl | ⟨xs, e, rfl⟩
  · exact KeyDimension.location_zero
  · rw [List.concat_eq_append, positionAfter_concat, List.getLast?_concat]
    exact KeyDimension.location_add _ _

variable [LinearOrder K]

/-- The seek target of a key. -/
def keyTarget (D : Type) {K : Type} [Dimension D (MapKey K)] [KeyDimension D K] [LinearOrder K]
    (k : K) : SeekTarget D :=
  fun d => compare (ordKey (some k)) (ordKey (KeyDimension.location d))

theorem target_eq (k : K) : MapKeyRef.target ⟨some k⟩ = keyTarget (MapKeyRef K) k := rfl

theorem of_eq (k : K) : SeekTarget.of (⟨some k⟩ : MapKey K) = keyTarget (MapKey K) k := rfl

/-- What a seek with a given bias passes. -/
def Before (bias : Bias) (k j : K) : Prop :=
  match bias with
  | .left => j < k
  | .right => j ≤ k

theorem Before.of_le {bias : Bias} {k i j : K} (hij : i ≤ j) (h : Before bias k j) :
    Before bias k i := by
  cases bias with
  | left => exact lt_of_le_of_lt hij h
  | right => exact le_trans hij h

theorem compare_ordKey (k j : K) : compare (ordKey (some k)) (ordKey (some j)) = compare k j := by
  have hlt : ∀ a b : K, ordKey (some a) < ordKey (some b) ↔ a < b := fun a b => WithBot.coe_lt_coe
  rcases lt_trichotomy k j with h | rfl | h
  · rw [compare_lt_iff_lt.mpr h, compare_lt_iff_lt, hlt]
    exact h
  · rw [compare_eq_iff_eq.mpr rfl, compare_eq_iff_eq.mpr rfl]
  · rw [compare_gt_iff_gt.mpr h, compare_gt_iff_gt]
    exact (hlt j k).mpr h

theorem compare_ordKey_none (k : K) : compare (ordKey (some k)) (ordKey none) = .gt :=
  compare_gt_iff_gt.mpr (WithBot.bot_lt_coe k)

/-- A seek passes the location behind an entry when the key of the entry is before its
own. -/
theorem passes_concat (bias : Bias) (k : K) (xs : List (MapEntry K V)) (e : MapEntry K V) :
    passes bias (keyTarget D k (positionAfter D (xs ++ [e]))) = true ↔ Before bias k e.key := by
  rw [keyTarget, location_positionAfter, List.getLast?_concat, Option.map_some, compare_ordKey]
  cases bias with
  | left =>
    rw [Before, ← compare_gt_iff_gt]
    cases compare k e.key <;> simp [passes]
  | right =>
    rw [Before, ← isGE_compare]
    cases compare k e.key <;> simp [passes]

theorem keyTarget_zero (k : K) :
    (keyTarget D k (Dimension.zero (MapKey K))).isGE = true := by
  rw [keyTarget, KeyDimension.location_zero, compare_ordKey_none]
  rfl

/-- The parts of some entries before a key and from it on. -/
structure CutAt (bias : Bias) (k : K) (pre post : List (MapEntry K V)) : Prop where
  before : ∀ e ∈ pre, Before bias k e.key
  behind : ∀ e ∈ post, ¬ Before bias k e.key

/-- The entries are in increasing order of their keys. -/
abbrev Sorted (entries : List (MapEntry K V)) : Prop :=
  entries.Pairwise fun a b => a.key < b.key

variable {t : SumTree (MapEntry K V) (MapKey K)} {bias : Bias} {k : K}

variable (D bias k) in
/-- The entries before a key are the ones that a seek to it passes. -/
theorem Sorted.cuts {entries : List (MapEntry K V)} (hs : Sorted entries) :
    Cuts (keyTarget D k) bias (fun e => Before bias k e.key) entries where
  passes_iff := passes_concat bias k
  closed := hs.imp fun hlt hbefore => hbefore.of_le (le_of_lt hlt)

/-- The entries from a key on are the one with the key, if there is one, and those
behind it. -/
theorem cut_exists {pre post : List (MapEntry K V)} (hs : Sorted (pre ++ post))
    (h : CutAt .left k pre post) :
    ∃ mid rest, post = entryAt k mid ++ rest ∧ ∀ e ∈ rest, k < e.key := by
  have hpost := (List.pairwise_append.mp hs).2.1
  cases post with
  | nil => exact ⟨none, [], rfl, by simp⟩
  | cons e rest =>
    have hle : k ≤ e.key := not_lt.mp (h.behind e (by simp))
    have hrest := (List.pairwise_cons.mp hpost).1
    rcases hle.lt_or_eq with hlt | rfl
    · refine ⟨none, e :: rest, rfl, fun e' he' => ?_⟩
      rcases List.mem_cons.mp he' with rfl | hin
      · exact hlt
      · exact lt_trans hlt (hrest e' hin)
    · exact ⟨some e.value, rest, rfl, hrest⟩

/-- The test of `remove` and `update`: the position behind the entry at the cursor is
the key when the entry has it. -/
theorem end_eq_iff {pre post : List (MapEntry K V)} (h : CutAt .left k pre post) :
    keyTarget D k (positionAfter D (pre ++ post.head?.toList)) = .eq ↔
      ∃ e, post.head? = some e ∧ e.key = k := by
  cases post with
  | nil =>
    -- At the end of the map the position is the last key, which is smaller.
    simp only [List.head?_nil, Option.toList_none, List.append_nil]
    rw [keyTarget, location_positionAfter]
    rcases List.eq_nil_or_concat pre with rfl | ⟨init, last, rfl⟩
    · simp [compare_ordKey_none]
    · have hlast : last.key < k := h.before last (by simp)
      rw [List.concat_eq_append, List.getLast?_concat, Option.map_some, compare_ordKey,
        compare_gt_iff_gt.mpr hlast]
      simp
  | cons e rest =>
    rw [keyTarget, location_positionAfter, List.head?_cons, Option.toList_some,
      List.getLast?_concat, Option.map_some, compare_ordKey, compare_eq_iff_eq]
    simp [eq_comm]

variable (D k) in
theorem monotoneOn_keyTarget {entries : List (MapEntry K V)} (hs : Sorted entries) :
    MonotoneOn (keyTarget D k) entries := by
  rintro done x todo rfl
  rcases List.eq_nil_or_concat done with rfl | ⟨init, last, rfl⟩
  · rw [positionAfter_nil]
    have hzero : keyTarget D k (Dimension.zero (MapKey K)) = .gt := by
      rw [keyTarget, KeyDimension.location_zero, compare_ordKey_none]
    simp [hzero]
  · rw [List.concat_eq_append] at *
    have hlt : last.key < x.key := (List.pairwise_append.mp hs).2.2 last (by simp) x (by simp)
    simp only [keyTarget, location_positionAfter, List.getLast?_concat, Option.map_some,
      compare_ordKey]
    constructor
    · intro hgt
      exact compare_gt_iff_gt.mpr (lt_trans hlt (compare_gt_iff_gt.mp hgt))
    · intro hge
      exact isGE_compare.mpr (le_trans (le_of_lt hlt) (isGE_compare.mp hge))

variable (bias k) in
omit [Dimension D (MapKey K)] [KeyDimension D K] in
theorem exists_cut {entries : List (MapEntry K V)} (hs : Sorted entries) :
    ∃ pre post, entries = pre ++ post ∧ CutAt bias k pre post := by
  induction entries with
  | nil => exact ⟨[], [], rfl, by simp, by simp⟩
  | cons e entries ih =>
    obtain ⟨he, hs⟩ := List.pairwise_cons.mp hs
    by_cases hbefore : Before bias k e.key
    · obtain ⟨pre, post, rfl, hcut⟩ := ih hs
      exact ⟨e :: pre, post, rfl, by simpa using ⟨hbefore, hcut.before⟩, hcut.behind⟩
    · refine ⟨[], e :: entries, rfl, by simp, fun e' he' h => hbefore ?_⟩
      rcases List.mem_cons.mp he' with rfl | hin
      · exact h
      · exact h.of_le (le_of_lt (he e' hin))

variable [LawfulDimension D (MapKey K)]

/-- `find` returns the first entry behind the cut. -/
theorem find_cut {pre post : List (MapEntry K V)} (ht : Valid t) (hs : Sorted t.toList)
    (hitems : t.toList = pre ++ post) (hcut : CutAt bias k pre post) :
    (t.find (keyTarget D k) bias).2.2 = post.head? := by
  have hpassed : ∀ i, 0 ≤ i → i < pre.length →
      Move.seekStops t.toList (keyTarget D k) bias i = false := by
    intro i _ hi
    have htake : t.toList.take (i + 1) = pre.take i ++ [pre[i]] := by
      rw [hitems, List.take_append_of_le_length hi, List.take_succ_eq_append_getElem hi]
    rw [Move.seekStops, htake, (passes_concat bias k _ _).mpr (hcut.before _ (by simp))]
    rfl
  rw [find_spec ht (monotoneOn_keyTarget D k hs) rfl]
  cases post with
  | nil =>
    rw [ListCursor.firstFrom_eq_afterLast fun i hi hn => hpassed i hi (by simpa [hitems] using hn)]
    rfl
  | cons e post =>
    have htake : t.toList.take (pre.length + 1) = pre ++ [e] := by
      rw [hitems, List.take_length_add_append]
      simp
    have hstop : Move.seekStops t.toList (keyTarget D k) bias pre.length = true := by
      have hnot := (passes_concat (D := D) bias k pre e).not.mpr (hcut.behind e (by simp))
      rw [Move.seekStops, htake]
      simpa using hnot
    rw [ListCursor.firstFrom_eq_atIndex (Nat.zero_le _) (by simp [hitems]) hpassed hstop]
    simp [ListCursor.current, hitems]

variable (D bias k) in
/-- A slice to a key from a new cursor. -/
theorem slice_cut (ht : Valid t) (hheight : t.height ≤ 15) (hs : Sorted t.toList) :
    ∃ c tree pre post, (Cursor.new t : Cursor _ _ D).slice (keyTarget D k) bias = .ok (c, tree) ∧
      Valid tree ∧ tree.toList = pre ∧ tree.height ≤ 39 ∧ Between t pre post c ∧
      CutAt bias k pre post := by
  obtain ⟨c, tree, pre, post, hrun, hv, hitems, hle, hbetween, hpre, hpost⟩ :=
    slice_between ht hheight (keyTarget_zero k) (hs.cuts D bias k)
  exact ⟨c, tree, pre, post, hrun, hv, hitems, hle, hbetween, hpre, hpost⟩

variable (D bias k) in
/-- A seek to a key. -/
theorem seek_cut (ht : Valid t) (hheight : t.height ≤ 15) (hs : Sorted t.toList) :
    ∃ c found pre post, (Cursor.new t : Cursor _ _ D).seek (keyTarget D k) bias = .ok (c, found) ∧
      Between t pre post c ∧ CutAt bias k pre post := by
  obtain ⟨c, found, pre, post, hrun, hbetween, hpre, hpost⟩ :=
    seek_between ht hheight (keyTarget_zero k) (hs.cuts D bias k)
  exact ⟨c, found, pre, post, hrun, hbetween, hpre, hpost⟩

end Keys

end Zui
