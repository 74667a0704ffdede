/-
Removing a range of keys.

`remove_range` keeps the entries in front of `start` and the ones from `end` on.  It finds the
two parts with two seeks of their own (`removeRange_spec`), the second of which starts from the
front again and does not notice that it goes back behind the first.  An entry in front of
`start` that is not in front of `end` belongs to both parts, and is there twice afterwards.
-/
import Zui.Library.KeyedList
import Zui.TreeMap.Refinement

namespace Zui

open SumTree Cursor

variable {K V : Type} [LinearOrder K]

namespace MapSeekTarget

/-- The key is in front of the target. -/
def Passes (self : MapSeekTarget K) (key : K) : Bool := self key = .gt

/-- The target is monotone over the keys of the entries. -/
def MonotoneOver (self : MapSeekTarget K) (entries : List (K × V)) : Prop :=
  ∀ a ∈ entries, ∀ b ∈ entries, a.1 < b.1 →
    (self b.1 = .gt → self a.1 = .gt) ∧ ((self b.1).isGE → (self a.1).isGE)

theorem monotoneOver_of (key : K) (entries : List (K × V)) : (of key).MonotoneOver entries := by
  intro a _ b _ hlt
  simp only [of, compare_gt_iff_gt, isGE_compare]
  exact ⟨fun hb => hlt.trans hb, fun hb => (le_of_lt hlt).trans hb⟩

omit [LinearOrder K] in
theorem passes_concat (self : MapSeekTarget K) (xs : List (MapEntry K V)) (e : MapEntry K V) :
    Zui.passes .left (self.adaptor (positionAfter (MapKeyRef K) (xs ++ [e]))) = true ↔
      self.Passes e.key := by
  rw [positionAfter_concat]
  show Zui.passes .left (self e.key) = true ↔ decide (self e.key = .gt) = true
  cases self e.key <;> simp [Zui.passes]

theorem MonotoneOver.cuts {self : MapSeekTarget K} {entries : List (MapEntry K V)}
    (hs : Sorted entries) (h : self.MonotoneOver (entries.map MapEntry.pair)) :
    Cuts self.adaptor .left (fun e => self.Passes e.key) entries where
  passes_iff := self.passes_concat
  closed := by
    refine hs.imp_of_mem ?_
    intro a b ha hb hlt
    have hab := h _ (List.mem_map_of_mem ha) _ (List.mem_map_of_mem hb) hlt
    intro hb
    have hgt := hab.1 (of_decide_eq_true hb)
    exact decide_eq_true hgt

end MapSeekTarget

namespace TreeMap

variable {self map : TreeMap K V} {m : K → Option V} {start end_ : MapSeekTarget K}

omit [LinearOrder K] in
theorem filter_of_between {D : Type} [Dimension D (MapKey K)]
    {c : Cursor (MapEntry K V) (MapKey K) D} {pre post : List (MapEntry K V)} {p : K → Bool}
    (h : Between self.tree pre post c) (hpre : ∀ e ∈ pre, p e.key)
    (hpost : ∀ e ∈ post, ¬ p e.key) :
    pre.map MapEntry.pair = self.pairs.filter (fun a => p a.1) ∧
      post.map MapEntry.pair = self.pairs.filter fun a => ! p a.1 := by
  have hpre' : ∀ a ∈ pre.map MapEntry.pair, p a.1 := by
    intro a ha
    obtain ⟨e, he, rfl⟩ := List.mem_map.mp ha
    exact hpre e he
  have hpost' : ∀ a ∈ post.map MapEntry.pair, ¬ p a.1 := by
    intro a ha
    obtain ⟨e, he, rfl⟩ := List.mem_map.mp ha
    exact hpost e he
  rw [pairs, h.items, List.map_append, List.filter_append, List.filter_append]
  constructor
  · rw [List.filter_eq_self.mpr hpre', List.filter_eq_nil_iff.mpr hpost', List.append_nil]
  · rw [List.filter_eq_nil_iff.mpr (by simpa using hpre'), List.nil_append,
      List.filter_eq_self.mpr (by simpa using hpost')]

omit [LinearOrder K] in
theorem seek_of_tree {D : Type} [Dimension D (MapKey K)] {c : Cursor (MapEntry K V) (MapKey K) D}
    (h : c.tree = self.tree) (target : SeekTarget D) (bias : Bias) :
    c.seek target bias = (Cursor.new self.tree).seek target bias := by
  rw [← h]
  rfl

omit [LinearOrder K] in
theorem adaptor_zero (target : MapSeekTarget K) :
    (target.adaptor (Dimension.zero (MapKey K))).isGE := rfl

/-- **The two parts.**  What `remove_range` leaves. -/
theorem removeRange_spec (hm : self.Refines m) (hheight : self.tree.height ≤ 15)
    (hstart : start.MonotoneOver self.pairs) (hend : end_.MonotoneOver self.pairs) :
    ∃ map, self.removeRange start end_ = .ok map ∧ Valid map.tree ∧
      map.pairs = self.pairs.filter (fun a => start.Passes a.1) ++
        self.pairs.filter fun a => ! end_.Passes a.1 := by
  obtain ⟨c, front, pre, post, hslice, hv, hitems, hle, hbetween, hin, hout⟩ :=
    slice_between hm.valid hheight (adaptor_zero start) (hstart.cuts hm.sorted)
  obtain ⟨c', found, pre', post', hseek, hbetween', hin', hout'⟩ :=
    seek_between hm.valid hheight (adaptor_zero end_) (hend.cuts hm.sorted)
  obtain ⟨c'', suffix, hsuffix, hv', hitems', hle'⟩ := hbetween'.suffix hm.valid hheight
  obtain ⟨tree, happend, hj⟩ := append_spec hv hv' (Nat.le_trans hle (by omega)) hle' (by omega)
  rw [← seek_of_tree hbetween.tree] at hseek
  refine ⟨⟨tree⟩, ?_, hj.valid, ?_⟩
  · rw [removeRange]
    simp only [hslice, hseek, hsuffix, happend, ok_bind]
  · rw [pairs, hj.items, hitems, hitems', List.map_append, (filter_of_between hbetween hin hout).1,
      (filter_of_between hbetween' hin' hout').2]

/-- The map is the one behind the removal of a range: it has the entries in front of `start` and
those from `end` on, each once and in the order of their keys, and nothing is removed when no
entry is between. -/
structure RangeRemoved (start end_ : MapSeekTarget K) (before after : TreeMap K V) : Prop where
  pairs : after.pairs = before.pairs.filter fun a => start.Passes a.1 || ! end_.Passes a.1
  increasing : after.pairs.Pairwise fun a b => a.1 < b.1
  get : ∀ k, after.get k = if start.Passes k || ! end_.Passes k then before.get k else none
  inverted : (∀ a ∈ before.pairs, end_.Passes a.1 → start.Passes a.1) →
    after.pairs = before.pairs

theorem rangeRemoved_of_apart (hm : self.Refines m) (hv : Valid map.tree)
    (hpairs : map.pairs = self.pairs.filter fun a => start.Passes a.1 || ! end_.Passes a.1) :
    RangeRemoved start end_ self map := by
  have hentries := hm.entries.filter fun k _ => start.Passes k || ! end_.Passes k
  rw [← hpairs] at hentries
  refine ⟨hpairs, hentries.sorted, fun k => ?_, fun hinverted => ?_⟩
  · rw [get_spec ⟨hv, hentries⟩, get_spec hm]
    cases m k <;> simp [Option.filter]
  · rw [hpairs, List.filter_eq_self]
    intro a ha
    by_cases hpasses : end_.Passes a.1 = true
    · rw [hinverted a ha hpasses, Bool.true_or]
    · simp [hpasses]

end TreeMap

open TreeMap

/-- **Removing a range.**  `remove_range` leaves the map without the range exactly when no entry
is in front of `start` and from `end` on at once.  In a map of at most 16 levels it never
panics. -/
theorem remove_range_overlap {K V : Type} [LinearOrder K] {self : TreeMap K V} {m : K → Option V}
    (hm : self.Refines m) (hheight : self.tree.height ≤ 15) {start end_ : MapSeekTarget K}
    (hstart : start.MonotoneOver self.pairs) (hend : end_.MonotoneOver self.pairs) :
    ∃ map, self.removeRange start end_ = .ok map ∧
      (RangeRemoved start end_ self map ↔
        ∀ a ∈ self.pairs, ¬ (start.Passes a.1 ∧ ¬ end_.Passes a.1)) := by
  obtain ⟨map, hrun, hv, hpairs⟩ := removeRange_spec hm hheight hstart hend
  have hfirst : ∀ a ∈ self.pairs, ∀ b ∈ self.pairs, a.1 < b.1 →
      start.Passes b.1 → start.Passes a.1 := by
    intro a ha b hb hlt hpass
    exact decide_eq_true ((hstart a ha b hb hlt).1 (of_decide_eq_true hpass))
  have hsorted : Increasing Prod.fst self.pairs := hm.entries.sorted
  have hiff := hsorted.append_filter_iff (q := fun a => ! end_.Passes a.1) hfirst
  rw [← hpairs] at hiff
  simp only [Bool.not_eq_true', Bool.not_eq_true] at hiff ⊢
  refine ⟨map, hrun, fun h => hiff.mp h.increasing, fun hapart => ?_⟩
  refine rangeRemoved_of_apart hm hv ?_
  rw [hpairs, hsorted.append_filter hfirst]
  simpa using hapart

/-- Six entries. -/
def sixEntries : List (ℕ × ℕ) := [(1, 10), (2, 20), (3, 30), (4, 40), (5, 50), (6, 60)]

/-- The theorem at a map of six entries, and the range from 2 to 5. -/
theorem remove_range_overlap_six : ∃ self map : TreeMap ℕ ℕ,
    fromOrderedEntries sixEntries = .ok self ∧ self.removeRange (.of 2) (.of 5) = .ok map ∧
      RangeRemoved (.of 2) (.of 5) self map := by
  obtain ⟨self, hrun, hpairs, hm⟩ :=
    fromOrderedEntries_spec (show sixEntries.Pairwise fun a b => a.1 < b.1 by decide)
      (by decide +kernel)
  have hheight : self.tree.height ≤ 15 := by
    have hle : ((fromOrderedEntries sixEntries).map fun self => decide (self.tree.height ≤ 15))
        = .ok true := by decide +kernel
    rw [hrun] at hle
    exact of_decide_eq_true (Except.ok.inj hle)
  obtain ⟨map, hremove, hiff⟩ := remove_range_overlap hm hheight
    (MapSeekTarget.monotoneOver_of 2 self.pairs) (MapSeekTarget.monotoneOver_of 5 self.pairs)
  refine ⟨self, map, hrun, hremove, hiff.mpr ?_⟩
  rw [hpairs]
  decide

/-- A range whose end comes before its start: the entries between are there twice. -/
theorem remove_range_duplicates : ∃ self map : TreeMap ℕ ℕ,
    fromOrderedEntries sixEntries = .ok self ∧ self.removeRange (.of 5) (.of 2) = .ok map ∧
      map.iter = .ok [(1, 10), (2, 20), (3, 30), (4, 40), (2, 20), (3, 30), (4, 40), (5, 50),
        (6, 60)] := by
  have hrun : ((fromOrderedEntries sixEntries).bind fun self =>
      (self.removeRange (.of 5) (.of 2)).bind iter) = .ok [(1, 10), (2, 20), (3, 30), (4, 40),
        (2, 20), (3, 30), (4, 40), (5, 50), (6, 60)] := by decide +kernel
  obtain ⟨self, hself, hrun⟩ := bind_eq_ok.mp hrun
  obtain ⟨map, hmap, hrun⟩ := bind_eq_ok.mp hrun
  exact ⟨self, map, hself, hmap, hrun⟩

end Zui
