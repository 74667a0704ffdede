/-
Trees whose items are in increasing order of their keys.

The key of an item is a dimension of the tree, and the location behind some items is the
key of the last one (`LastKey`).

* `seek_key` — a seek to the key of an item ends in front of the item;
* `insertOrReplace_fresh` — an item with a new key is put where its key belongs.
-/
import Zui.SumTree.Between
import Zui.SumTree.Deep
import Zui.SumTree.Keyed

namespace Zui

open SumTree Cursor

variable {T S K : Type} [Zero S] [Add S] [Item T S] [Dimension K S] [KeyedItem T K] [LinearOrder K]

/-- A dimension of keys whose location behind an item is the key of the item. -/
class LastKey (T S K : Type) [Item T S] [Dimension K S] [KeyedItem T K] : Prop where
  addSummary_eq : ∀ (d : K) (x : T), Dimension.addSummary d (Item.summary x : S) = KeyedItem.key x

/-- The items are in increasing order of their keys, which are above the start of the
dimension. -/
structure KeySorted {T S K : Type} [Item T S] [Dimension K S] [KeyedItem T K] [LinearOrder K]
    (items : List T) : Prop where
  sorted : items.Pairwise fun x y => (KeyedItem.key x : K) < KeyedItem.key y
  zero_lt : ∀ x ∈ items, (Dimension.zero S : K) < KeyedItem.key x

section Keys

variable [LastKey T S K] {items pre post : List T} {x : T} {k : K}

omit [Zero S] [Add S] [LinearOrder K] in
theorem positionAfter_key (xs : List T) (x : T) :
    positionAfter K (xs ++ [x]) = KeyedItem.key x := by
  rw [positionAfter_concat, LastKey.addSummary_eq]

omit [Zero S] [Add S] in
theorem KeySorted.cuts (hs : KeySorted items) (k : K) :
    Cuts (.of k) .left (fun x : T => KeyedItem.key x < k) items where
  passes_iff xs x := by
    rw [positionAfter_key, SeekTarget.of, ← compare_gt_iff_gt]
    cases compare k (KeyedItem.key x) <;> simp [passes]
  closed := hs.sorted.imp fun hlt hbefore => lt_trans hlt hbefore

omit [Zero S] [Add S] [Item T S] [Dimension K S] [LastKey T S K] in
theorem cut_unique {pre' post' : List T} (h : pre ++ post = pre' ++ post')
    (hpre : ∀ y ∈ pre, KeyedItem.key y < k) (hpost : ∀ y ∈ post, ¬ KeyedItem.key y < k)
    (hpre' : ∀ y ∈ pre', KeyedItem.key y < k) (hpost' : ∀ y ∈ post', ¬ KeyedItem.key y < k) :
    pre = pre' ∧ post = post' := by
  have hfilter : ∀ {as bs : List T}, (∀ y ∈ as, KeyedItem.key y < k) →
      (∀ y ∈ bs, ¬ KeyedItem.key y < k) →
      (as ++ bs).filter (fun y => decide (KeyedItem.key y < k)) = as := by
    intro as bs has hbs
    rw [List.filter_append, List.filter_eq_self.mpr (by simpa using has),
      List.filter_eq_nil_iff.mpr (by simpa using hbs), List.append_nil]
  have heq : pre = pre' := by
    rw [← hfilter hpre hpost, h, hfilter hpre' hpost']
  exact ⟨heq, List.append_cancel_left (heq ▸ h)⟩

omit [Zero S] [Add S] [LastKey T S K] in
/-- A new item among sorted ones. -/
theorem KeySorted.insert (hs : KeySorted (pre ++ post))
    (hx : (Dimension.zero S : K) < KeyedItem.key x)
    (hpre : ∀ y ∈ pre, (KeyedItem.key y : K) < KeyedItem.key x)
    (hpost : ∀ y ∈ post, (KeyedItem.key x : K) < KeyedItem.key y) :
    KeySorted (pre ++ x :: post) where
  sorted := by
    obtain ⟨h₁, h₂, h₃⟩ := List.pairwise_append.mp hs.sorted
    refine List.pairwise_append.mpr ⟨h₁, List.pairwise_cons.mpr ⟨hpost, h₂⟩, fun y hy z hz => ?_⟩
    rcases List.mem_cons.mp hz with rfl | hz
    · exact hpre y hy
    · exact h₃ y hy z hz
  zero_lt y hy := by
    rcases List.mem_append.mp hy with hy | hy
    · exact hs.zero_lt y (List.mem_append_left _ hy)
    · rcases List.mem_cons.mp hy with rfl | hy
      · exact hx
      · exact hs.zero_lt y (List.mem_append_right _ hy)

variable [LawfulSummary S] [LawfulDimension K S] {t : SumTree T S}

/-- A seek to the key of an item ends in front of the item. -/
theorem seek_key (ht : Valid t) (hheight : t.height ≤ 15) (hs : KeySorted t.toList)
    (hitems : t.toList = pre ++ x :: post) :
    ∃ c found, (Cursor.new t : Cursor T S K).seek (.of (KeyedItem.key x)) .left = .ok (c, found) ∧
      Between t pre (x :: post) c := by
  have hzero : (Dimension.zero S : K) < KeyedItem.key x := hs.zero_lt x (by simp [hitems])
  have hge : (SeekTarget.of (KeyedItem.key x) (Dimension.zero S : K)).isGE :=
    isGE_compare.mpr (le_of_lt hzero)
  obtain ⟨c, found, pre', post', hrun, hbetween, hpre', hpost'⟩ :=
    seek_between ht hheight hge (hs.cuts (KeyedItem.key x))
  have hsorted := hs.sorted
  rw [hitems] at hsorted
  obtain ⟨-, hback, hfront⟩ := List.pairwise_append.mp hsorted
  have hpost : ∀ y ∈ x :: post, ¬ (KeyedItem.key y : K) < KeyedItem.key x := by
    intro y hy
    rcases List.mem_cons.mp hy with rfl | hy
    · exact lt_irrefl _
    · exact lt_asymm ((List.pairwise_cons.mp hback).1 y hy)
  obtain ⟨rfl, rfl⟩ := cut_unique (hbetween.items.symm.trans hitems) hpre' hpost'
    (fun y hy => hfront y hy x (by simp)) hpost
  exact ⟨c, found, hrun, hbetween⟩

/-- An item with a new key is put between the smaller and the greater ones. -/
theorem insertOrReplace_fresh (ht : Valid t) (hheight : t.height ≤ 15) (hs : KeySorted t.toList)
    (hx : (Dimension.zero S : K) < KeyedItem.key x)
    (hnew : ∀ y ∈ t.toList, (KeyedItem.key y : K) ≠ KeyedItem.key x) :
    ∃ tree pre post, t.insertOrReplace x = .ok (tree, none) ∧ Valid tree ∧
      t.toList = pre ++ post ∧ tree.toList = pre ++ x :: post ∧ KeySorted tree.toList ∧
      ∀ n, Tall n t → Tall n tree := by
  have hge : (SeekTarget.of (KeyedItem.key x) (Dimension.zero S : K)).isGE :=
    isGE_compare.mpr (le_of_lt hx)
  obtain ⟨c, front, pre, post, hslice, hv, hfront, hle, hbetween, hpre, hpost⟩ :=
    slice_between ht hheight hge (hs.cuts (KeyedItem.key x))
  have hitems := hbetween.items
  have hbehind : ∀ y ∈ post, (KeyedItem.key x : K) < KeyedItem.key y := fun y hy =>
    lt_of_le_of_ne (not_lt.mp (hpost y hy))
      (hnew y (hitems ▸ List.mem_append_right _ hy)).symm
  have htake : c.takeKey (KeyedItem.key x) = .ok (c, none) := by
    rw [takeKey, hbetween.item, ok_bind]
    cases post with
    | nil => rfl
    | cons y post => exact if_neg (ne_of_gt (hbehind y (by simp)))
  obtain ⟨pushed, hpush, hj⟩ := pushItem_spec hv hle (by omega) x
  obtain ⟨c', suffix, hsuffix, hv', hrest, hle'⟩ := hbetween.suffix ht hheight
  obtain ⟨tree, happend, hj'⟩ :=
    append_spec hj.valid hv' hj.height_le (Nat.le_trans hle' (by omega)) (by omega)
  have hlist : tree.toList = pre ++ x :: post := by
    rw [hj'.items, hj.items, hfront, hrest, List.append_assoc]
    rfl
  refine ⟨tree, pre, post, ?_, hj'.valid, hitems, hlist, ?_, fun n htall => ?_⟩
  · rw [SumTree.insertOrReplace]
    simp only [hslice, htake, hpush, hsuffix, happend, ok_bind]
  · rw [hitems] at hs
    rw [hlist]
    exact hs.insert hx hpre hbehind
  · -- Each of the parts that the new tree is put together from is tall.
    have htallfront := slice_tall tracks_exactly ht hheight
      (at_new tracks_exactly t) (by simp) hge htall hslice
    have htallpushed := append_keeps_tall hv (wf_item (S := S) x).valid htallfront
      (Or.inl (Nat.zero_le n)) hpush
    exact append_keeps_tall hj.valid hv' htallpushed (hbetween.suffix_tall ht hheight htall hsuffix)
      happend

end Keys

end Zui
