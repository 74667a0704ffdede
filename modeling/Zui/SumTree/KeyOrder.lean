/-
Changing a tree whose items are in increasing order of their keys.

The key is a dimension in which a run of items in increasing order ends at the key of the last
one (`KeyOfLast`).  That is all that is asked of it: the greatest key of a run and the last key
both are such dimensions, although the first is no action of the summaries on runs in other
orders.

* `tracks_keys` — a cursor on such a tree is at the key of the last item before it;
* `slice_keys`, `Stands.suffix`, `Stands.takeKey` — what the cursor calls of a keyed tree do;
* `insertOrReplace_keyed`, `remove_keyed` — one item comes in or goes out (`putAt`).
-/
import Zui.Library.KeyedList
import Zui.SumTree.Iterate
import Zui.SumTree.Keyed
import Zui.SumTree.Slices

namespace Zui

open SumTree Cursor

variable {T S K : Type} [Zero S] [Add S] [Item T S] [Dimension K S] [KeyedItem T K] [LinearOrder K]

/-- The key dimension of items in increasing order is the key of the last one. -/
class KeyOfLast (T S K : Type) [Zero S] [Add S] [Item T S] [Dimension K S] [KeyedItem T K]
    [LinearOrder K] : Prop where
  addSummary_eq : ∀ (d : K) (xs : List T) (x : T),
    Increasing KeyedItem.key (xs ++ [x]) → (∀ y ∈ xs ++ [x], d ≤ KeyedItem.key y) →
      Dimension.addSummary d (sumItems (xs ++ [x]) : S) = KeyedItem.key x

/-- The items are in increasing order of their keys, none of which is below the start of the
dimension. -/
structure Keyed (S : Type) {T K : Type} [Item T S] [Dimension K S] [KeyedItem T K] [LinearOrder K]
    (items : List T) : Prop where
  sorted : Increasing (KeyedItem.key : T → K) items
  zero_le : ∀ x ∈ items, (Dimension.zero S : K) ≤ KeyedItem.key x

/-- The key behind some items: that of the last one. -/
def lastKey (S : Type) {T K : Type} [Dimension K S] [KeyedItem T K] (items : List T) : K :=
  (items.getLast?.map KeyedItem.key).getD (Dimension.zero S)

/-- A cursor behind items in order of their keys is at the key of the last one. -/
def KeyAt (S : Type) {T K : Type} [Item T S] [Dimension K S] [KeyedItem T K] [LinearOrder K]
    (done : List T) (p : K) : Prop :=
  Keyed S done → p = lastKey S done

section Positions

variable {pre post items : List T} {x : T} {k : K}

omit [Zero S] [Add S] in
theorem Keyed.of_append (h : Keyed S (pre ++ post)) : Keyed S pre where
  sorted := (List.pairwise_append.mp h.sorted).1
  zero_le x hx := h.zero_le x (List.mem_append_left _ hx)

omit [Zero S] [Add S] [Item T S] [LinearOrder K] in
theorem lastKey_concat (xs : List T) (x : T) : lastKey S (xs ++ [x]) = (KeyedItem.key x : K) := by
  simp [lastKey]

omit [Zero S] [Add S] in
theorem Keyed.lastKey_le (h : Keyed S (pre ++ post)) :
    ∀ x ∈ post, (lastKey S pre : K) ≤ KeyedItem.key x := by
  intro x hx
  rcases List.eq_nil_or_concat pre with rfl | ⟨init, last, rfl⟩
  · exact h.zero_le x (by simpa using hx)
  · rw [List.concat_eq_append] at h ⊢
    rw [lastKey_concat]
    exact le_of_lt ((List.pairwise_append.mp h.sorted).2.2 last (by simp) x hx)

variable [LawfulSummary S] [KeyOfLast T S K]

/-- **Positions.**  A cursor over items in order of their keys follows the keys. -/
theorem tracks_keys : Tracks (T := T) (S := S) (D := K) (KeyAt S) := by
  have hrun : ∀ {done xs : List T} {p : K}, xs ≠ [] → KeyAt S done p →
      KeyAt S (done ++ xs) (Dimension.addSummary p (sumItems xs : S)) := by
    intro done xs p hne hp hkeyed
    obtain ⟨init, x, rfl⟩ := (List.eq_nil_or_concat xs).resolve_left hne
    rw [List.concat_eq_append] at hkeyed ⊢
    have hfrom : ∀ y ∈ init ++ [x], p ≤ KeyedItem.key y := by
      rw [hp hkeyed.of_append]
      exact hkeyed.lastKey_le
    have hsorted : Increasing KeyedItem.key (init ++ [x]) :=
      (List.pairwise_append.mp hkeyed.sorted).2.1
    rw [KeyOfLast.addSummary_eq p init x hsorted hfrom, ← List.append_assoc, lastKey_concat]
  refine ⟨fun _ => rfl, fun x hp => ?_, fun ht hp => ?_⟩
  · have := hrun (List.cons_ne_nil x []) hp
    rwa [sumItems_singleton] at this
  · rw [ht.summary_eq]
    exact hrun ht.toList_ne_nil hp

end Positions

/-! ### A cursor between two parts -/

/-- The cursor was moved, and is in front of the second part of the items. -/
structure Stands (t : SumTree T S) (pre post : List T) (c : Cursor T S K) : Prop where
  tree : c.tree = t
  items : t.toList = pre ++ post
  place : ∃ p, c.At (KeyAt S) p ∧ p ≠ .fresh ∧ p ≠ .beforeFirst ∧ p.done t.toList = pre ∧
    p.rest = post

section Standing

variable {t : SumTree T S} {pre post : List T} {c : Cursor T S K} {k : K}

omit [Zero S] [Add S] in
theorem Stands.item (h : Stands t pre post c) : c.item = .ok post.head? := by
  obtain ⟨p, hat, hp, -, -, hrest⟩ := h.place
  rw [item_spec hat hp, ← hrest]
  cases p <;> rfl

variable [LawfulSummary S] [KeyOfLast T S K]

theorem Stands.next {x : T} (ht : Valid t) (hheight : t.height ≤ 15)
    (h : Stands t pre (x :: post) c) :
    ∃ c', c.next = .ok c' ∧ Stands t (pre ++ [x]) post c' := by
  obtain ⟨rfl, hitems, p, hat, hp, hb, hdone, hrest⟩ := h
  match p, hdone, hrest with
  | .item _ _ _, rfl, rfl =>
    obtain ⟨c', p', hrun, htree, hat', hp', hb', hdone', hrest'⟩ :=
      next_item tracks_keys ht hheight hat
    exact ⟨c', hrun, htree, by simpa [Place.done] using hitems, p', hat', hp', hb', hdone', hrest'⟩

omit [Zero S] [Add S] [LawfulSummary S] [KeyOfLast T S K] in
/-- The items before a key are the first ones, and those from it on the others. -/
theorem Keyed.filter_lt {seg rest : List T} (h : Keyed S (pre ++ (seg ++ rest)))
    (hseg : ∀ x ∈ seg, (KeyedItem.key x : K) < k)
    (hrest : ∀ x ∈ rest.head?, ¬ (KeyedItem.key x : K) < k) :
    seg = (seg ++ rest).filter (fun x => KeyedItem.key x < k) ∧
      rest = (seg ++ rest).filter (fun x => k ≤ KeyedItem.key x) := by
  have hsorted : Increasing KeyedItem.key rest :=
    (List.pairwise_append.mp (List.pairwise_append.mp h.sorted).2.1).2.1
  have hrest' : ∀ x ∈ rest, k ≤ KeyedItem.key x := by
    cases rest with
    | nil => simp
    | cons y rest =>
      have hy : k ≤ KeyedItem.key y := not_lt.mp (hrest y rfl)
      intro x hx
      rcases List.mem_cons.mp hx with rfl | hx
      · exact hy
      · exact hy.trans (le_of_lt ((List.pairwise_cons.mp hsorted).1 x hx))
  constructor
  · rw [List.filter_append, List.filter_eq_self.mpr (by simpa using hseg),
      List.filter_eq_nil_iff.mpr (by simpa using hrest'), List.append_nil]
  · rw [List.filter_append, List.filter_eq_nil_iff.mpr (by simpa using hseg),
      List.filter_eq_self.mpr (by simpa using hrest'), List.nil_append]

/-- **Slices.**  A slice to a key takes the items with smaller keys out of those in front of the
cursor. -/
theorem slice_keys (ht : Valid t) (hheight : t.height ≤ 15) (hkeyed : Keyed S t.toList)
    (htree : c.tree = t) {p : Place T} (hat : c.At (KeyAt S) p) (hb : p ≠ .beforeFirst)
    (hdone : p.done t.toList = pre) (hitems : t.toList = pre ++ post)
    (hk : (lastKey S pre : K) ≤ k) :
    ∃ c' tree, c.slice (.of k) .left = .ok (c', tree) ∧ Valid tree ∧ tree.height ≤ 39 ∧
      tree.toList = post.filter (fun x => KeyedItem.key x < k) ∧
      Stands t (pre ++ post.filter fun x => KeyedItem.key x < k)
        (post.filter fun x => k ≤ KeyedItem.key x) c' := by
  subst htree
  have hposition : c.position = lastKey S pre := by
    have hstart := start_spec hat
    rw [hdone] at hstart
    rw [hitems] at hkeyed
    exact hstart hkeyed.of_append
  have hge : (SeekTarget.of k c.position).isGE := by
    rw [hposition]
    exact isGE_compare.mpr hk
  obtain ⟨seg, p', ⟨c', a, found⟩, hrun, htree', hat', hout, hpassed, hlands, -⟩ :=
    seekInternal_spec .left collects_slice tracks_keys ht hheight hat hb sliceOut_new hge
  obtain ⟨hb', hdone'⟩ := Lands_done hlands
  rw [hdone] at hlands hdone'
  simp only at htree' hat' hout hpassed hlands
  have hfresh : p' ≠ .fresh := by
    rintro rfl
    exact hlands
  have hrest : c.tree.toList = (pre ++ seg) ++ p'.rest := by
    cases p' with
    | fresh => exact absurd rfl hfresh
    | beforeFirst => exact absurd rfl hb'
    | item done x todo => exact hlands.2.1
    | afterLast => exact Eq.trans hlands (List.append_nil _).symm
  have hpost : post = seg ++ p'.rest := by
    rw [hitems, List.append_assoc] at hrest
    exact List.append_cancel_left hrest
  have hkeyed' : Keyed S (pre ++ (seg ++ p'.rest)) := by
    rwa [hrest, List.append_assoc] at hkeyed
  have hposition' : c'.position = lastKey S (pre ++ seg) := by
    have hstart := start_spec hat'
    rw [htree', hdone'] at hstart
    rw [← List.append_assoc] at hkeyed'
    exact hstart hkeyed'.of_append
  -- The seek passed the last item of `seg`, and stopped at the first one behind.
  have hseg : ∀ x ∈ seg, (KeyedItem.key x : K) < k := by
    rcases List.eq_nil_or_concat seg with rfl | ⟨init, last, rfl⟩
    · simp
    · rw [List.concat_eq_append] at *
      have hlast : (KeyedItem.key last : K) < k := by
        have hpass := hpassed.resolve_left (by simp)
        rw [hposition', ← List.append_assoc, lastKey_concat, SeekTarget.of] at hpass
        rw [← compare_gt_iff_gt]
        cases hcmp : compare k (KeyedItem.key last) <;> simp [hcmp, passes] at hpass ⊢
      have hsorted : Increasing (KeyedItem.key : T → K) (init ++ [last]) :=
        (List.pairwise_append.mp (List.pairwise_append.mp hkeyed'.sorted).2.1).1
      intro x hx
      rcases List.mem_append.mp hx with hx | hx
      · exact ((List.pairwise_append.mp hsorted).2.2 x hx last (by simp)).trans hlast
      · rwa [List.mem_singleton.mp hx]
  have hhead : ∀ x ∈ p'.rest.head?, ¬ (KeyedItem.key x : K) < k := by
    intro x hx
    cases p' with
    | fresh => exact absurd rfl hfresh
    | beforeFirst => exact absurd rfl hb'
    | afterLast => exact absurd hx (by simp [Place.rest])
    | item done y todo =>
      obtain rfl : y = x := by simpa [Place.rest] using hx
      have hadd := tracks_keys.item (S := S) y (show KeyAt S (pre ++ seg) c'.position by
        rw [← hdone', ← htree']
        exact start_spec hat')
      have hkeyed'' : Keyed S ((pre ++ seg) ++ [y]) := by
        have hassoc : pre ++ (seg ++ y :: todo) = ((pre ++ seg) ++ [y]) ++ todo := by simp
        have h : Keyed S (pre ++ (seg ++ y :: todo)) := hkeyed'
        rw [hassoc] at h
        exact h.of_append
      have hstop : passes .left (SeekTarget.of k (Dimension.addSummary c'.position
        (Item.summary y : S))) = false := hlands.2.2
      rw [hadd hkeyed'', lastKey_concat, SeekTarget.of] at hstop
      intro hlt
      rw [compare_gt_iff_gt.mpr hlt] at hstop
      exact absurd hstop (by simp [passes])
  obtain ⟨hfilter, hfilter'⟩ := hkeyed'.filter_lt hseg hhead
  rw [← hpost] at hfilter hfilter'
  have hroom := ht.length_toList_le hheight
  rw [hitems, hpost, List.length_append, List.length_append] at hroom
  refine ⟨c', a.tree, ?_, hout.valid, ?_, hout.items.trans hfilter, htree', ?_, p', hat', hfresh,
    hb', ?_, hfilter'⟩
  · rw [Cursor.slice, hrun]
    rfl
  · exact hout.tall.height_le hout.valid (by rw [hout.items]; omega)
  · rw [← hfilter, ← hfilter', hrest]
  · rw [← hfilter]
    exact hdone'

/-- The suffix is a tree of the items in front of the cursor. -/
theorem Stands.suffix (ht : Valid t) (hheight : t.height ≤ 15) (h : Stands t pre post c) :
    ∃ c' tree, c.suffix = .ok (c', tree) ∧ Valid tree ∧ tree.height ≤ 39 ∧ tree.toList = post := by
  obtain ⟨rfl, hitems, p, hat, -, hb, hdone, -⟩ := h
  obtain ⟨c', tree, p', hrun, -, -, hv, htall, hlist⟩ := suffix_spec tracks_keys ht hheight hat hb
  rw [hdone, hitems] at hlist
  have hpost : tree.toList = post := List.append_cancel_left hlist
  have hroom := ht.length_toList_le hheight
  rw [hitems, List.length_append] at hroom
  exact ⟨c', tree, hrun, hv, htall.height_le hv (by rw [hpost]; omega), hpost⟩

omit [Zero S] [Add S] [Item T S] [Dimension K S] [LawfulSummary S] [KeyOfLast T S K] in
/-- Among items from a key on, only the first one can have that key. -/
theorem cases_from_key (hsorted : Increasing (KeyedItem.key : T → K) post)
    (hfrom : ∀ x ∈ post, k ≤ KeyedItem.key x) :
    (∃ x rest, post = x :: rest ∧ KeyedItem.key x = k ∧
      post.filter (fun x => KeyedItem.key x = k) = [x] ∧
      post.filter (fun x => k < KeyedItem.key x) = rest) ∨
    (∀ x ∈ post.head?, KeyedItem.key x ≠ k) ∧
      post.filter (fun x => KeyedItem.key x = k) = [] ∧
      post.filter (fun x => k < KeyedItem.key x) = post := by
  cases post with
  | nil => exact Or.inr ⟨by simp, rfl, rfl⟩
  | cons x rest =>
    obtain ⟨hx, -⟩ := List.pairwise_cons.mp hsorted
    have hle := hfrom x (by simp)
    by_cases heq : KeyedItem.key x = k
    · have hbehind : ∀ y ∈ rest, k < KeyedItem.key y := fun y hy => heq ▸ hx y hy
      refine Or.inl ⟨x, rest, rfl, heq, ?_, ?_⟩
      · rw [List.filter_cons_of_pos (by simpa using heq),
          List.filter_eq_nil_iff.mpr (by simpa using fun y hy => ne_of_gt (hbehind y hy))]
      · rw [List.filter_cons_of_neg (by simp [heq]),
          List.filter_eq_self.mpr (by simpa using hbehind)]
    · have hall : ∀ y ∈ x :: rest, k < KeyedItem.key y := by
        have hlt : k < KeyedItem.key x := lt_of_le_of_ne hle (Ne.symm heq)
        intro y hy
        rcases List.mem_cons.mp hy with rfl | hy
        · exact hlt
        · exact hlt.trans (hx y hy)
      refine Or.inr ⟨by simpa using heq, ?_, ?_⟩
      · rw [List.filter_eq_nil_iff]
        simpa using fun y hy => ne_of_gt (hall y hy)
      · rw [List.filter_eq_self]
        simpa using hall

/-- Taking the item with a key from the front moves the cursor behind it. -/
theorem Stands.takeKey (ht : Valid t) (hheight : t.height ≤ 15) (hkeyed : Keyed S t.toList)
    (h : Stands t pre post c) (hfrom : ∀ x ∈ post, k ≤ KeyedItem.key x) :
    ∃ c' pre', c.takeKey k = .ok (c', (post.filter fun x => KeyedItem.key x = k).head?) ∧
      Stands t pre' (post.filter fun x => k < KeyedItem.key x) c' := by
  have hsorted : Increasing (KeyedItem.key : T → K) post := by
    have := hkeyed.sorted
    rw [h.items] at this
    exact (List.pairwise_append.mp this).2.1
  rw [Cursor.takeKey, h.item, ok_bind]
  rcases cases_from_key hsorted hfrom with ⟨x, rest, rfl, hkey, heq, hgt⟩ | ⟨hne, heq, hgt⟩
  · obtain ⟨c', hnext, hstands⟩ := h.next ht hheight
    refine ⟨c', pre ++ [x], ?_, by rwa [hgt]⟩
    simp only [List.head?_cons, if_pos hkey, hnext, ok_bind, heq]
  · refine ⟨c, pre, ?_, by rwa [hgt]⟩
    rw [heq]
    cases post with
    | nil => rfl
    | cons x rest => exact if_neg (hne x rfl)

end Standing

/-! ### One update -/

section Updates

variable [LawfulSummary S] [KeyOfLast T S K] {t : SumTree T S}

omit [LawfulSummary S] [KeyOfLast T S K] in
theorem filter_from_key (items : List T) (k : K) :
    (items.filter fun x => k ≤ KeyedItem.key x).filter (fun x => KeyedItem.key x = k)
      = items.filter (fun x => KeyedItem.key x = k) ∧
    (items.filter fun x => k ≤ KeyedItem.key x).filter (fun x => k < KeyedItem.key x)
      = items.filter (fun x => k < KeyedItem.key x) := by
  constructor
  · rw [List.filter_filter]
    refine List.filter_congr fun x _ => ?_
    by_cases h : (KeyedItem.key x : K) = k <;> simp [h]
  · rw [List.filter_filter]
    refine List.filter_congr fun x _ => ?_
    by_cases h : k < (KeyedItem.key x : K)
    · simp [h, le_of_lt h]
    · simp [h]

/-- The part of a new cursor's tree before a key, and a cursor behind the item with it. -/
theorem cut_keys (ht : Valid t) (hheight : t.height ≤ 15) (hkeyed : Keyed S t.toList) {k : K}
    (hk : (Dimension.zero S : K) ≤ k) :
    ∃ c tree c' pre, (Cursor.new t : Cursor T S K).slice (.of k) .left = .ok (c, tree) ∧
      Valid tree ∧ tree.height ≤ 39 ∧ tree.toList = t.toList.filter (fun x => KeyedItem.key x < k) ∧
      c.takeKey k = .ok (c', (t.toList.filter fun x => KeyedItem.key x = k).head?) ∧
      Stands t pre (t.toList.filter fun x => k < KeyedItem.key x) c' := by
  obtain ⟨c, tree, hslice, hv, hle, hitems, hstands⟩ := slice_keys ht hheight hkeyed rfl
    (at_new tracks_keys t) (by simp) (show Place.done t.toList .fresh = [] from rfl) rfl hk
  have hfrom : ∀ x ∈ t.toList.filter (fun x => k ≤ KeyedItem.key x), k ≤ KeyedItem.key x :=
    fun x hx => by simpa using (List.mem_filter.mp hx).2
  obtain ⟨c', pre, htake, hstands'⟩ := hstands.takeKey ht hheight hkeyed hfrom
  obtain ⟨heq, hgt⟩ := filter_from_key t.toList k
  rw [heq] at htake
  rw [hgt] at hstands'
  exact ⟨c, tree, c', pre, hslice, hv, hle, hitems, htake, hstands'⟩

/-- **Inserting.**  The item stands at its key, and the one that stood there is returned. -/
theorem insertOrReplace_keyed (ht : Valid t) (hheight : t.height ≤ 15) (hkeyed : Keyed S t.toList)
    {x : T} (hx : (Dimension.zero S : K) ≤ KeyedItem.key x) :
    ∃ tree, t.insertOrReplace x
        = .ok (tree, (t.toList.filter fun y => KeyedItem.key y = (KeyedItem.key x : K)).head?) ∧
      Valid tree ∧ tree.toList = putAt KeyedItem.key t.toList ⟨KeyedItem.key x, some x⟩ := by
  obtain ⟨c, front, c', pre, hslice, hv, hle, hfront, htake, hstands⟩ :=
    cut_keys ht hheight hkeyed hx
  obtain ⟨pushed, hpush, hj⟩ := pushItem_spec hv hle (by omega) x
  obtain ⟨c'', suffix, hsuffix, hv', hle', hrest⟩ := hstands.suffix ht hheight
  obtain ⟨tree, happend, hj'⟩ :=
    append_spec hj.valid hv' hj.height_le (Nat.le_trans hle' (by omega)) (by omega)
  refine ⟨tree, ?_, hj'.valid, ?_⟩
  · rw [SumTree.insertOrReplace]
    simp only [hslice, htake, hpush, hsuffix, happend, ok_bind]
  · rw [hj'.items, hj.items, hfront, hrest]
    rfl

/-- **Removing.**  Nothing stands at the key, and the item that stood there is returned. -/
theorem remove_keyed (ht : Valid t) (hheight : t.height ≤ 15) (hkeyed : Keyed S t.toList)
    {k : K} (hk : (Dimension.zero S : K) ≤ k) :
    ∃ tree, t.remove k
        = .ok (tree, (t.toList.filter fun y => KeyedItem.key y = k).head?) ∧
      Valid tree ∧ tree.toList = putAt KeyedItem.key t.toList ⟨k, none⟩ := by
  obtain ⟨c, front, c', pre, hslice, hv, hle, hfront, htake, hstands⟩ :=
    cut_keys ht hheight hkeyed hk
  obtain ⟨c'', suffix, hsuffix, hv', hle', hrest⟩ := hstands.suffix ht hheight
  obtain ⟨tree, happend, hj⟩ := append_spec hv hv' hle hle' (by omega)
  refine ⟨tree, ?_, hj.valid, ?_⟩
  · rw [SumTree.remove]
    simp only [hslice, htake, hsuffix, happend, ok_bind]
  · rw [hj.items, hfront, hrest]
    simp [putAt]

end Updates

end Zui
