/-
Batches of edits.

`edit` sorts its batch and walks through the tree once.  What it leaves is the merge of the
sorted updates into the items (`edit_spec`), also when keys occur more than once.  When they do
not, that is what the edits do one by one (`batch_edit`).

The walk keeps `Edited`: the new tree and the buffer behind it hold the merge up to the cursor.
`advance_spec` and `removeOld_spec` say what the two halves of a step do, `apply_spec` is the
step, and `foldlM_apply_spec` the walk.
-/
import Zui.SumTree.KeyOrder
import Zui.SumTree.Reachable

namespace Zui

open SumTree Cursor

variable {T S K : Type}

/-- What an edit puts at its key. -/
def Edit.update [KeyedItem T K] : Edit T K → Update T K
  | insert item => ⟨KeyedItem.key item, some item⟩
  | remove key => ⟨key, none⟩

section Updates

variable [KeyedItem T K]

@[simp] theorem Edit.update_key (e : Edit T K) : e.update.key = e.key := by
  cases e <;> rfl

theorem Edit.update_fits (e : Edit T K) : e.update.Fits KeyedItem.key := by
  intro x hx
  cases e with
  | insert item =>
    cases hx
    rfl
  | remove key => exact absurd hx (by simp [update])

theorem map_update_key (edits : List (Edit T K)) :
    (edits.map Edit.update).map Update.key = edits.map Edit.key := by
  rw [List.map_map]
  exact List.map_congr_left fun e _ => e.update_key

end Updates

variable [Zero S] [Add S] [Item T S] [Dimension K S] [KeyedItem T K] [LinearOrder K]

/-- The state of the walk after `n` edits: the cursor is in front of `post`, and `out` and
`removed` are what came out so far. -/
structure Edited (t : SumTree T S) (n : ℕ) (out removed pre post : List T)
    (e : Editing T S K) : Prop where
  stands : Stands t pre post e.cursor
  valid : Valid e.newTree
  tall : Tall 40 e.newTree
  output : e.newTree.toList ++ e.bufferedItems = out
  taken : e.removed = removed
  buffered : e.bufferedItems.length ≤ n
  room : out.length ≤ pre.length + n

section Walking

variable [LawfulSummary S] [KeyOfLast T S K] {t : SumTree T S} {n : ℕ}
  {out removed pre post : List T} {e : Editing T S K} {k : K}

omit [LawfulSummary S] [KeyOfLast T S K] in
theorem Edited.keyed (hkeyed : Keyed S t.toList) (he : Edited t n out removed pre post e) :
    Keyed S (pre ++ post) := by
  rw [← he.stands.items]
  exact hkeyed

/-- The first half of a step moves the items with smaller keys out. -/
theorem advance_spec (ht : Valid t) (hheight : t.height ≤ 15) (hkeyed : Keyed S t.toList)
    (hn : n ≤ maxItems) (he : Edited t n out removed pre post e) :
    ∃ e' pre', e.advance k post.head?
        = .ok (e', (post.filter fun x => k ≤ KeyedItem.key x).head?) ∧
      Edited t n (out ++ post.filter fun x => KeyedItem.key x < k) removed pre'
        (post.filter fun x => k ≤ KeyedItem.key x) e' := by
  have hkeyed' := he.keyed hkeyed
  have hroom := ht.length_toList_le hheight
  rw [he.stands.items, List.length_append] at hroom
  rw [Editing.advance]
  by_cases hlt : (post.head?.any fun x => decide ((KeyedItem.key x : K) < k)) = true
  · -- The buffer is flushed, and the items up to the key follow.
    obtain ⟨x, hx, hxk⟩ : ∃ x ∈ post, (KeyedItem.key x : K) < k := by
      cases post with
      | nil => exact absurd hlt (by simp)
      | cons x post => exact ⟨x, by simp, by simpa using hlt⟩
    have hk : (lastKey S pre : K) ≤ k := (hkeyed'.lastKey_le x hx).trans (le_of_lt hxk)
    have hbuf := he.buffered
    have hlen := he.room
    rw [← he.output, List.length_append] at hlen
    obtain ⟨t₁, hrun₁, hv₁, hitems₁, htall₁⟩ :=
      extend_tall e.bufferedItems he.valid he.tall (by omega) (by omega)
    obtain ⟨htree, hitems, p, hat, -, hb, hdone, -⟩ := he.stands
    obtain ⟨c, slice, hslice, hv, hle, hlist, hstands⟩ :=
      slice_keys ht hheight hkeyed htree hat hb hdone hitems hk
    have hlen₁ : t₁.toList.length ≤ 4 * maxItems := by
      rw [hitems₁, List.length_append]
      omega
    have hheight₁ := htall₁.height_le hv₁ hlen₁
    obtain ⟨t₂, hrun₂, hv₂, hitems₂, htall₂⟩ :=
      append_tall hv₁ hv htall₁ (by omega) (Nat.le_succ_of_le hle) (by omega)
    refine ⟨{ e with cursor := c, newTree := t₂, bufferedItems := [] }, _, ?_, hstands, hv₂,
      htall₂, ?_, he.taken, Nat.zero_le _, ?_⟩
    · rw [if_pos hlt]
      simp only [hrun₁, hslice, hrun₂, hstands.item, ok_bind]
    · rw [List.append_nil, hitems₂, hitems₁, he.output, hlist]
    · have := he.room
      simp only [List.length_append]
      omega
  · -- There are no items up to the key.
    have hhead : ∀ x ∈ post.head?, ¬ (KeyedItem.key x : K) < k := by
      intro x hx hxk
      refine hlt ?_
      rw [show post.head? = some x from hx]
      simpa using hxk
    obtain ⟨hfilter, hfilter'⟩ := Keyed.filter_lt hkeyed'
      (show ∀ x ∈ ([] : List T), (KeyedItem.key x : K) < k by simp) hhead
    rw [List.nil_append] at hfilter hfilter'
    refine ⟨e, pre, ?_, ?_⟩
    · rw [if_neg hlt, ← hfilter']
    · rw [← hfilter, ← hfilter', List.append_nil]
      exact he

/-- The second half of a step removes the item with the same key. -/
theorem removeOld_spec (ht : Valid t) (hheight : t.height ≤ 15) (hkeyed : Keyed S t.toList)
    (hfrom : ∀ x ∈ post, k ≤ KeyedItem.key x) (he : Edited t n out removed pre post e) :
    ∃ e' pre', e.removeOld k post.head? = .ok e' ∧
      Edited t n out (removed ++ post.filter fun x => KeyedItem.key x = k) pre'
        (post.filter fun x => k < KeyedItem.key x) e' := by
  have hsorted : Increasing (KeyedItem.key : T → K) post :=
    (List.pairwise_append.mp (he.keyed hkeyed).sorted).2.1
  rcases cases_from_key hsorted hfrom with ⟨x, rest, rfl, hkey, heq, hgt⟩ | ⟨hne, heq, hgt⟩
  · obtain ⟨c, hnext, hstands⟩ := he.stands.next ht hheight
    refine ⟨{ e with cursor := c, removed := e.removed ++ [x] }, pre ++ [x], ?_, ?_⟩
    · simp only [List.head?_cons, Editing.removeOld, if_pos hkey, hnext, ok_bind]
    · rw [heq, hgt]
      refine ⟨hstands, he.valid, he.tall, he.output, by rw [← he.taken], he.buffered, ?_⟩
      have := he.room
      rw [List.length_append]
      omega
  · refine ⟨e, pre, ?_, ?_⟩
    · cases post with
      | nil => rfl
      | cons x rest => exact if_neg (hne x rfl)
    · rw [heq, hgt, List.append_nil]
      exact he

/-- **One edit.** -/
theorem apply_spec (edit : Edit T K) (ht : Valid t) (hheight : t.height ≤ 15)
    (hkeyed : Keyed S t.toList) (hn : n < maxItems) (he : Edited t n out removed pre post e) :
    ∃ e' pre', e.apply edit = .ok e' ∧
      Edited t (n + 1)
        (out ++ (post.filter (fun x => KeyedItem.key x < edit.key) ++ edit.update.item.toList))
        (removed ++ post.filter fun x => KeyedItem.key x = edit.key) pre'
        (post.filter fun x => edit.key < KeyedItem.key x) e' := by
  obtain ⟨e₁, pre₁, hadvance, he₁⟩ :=
    advance_spec (k := edit.key) ht hheight hkeyed (Nat.le_of_lt hn) he
  have hfrom : ∀ x ∈ post.filter (fun x => edit.key ≤ KeyedItem.key x),
      edit.key ≤ KeyedItem.key x := fun x hx => by simpa using (List.mem_filter.mp hx).2
  obtain ⟨e₂, pre₂, hremove, he₂⟩ := removeOld_spec ht hheight hkeyed hfrom he₁
  obtain ⟨heq, hgt⟩ := filter_from_key post edit.key
  rw [heq, hgt] at he₂
  rw [Editing.apply, he.stands.item, ok_bind, hadvance]
  simp only [ok_bind, hremove]
  have hroom := he₂.room
  have hbuf := he₂.buffered
  cases edit with
  | insert item =>
    refine ⟨_, pre₂, rfl, he₂.stands, he₂.valid, he₂.tall, ?_, he₂.taken, ?_, ?_⟩
    · show e₂.newTree.toList ++ (e₂.bufferedItems ++ [item]) = _
      rw [← List.append_assoc, he₂.output, ← List.append_assoc]
      rfl
    · show (e₂.bufferedItems ++ [item]).length ≤ n + 1
      rw [List.length_append, List.length_singleton]
      omega
    · rw [← List.append_assoc, List.length_append]
      show _ + 1 ≤ _
      omega
  | remove key =>
    refine ⟨_, pre₂, rfl, he₂.stands, he₂.valid, he₂.tall, ?_, he₂.taken, by omega, ?_⟩
    · rw [he₂.output, ← List.append_assoc]
      exact (List.append_nil _).symm
    · rw [← List.append_assoc]
      show (_ ++ ([] : List T)).length ≤ _
      rw [List.append_nil]
      omega

/-- **The walk.**  The edits that are left go into the items in front of the cursor. -/
theorem foldlM_apply_spec (ht : Valid t) (hheight : t.height ≤ 15) (hkeyed : Keyed S t.toList) :
    ∀ {edits : List (Edit T K)} {n : ℕ} {out removed pre post : List T} {e : Editing T S K},
      n + edits.length ≤ maxItems → Edited t n out removed pre post e →
      ∃ e' out' pre' post', edits.foldlM Editing.apply e = .ok e' ∧
        Edited t (n + edits.length) out'
          (removed ++ replacedAll KeyedItem.key (edits.map Edit.update) post) pre' post' e' ∧
        out' ++ post' = out ++ mergeAll KeyedItem.key (edits.map Edit.update) post := by
  intro edits
  induction edits with
  | nil =>
    intro n out removed pre post e _ he
    exact ⟨e, out, pre, post, rfl, by simpa [replacedAll] using he, rfl⟩
  | cons edit edits ih =>
    intro n out removed pre post e hlen he
    rw [List.length_cons] at hlen ⊢
    obtain ⟨e₁, pre₁, happly, he₁⟩ := apply_spec edit ht hheight hkeyed (by omega) he
    obtain ⟨e', out', pre', post', hrun, he', hout⟩ := ih (by omega) he₁
    refine ⟨e', out', pre', post', ?_, ?_, ?_⟩
    · rw [List.foldlM_cons, happly, ok_bind, hrun]
    · rw [List.map_cons, replacedAll, edit.update_key, ← List.append_assoc]
      rwa [show n + (edits.length + 1) = n + 1 + edits.length by omega]
    · rw [hout, List.map_cons, mergeAll, edit.update_key]
      simp only [List.append_assoc]

omit [Zero S] [Add S] [Item T S] [Dimension K S] [KeyedItem T K] [LinearOrder K]
  [LawfulSummary S] [KeyOfLast T S K] in
theorem seekForward_of_slice {D : Type} [Zero S] [Add S] [Item T S] [Dimension D S]
    {c c' : Cursor T S D} {tree : SumTree T S} {target : SeekTarget D} {bias : Bias}
    (h : c.slice target bias = .ok (c', tree)) :
    ∃ found, c.seekForward target bias = .ok (c', found) := by
  obtain ⟨⟨c₁, a, found⟩, hrun, hr⟩ := bind_eq_ok.mp h
  cases hr
  refine ⟨found, ?_⟩
  rw [seekForward, seekInternal_forget hrun]
  rfl

theorem seek_zero (ht : Valid t) (hheight : t.height ≤ 15) (hkeyed : Keyed S t.toList) :
    ∃ c found, (Cursor.new t : Cursor T S K).seek (.of (Dimension.zero S)) .left = .ok (c, found) ∧
      Stands t [] t.toList c := by
  obtain ⟨c, tree, hslice, -, -, -, hstands⟩ := slice_keys (k := Dimension.zero S) ht hheight
    hkeyed rfl (at_new tracks_keys t) (by simp) (show Place.done t.toList .fresh = [] from rfl) rfl
    le_rfl
  obtain ⟨found, hseek⟩ := seekForward_of_slice hslice
  have hnone : t.toList.filter (fun x => (KeyedItem.key x : K) < Dimension.zero S) = [] :=
    List.filter_eq_nil_iff.mpr fun x hx => by simpa using hkeyed.zero_le x hx
  have hall : t.toList.filter (fun x => (Dimension.zero S : K) ≤ KeyedItem.key x) = t.toList :=
    List.filter_eq_self.mpr fun x hx => by simpa using hkeyed.zero_le x hx
  rw [hnone, hall] at hstands
  exact ⟨c, found, hseek, hstands⟩

/-- **A batch.**  `edit` leaves the merge of the sorted updates into the items, and returns
the items that they replace. -/
theorem edit_spec (sortByKey : SortByKey T K) {edits : List (Edit T K)} (ht : Valid t)
    (hheight : t.height ≤ 15) (hkeyed : Keyed S t.toList) (hlen : edits.length ≤ maxItems) :
    ∃ tree, t.edit sortByKey edits = .ok (tree,
        replacedAll KeyedItem.key ((sortByKey.sort edits).map Edit.update) t.toList) ∧
      Valid tree ∧
      tree.toList = mergeAll KeyedItem.key ((sortByKey.sort edits).map Edit.update) t.toList := by
  have hperm := sortByKey.perm edits
  rw [edit]
  by_cases hempty : edits.isEmpty = true
  · obtain rfl := List.isEmpty_iff.mp hempty
    rw [hperm.eq_nil]
    exact ⟨t, rfl, ht, rfl⟩
  · rw [if_neg hempty]
    obtain ⟨c, found, hseek, hstands⟩ := seek_zero ht hheight hkeyed
    have hstart : Edited t 0 [] [] [] t.toList (⟨c, .new, [], []⟩ : Editing T S K) :=
      ⟨hstands, valid_new, Or.inl (Nat.zero_le _), by simp, rfl, Nat.zero_le _, Nat.zero_le _⟩
    have hsorted : 0 + (sortByKey.sort edits).length ≤ maxItems := by
      rw [hperm.length_eq]
      omega
    obtain ⟨e, out, pre, post, hrun, he, hout⟩ :=
      foldlM_apply_spec ht hheight hkeyed hsorted hstart
    have hroom := ht.length_toList_le hheight
    rw [he.stands.items, List.length_append] at hroom
    have hbuf := he.buffered
    have hlen' := he.room
    rw [← he.output, List.length_append] at hlen'
    obtain ⟨t₁, hrun₁, hv₁, hitems₁, htall₁⟩ :=
      extend_tall e.bufferedItems he.valid he.tall (by omega) (by omega)
    obtain ⟨c', suffix, hsuffix, hv', hle', hrest⟩ := he.stands.suffix ht hheight
    have hlen₁ : t₁.toList.length ≤ 4 * maxItems := by
      rw [hitems₁, List.length_append]
      omega
    have hheight₁ := htall₁.height_le hv₁ hlen₁
    obtain ⟨tree, happend, hj⟩ := append_spec hv₁ hv' (show t₁.height ≤ 64 by omega)
      (Nat.le_trans hle' (by omega)) (by omega)
    refine ⟨tree, ?_, hj.valid, ?_⟩
    · simp only [hseek, ok_bind, hrun, hrun₁, hsuffix, happend, he.taken, List.nil_append]
    · rw [hj.items, hitems₁, he.output, hrest, hout, List.nil_append]

omit [LawfulSummary S] in
/-- On a tree of more than 16 levels the first seek of a batch panics. -/
theorem edit_deep [LawfulSummary S] (sortByKey : SortByKey T K) {edits : List (Edit T K)}
    (hne : edits ≠ []) {h : ℕ} (hw : WF h t) (hh : 16 ≤ h) (hkeyed : Keyed S t.toList) :
    t.edit sortByKey edits = .error .capacity := by
  have hge : (SeekTarget.of (Dimension.zero S : K) (Dimension.zero S : K)).isGE :=
    isGE_compare.mpr le_rfl
  -- No first child lies before the start of the dimension.
  have hseek : (Cursor.new t : Cursor T S K).seekInternal (.of (Dimension.zero S)) .left ()
      = .error .capacity := by
    refine seekInternal_descends (Q := fun c : SumTree T S => (∃ h, WF h c) ∧ Keyed S c.toList)
      hw hh hge ⟨⟨h, hw⟩, hkeyed⟩ ?_ _
    rintro h s ss c cs ⟨⟨h', hw'⟩, hkeyed'⟩
    cases hw' with
    | @internal h' ts hne hlen hts =>
      have hc := hts c (by simp)
      rw [toList_internal, listItems_cons] at hkeyed'
      have hkeyed' := hkeyed'.of_append
      refine ⟨⟨⟨h', hc⟩, hkeyed'⟩, ?_⟩
      obtain ⟨init, last, hlast⟩ := (List.eq_nil_or_concat c.toList).resolve_left hc.toList_ne_nil
      rw [List.concat_eq_append] at hlast
      rw [hlast] at hkeyed'
      rw [hc.summary_eq, hlast, KeyOfLast.addSummary_eq _ init last hkeyed'.sorted hkeyed'.zero_le,
        SeekTarget.of]
      have hle := hkeyed'.zero_le last (by simp)
      have hgt : compare (Dimension.zero S : K) (KeyedItem.key last) ≠ .gt := by
        rw [Ne, compare_gt_iff_gt]
        exact not_lt.mpr hle
      cases hcmp : compare (Dimension.zero S : K) (KeyedItem.key last) with
      | lt => rfl
      | eq => rfl
      | gt => exact absurd hcmp hgt
  rw [edit, if_neg (by simpa using hne), Cursor.seek, seekForward]
  rw [show (Cursor.new t : Cursor T S K).reset = Cursor.new t from rfl, hseek]
  rfl

/-! ### Edits one by one -/

/-- The call that does one edit. -/
def Edit.runOne (self : SumTree T S) : Edit T K → Result (SumTree T S)
  | insert item => do
    let (self, _) ← self.insertOrReplace item
    .ok self
  | remove key => do
    let (self, _) ← self.remove key
    .ok self

/-- The trees that such calls meet have at most 16 levels. -/
def Edit.FitsAll : List (Edit T K) → SumTree T S → Prop
  | [], _ => True
  | edit :: edits, self => self.height ≤ 15 ∧
      ∀ self', edit.runOne self = .ok self' → FitsAll edits self'

theorem Edit.runOne_spec (edit : Edit T K) (ht : Valid t) (hheight : t.height ≤ 15)
    (hkeyed : Keyed S t.toList) (hk : (Dimension.zero S : K) ≤ edit.key) :
    ∃ t', edit.runOne t = .ok t' ∧ Valid t' ∧
      t'.toList = putAt KeyedItem.key t.toList edit.update ∧ Keyed S t'.toList := by
  have hkeyed' : Keyed S (putAt KeyedItem.key t.toList edit.update) := by
    refine ⟨increasing_putAt hkeyed.sorted edit.update_fits, fun x hx => ?_⟩
    rcases mem_putAt.mp hx with hx | ⟨hx, -⟩
    · rw [edit.update_fits x hx, edit.update_key]
      exact hk
    · exact hkeyed.zero_le x hx
  cases edit with
  | insert item =>
    obtain ⟨t', hrun, hv, hitems⟩ := insertOrReplace_keyed ht hheight hkeyed hk
    refine ⟨t', ?_, hv, hitems, hitems ▸ hkeyed'⟩
    rw [runOne, hrun]
    rfl
  | remove key =>
    have hk : (Dimension.zero S : K) ≤ key := hk
    obtain ⟨t', hrun, hv, hitems⟩ := remove_keyed ht hheight hkeyed hk
    refine ⟨t', ?_, hv, hitems, hitems ▸ hkeyed'⟩
    rw [runOne, hrun]
    rfl

theorem Edit.runAll_spec : ∀ {edits : List (Edit T K)} {t : SumTree T S}, Valid t →
    Keyed S t.toList → (∀ e ∈ edits, (Dimension.zero S : K) ≤ e.key) → FitsAll edits t →
    ∃ t', edits.foldlM Edit.runOne t = .ok t' ∧
      t'.toList = (edits.map Edit.update).foldl (putAt KeyedItem.key) t.toList := by
  intro edits
  induction edits with
  | nil =>
    intro t _ _ _ _
    exact ⟨t, rfl, rfl⟩
  | cons edit edits ih =>
    intro t ht hkeyed hkeys hfits
    obtain ⟨hheight, hrest⟩ := hfits
    obtain ⟨t₁, hrun, hv, hitems, hkeyed₁⟩ :=
      edit.runOne_spec ht hheight hkeyed (hkeys edit (by simp))
    obtain ⟨t', hruns, hitems'⟩ :=
      ih hv hkeyed₁ (fun e he => hkeys e (by simp [he])) (hrest t₁ hrun)
    refine ⟨t', ?_, ?_⟩
    · rw [List.foldlM_cons, hrun, ok_bind, hruns]
    · rw [hitems', hitems, List.map_cons, List.foldl_cons]

end Walking

/-! ### Integers as keys -/

/-- An integer, as an item that is its own key. -/
structure Signed where
  value : ℤ
  deriving DecidableEq

/-- The greatest of some integers. -/
structure Greatest where
  max : WithBot ℤ

instance : Zero Greatest := ⟨⟨⊥⟩⟩

instance : Add Greatest := ⟨fun a b => ⟨a.max ⊔ b.max⟩⟩

instance : LawfulSummary Greatest where
  zero_add a := congrArg Greatest.mk (bot_sup_eq a.max)
  add_assoc a b c := congrArg Greatest.mk (sup_assoc a.max b.max c.max)

instance : Item Signed Greatest where
  summary item := ⟨item.value⟩

instance : KeyedItem Signed ℤ where
  key item := item.value

instance : Dimension ℤ Greatest where
  zero := 0
  addSummary location summary := summary.max.unbotD location

theorem sumItems_signed_le {xs : List Signed} {n : ℤ} (h : ∀ y ∈ xs, y.value ≤ n) :
    (sumItems xs : Greatest).max ≤ n := by
  induction xs using List.reverseRecOn with
  | nil => exact bot_le
  | append_singleton xs x ih =>
    rw [sumItems_concat]
    exact sup_le (ih fun y hy => h y (by simp [hy])) (WithBot.coe_le_coe.mpr (h x (by simp)))

instance : KeyOfLast Signed Greatest ℤ where
  addSummary_eq d xs x hsorted _ := by
    have hle : (sumItems xs : Greatest).max ≤ (x.value : WithBot ℤ) :=
      sumItems_signed_le fun y hy =>
        le_of_lt ((List.pairwise_append.mp hsorted).2.2 y hy x (by simp))
    have hmax : (sumItems (xs ++ [x]) : Greatest).max = (x.value : WithBot ℤ) := by
      rw [sumItems_concat]
      exact sup_eq_right.mpr hle
    show (sumItems (xs ++ [x]) : Greatest).max.unbotD d = x.value
    rw [hmax]
    rfl

/-- Sorting by insertion. -/
def SortByKey.insertion {T K : Type} [KeyedItem T K] [LinearOrder K] : SortByKey T K where
  sort edits := edits.insertionSort fun a b => a.key ≤ b.key
  perm edits := List.perm_insertionSort _ edits
  sorted edits := by
    have : Std.Total fun a b : Edit T K => a.key ≤ b.key := ⟨fun a b => le_total a.key b.key⟩
    have : IsTrans (Edit T K) fun a b => a.key ≤ b.key := ⟨fun _ _ _ => le_trans⟩
    rw [List.pairwise_map]
    exact List.pairwise_insertionSort _ edits

/-! ### The batch and the single edits -/

/-- **Batch edits.**  On a tree of items in order of their keys, a batch of edits with different
keys leaves the items that the edits leave one by one, again in order, and returns the old items
whose keys occur among them.  No key may be below the start of the dimension, and the trees
along the run have at most 16 levels. -/
theorem batch_edit {T S K : Type} [Zero S] [Add S] [Item T S] [LawfulSummary S] [Dimension K S]
    [KeyedItem T K] [LinearOrder K] [KeyOfLast T S K] (sortByKey : SortByKey T K)
    {t : SumTree T S} (ht : Valid t) (hheight : t.height ≤ 15) (hkeyed : Keyed S t.toList)
    {edits : List (Edit T K)} (hkeys : ∀ e ∈ edits, (Dimension.zero S : K) ≤ e.key)
    (hnodup : (edits.map Edit.key).Nodup) (hlen : edits.length ≤ maxItems)
    (hfits : Edit.FitsAll edits t) :
    ∃ tree tree',
      t.edit sortByKey edits
        = .ok (tree, t.toList.filter fun x => KeyedItem.key x ∈ edits.map Edit.key) ∧
      edits.foldlM Edit.runOne t = .ok tree' ∧ tree.toList = tree'.toList ∧
      Increasing KeyedItem.key tree.toList := by
  obtain ⟨tree, hrun, -, hitems⟩ := edit_spec sortByKey ht hheight hkeyed hlen
  obtain ⟨tree', hrun', hitems'⟩ := Edit.runAll_spec ht hkeyed hkeys hfits
  have hperm := sortByKey.perm edits
  have hsorted : (((sortByKey.sort edits).map Edit.update).map Update.key).Pairwise (· ≤ ·) := by
    rw [map_update_key]
    exact sortByKey.sorted edits
  have hfits' : ∀ u ∈ edits.map Edit.update, u.Fits (KeyedItem.key : T → K) := by
    intro u hu
    obtain ⟨e, -, rfl⟩ := List.mem_map.mp hu
    exact e.update_fits
  have hmerge := mergeAll_eq_foldl (hperm.map Edit.update) hsorted hfits'
    (by rwa [map_update_key]) hkeyed.sorted
  refine ⟨tree, tree', ?_, hrun', ?_, ?_⟩
  · rw [hrun, replacedAll_eq_filter hsorted hkeyed.sorted, map_update_key]
    simp only [(hperm.map Edit.key).mem_iff]
  · rw [hitems, hitems', hmerge]
  · rw [hitems, hmerge]
    exact increasing_foldl_putAt hfits' hkeyed.sorted

/-- The theorem at a tree of two items. -/
theorem batch_edit_pair : ∃ (t tree tree' : SumTree Signed Greatest) (removed : List Signed),
    fromIter [⟨3⟩, ⟨7⟩] = .ok t ∧
    t.edit .insertion [.insert ⟨5⟩, .remove (3 : ℤ)] = .ok (tree, removed) ∧
    [Edit.insert ⟨5⟩, Edit.remove (3 : ℤ)].foldlM Edit.runOne t = .ok tree' ∧
    tree.toList = tree'.toList := by
  obtain ⟨t, hrun, hv, hitems, hheight⟩ := fromIter_spec (S := Greatest) (n := 15) (by omega)
    (show [Signed.mk 3, ⟨7⟩].length ≤ _ by decide)
  have hkeyed : Keyed Greatest t.toList := by
    rw [hitems]
    refine ⟨?_, ?_⟩
    · show [Signed.mk 3, ⟨7⟩].Pairwise fun x y => x.value < y.value
      decide
    · show ∀ x ∈ [Signed.mk 3, ⟨7⟩], (0 : ℤ) ≤ x.value
      decide
  have hfits : Edit.FitsAll [Edit.insert ⟨5⟩, Edit.remove (3 : ℤ)] t := by
    refine ⟨hheight, fun t' hrun' => ?_⟩
    obtain rfl := Except.ok.inj hrun
    obtain rfl := Except.ok.inj hrun'
    exact ⟨by decide, fun _ _ => trivial⟩
  obtain ⟨tree, tree', hedit, hruns, heq, -⟩ := batch_edit .insertion hv hheight hkeyed
    (show ∀ e ∈ [Edit.insert (Signed.mk 5), Edit.remove (3 : ℤ)], (0 : ℤ) ≤ e.key by decide)
    (by decide) (by decide) hfits
  exact ⟨t, tree, tree', _, hrun, hedit, hruns, heq⟩

/-- More items than 16 levels hold. -/
def manySigned : List Signed := (List.range (maxItems + 1)).map fun n : ℕ => ⟨(n : ℤ)⟩

/-- A batch on a tree of more than 16 levels panics.  A batch on a tree with a key below zero
loses the item, which the same edit on its own keeps. -/
theorem batch_edit_limits :
    (∃ t : SumTree Signed Greatest, fromIter manySigned = .ok t ∧ Keyed Greatest t.toList ∧
      t.edit .insertion [.remove (0 : ℤ)] = .error .capacity) ∧
    ∃ (t tree tree' : SumTree Signed Greatest), fromIter [⟨-3⟩] = .ok t ∧
      t.edit .insertion [.insert ⟨5⟩] = .ok (tree, []) ∧ tree.toList = [⟨5⟩] ∧
      [Edit.insert ⟨5⟩].foldlM Edit.runOne t = .ok tree' ∧ tree'.toList = [⟨-3⟩, ⟨5⟩] := by
  refine ⟨?_, _, _, _, rfl, rfl, rfl, rfl, rfl⟩
  have hlen : manySigned.length = maxItems + 1 := by simp [manySigned]
  have hroom : maxItems + 1 ≤ (2 * TREE_BASE) ^ (16 + 1) := by decide
  obtain ⟨t, hrun, hv, hitems, -⟩ :=
    fromIter_spec (S := Greatest) (show 16 ≤ 255 by omega) (show manySigned.length ≤ _ by omega)
  have hkeyed : Keyed Greatest t.toList := by
    rw [hitems]
    refine ⟨?_, ?_⟩
    · rw [Increasing, manySigned, List.pairwise_map]
      refine List.pairwise_lt_range.imp ?_
      intro a b hlt
      exact Int.ofNat_lt.mpr hlt
    · intro x hx
      obtain ⟨n, -, rfl⟩ := List.mem_map.mp hx
      exact Int.natCast_nonneg n
  obtain ⟨h, hw⟩ : ∃ h, WF h t := by
    rcases hv with rfl | hw
    · have := congrArg List.length hitems
      rw [hlen] at this
      exact absurd this (by simp)
    · exact hw
  have hdeep : 16 ≤ h := by
    by_contra hlt
    have := hv.length_toList_le (show t.height ≤ 15 by rw [hw.height_eq]; omega)
    rw [hitems, hlen] at this
    omega
  exact ⟨t, hrun, hkeyed, edit_deep .insertion (by simp) hw hdeep hkeyed⟩

end Zui
