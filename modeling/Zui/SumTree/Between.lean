/-
A cursor between two parts of the items.

Main definitions:

* `Between` — the cursor was moved, and is in front of the second part.

Main statements:

* `Between.item`, `Between.next`, `Between.prev`, `Between.suffix` — what the methods of such
  a cursor do;
* `between_of_sought`, `slice_between`, `seek_between` — a seek ends between the items that it
  passes and the others, when those it passes come first.
-/
import Zui.SumTree.Iterate
import Zui.SumTree.Slices

namespace Zui

open SumTree Cursor

variable {T S D : Type} [Zero S] [Add S] [Item T S] [Dimension D S]

/-- The cursor was moved, and is between the two parts of the items of the tree. -/
structure Between (t : SumTree T S) (pre post : List T) (c : Cursor T S D) : Prop where
  tree : c.tree = t
  items : t.toList = pre ++ post
  place : ∃ p, c.At Exactly p ∧ p ≠ .fresh ∧ p ≠ .beforeFirst ∧ p.done t.toList = pre ∧
    p.rest = post

namespace Between

variable {t : SumTree T S} {pre post : List T} {c : Cursor T S D}

omit [Zero S] [Add S] in
theorem item (h : Between t pre post c) : c.item = .ok post.head? := by
  obtain ⟨p, hat, hp, -, -, hrest⟩ := h.place
  rw [item_spec hat hp, ← hrest]
  cases p <;> rfl

variable [LawfulSummary S] [LawfulDimension D S]

theorem endPosition (ht : Valid t) (h : Between t pre post c) :
    c.endPosition = .ok (positionAfter D (pre ++ post.head?.toList)) := by
  obtain ⟨rfl, -, p, hat, hp, -, hdone, hrest⟩ := h
  obtain ⟨q, hrun, hq⟩ := endPosition_spec tracks_exactly ht hat hp
  have hupTo : p.upTo c.tree.toList = pre ++ post.head?.toList := by
    rw [Place.upTo, hdone, ← hrest]
    cases p <;> rfl
  rw [hrun, hq, hupTo]

/-- `next` moves the first item behind the cursor to the other part. -/
theorem next {x : T} (ht : Valid t) (hheight : t.height ≤ 15) (h : Between t pre (x :: post) c) :
    ∃ c', c.next = .ok c' ∧ Between t (pre ++ [x]) post c' := by
  obtain ⟨rfl, hitems, p, hat, hp, hb, hdone, hrest⟩ := h
  match p, hdone, hrest with
  | .item _ _ _, rfl, rfl =>
    obtain ⟨c', p', hrun, htree, hat', hp', hb', hdone', hrest'⟩ :=
      next_item tracks_exactly ht hheight hat
    exact ⟨c', hrun, htree, by simpa [Place.done] using hitems, p', hat', hp', hb', hdone', hrest'⟩

/-- Behind `prev` the item is the last one in front of the cursor. -/
theorem prev (ht : Valid t) (hheight : t.height ≤ 15) (h : Between t pre post c) :
    ∃ c', c.prev = .ok c' ∧ c'.item = .ok pre.getLast? := by
  obtain ⟨rfl, -, p, hat, hp, hb, hdone, -⟩ := h
  obtain ⟨c', p', hrun, -, hat', hp', hcurrent⟩ := prev_spec tracks_exactly ht hheight hat
  refine ⟨c', hrun, ?_⟩
  rw [item_spec hat' hp', hcurrent, ← hdone]
  cases p with
  | fresh => exact absurd rfl hp
  | beforeFirst => exact absurd rfl hb
  | item done x todo => rfl
  | afterLast => rfl

/-- `prev` moves the last item in front of the cursor to the other part. -/
theorem prev_item {y : T} (ht : Valid t) (hheight : t.height ≤ 15)
    (h : Between t (pre ++ [y]) post c) : ∃ c', c.prev = .ok c' ∧ Between t pre (y :: post) c' := by
  obtain ⟨rfl, hitems, p, hat, hp, hb, -, hrest⟩ := h
  obtain ⟨c', hrun, htree, p', skipped, hat', hskip, hlands⟩ :=
    searchBackward_spec (fun _ => true) tracks_exactly ht hheight hat
  obtain rfl := skipped_eq_nil hskip
  have honward : p.onward c.tree.toList = post := by
    rw [← hrest]
    cases p with
    | fresh => exact absurd rfl hp
    | beforeFirst => exact absurd rfl hb
    | item done x todo => rfl
    | afterLast => rfl
  rw [List.nil_append, honward] at hlands
  match p', hlands with
  | .item done x todo, ⟨htodo, hitems', _⟩ =>
    subst htodo
    have hsum : (done ++ [x]) ++ todo = (pre ++ [y]) ++ todo := by
      rw [← hitems, hitems', List.append_assoc]
      rfl
    obtain ⟨rfl, hxy⟩ := List.append_inj' (List.append_cancel_right hsum) rfl
    obtain rfl := List.singleton_inj.mp hxy
    exact ⟨c', hrun, htree, hitems', _, hat', by simp, by simp, rfl, rfl⟩
  | .beforeFirst, hitems' =>
    have hlength := congrArg List.length (hitems.symm.trans hitems')
    simp only [List.length_append, List.length_cons] at hlength
    omega

/-- The suffix is a tree of the other part. -/
theorem suffix (ht : Valid t) (hheight : t.height ≤ 15) (h : Between t pre post c) :
    ∃ c' tree, c.suffix = .ok (c', tree) ∧ Valid tree ∧ tree.toList = post ∧ tree.height ≤ 39 := by
  obtain ⟨rfl, hitems, p, hat, -, hb, hdone, -⟩ := h
  obtain ⟨c', tree, p', hrun, -, -, hv, htall, hlist⟩ :=
    suffix_spec tracks_exactly ht hheight hat hb
  rw [hdone, hitems] at hlist
  have hpost : tree.toList = post := List.append_cancel_left hlist
  have hroom := ht.length_toList_le hheight
  rw [hitems, List.length_append] at hroom
  exact ⟨c', tree, hrun, hv, hpost, htall.height_le hv (by rw [hpost]; omega)⟩

theorem suffix_tall {n : ℕ} {c' : Cursor T S D} {tree : SumTree T S} (ht : Valid t)
    (hheight : t.height ≤ 15) (h : Between t pre post c) (htall : Tall n t)
    (hrun : c.suffix = .ok (c', tree)) : Tall n tree := by
  obtain ⟨rfl, hitems, p, hat, -, hb, hdone, -⟩ := h
  exact slice_tall tracks_exactly ht hheight hat hb rfl htall hrun

theorem collect (ht : Valid t) (hheight : t.height ≤ 15) (h : Between t pre post c) :
    collectIter iterNext t c = .ok post := by
  obtain ⟨rfl, -, p, hat, hp, -, -, hrest⟩ := h
  rw [← hrest]
  exact Cursor.collect_spec tracks_exactly ht hheight hat hp

end Between

/-! ### A seek between two parts -/

section Seeking

variable {t : SumTree T S} {target : SeekTarget D} {bias : Bias} {P : T → Prop}

/-- The location behind an item decides whether a seek passes it, and the items that it
passes come before the others. -/
structure Cuts (target : SeekTarget D) (bias : Bias) (P : T → Prop) (items : List T) : Prop where
  passes_iff : ∀ xs x, passes bias (target (positionAfter D (xs ++ [x]))) = true ↔ P x
  closed : items.Pairwise fun x y => P y → P x

omit [Zero S] [Add S] in
/-- A seek from a new cursor ends between what it passes and what it does not. -/
theorem between_of_sought {A : Type} {Out : List T → A → Prop} {seg : List T} {p : Place T}
    {r : Cursor T S D × A × Bool} (hcuts : Cuts target bias P t.toList)
    (h : Sought Exactly Out target bias t [] seg p r) :
    ∃ post, Between t seg post r.1 ∧ (∀ x ∈ seg, P x) ∧ ∀ x ∈ post, ¬ P x := by
  obtain ⟨htree, hat, -, hpassed, hlands, -⟩ := h
  obtain ⟨hb, hdone⟩ := Lands_done hlands
  have hposition : r.1.position = positionAfter D seg := by
    have := start_spec hat
    rwa [htree, hdone, List.nil_append] at this
  rw [List.nil_append] at hlands hdone
  have hitems : t.toList = seg ++ p.rest := by
    match p, hlands with
    | .item _ _ _, ⟨_, hitems, _⟩ => exact hitems
    | .afterLast, hitems => exact hitems.trans (List.append_nil seg).symm
  have hfresh : p ≠ .fresh := by
    rintro rfl
    exact hlands
  have hclosed := hcuts.closed
  rw [hitems] at hclosed
  obtain ⟨hpre, hpost, -⟩ := List.pairwise_append.mp hclosed
  refine ⟨p.rest, ⟨htree, hitems, p, hat, hfresh, hb, hdone, rfl⟩, ?_, ?_⟩
  · -- The seek passed the last of them, so it passes the ones before it.
    intro x hx
    rcases List.eq_nil_or_concat seg with rfl | ⟨init, last, rfl⟩
    · exact absurd hx (by simp)
    · rw [List.concat_eq_append] at *
      have hlast : P last := by
        rw [← hcuts.passes_iff init last, ← hposition]
        exact hpassed.resolve_left (by simp)
      rcases List.mem_append.mp hx with hin | hin
      · exact (List.pairwise_append.mp hpre).2.2 x hin last (by simp) hlast
      · rwa [List.mem_singleton.mp hin]
  · -- The seek stopped at the first of them.
    intro x hx
    match p, hlands with
    | .item _ first todo, ⟨_, _, hstop⟩ =>
      rw [hposition, ← positionAfter_concat] at hstop
      have hfirst : ¬ P first := by
        rw [← hcuts.passes_iff seg first, hstop]
        simp
      rcases List.mem_cons.mp hx with rfl | hin
      · exact hfirst
      · exact fun hP => hfirst ((List.pairwise_cons.mp hpost).1 x hin hP)
    | .afterLast, _ => exact absurd hx (by simp [Place.rest])

variable [LawfulSummary S] [LawfulDimension D S]

/-- A slice from a new cursor. -/
theorem slice_between (ht : Valid t) (hheight : t.height ≤ 15)
    (hge : (target (Dimension.zero S)).isGE) (hcuts : Cuts target bias P t.toList) :
    ∃ c tree pre post, (Cursor.new t : Cursor _ _ D).slice target bias = .ok (c, tree) ∧
      Valid tree ∧ tree.toList = pre ∧ tree.height ≤ 39 ∧ Between t pre post c ∧
      (∀ x ∈ pre, P x) ∧ ∀ x ∈ post, ¬ P x := by
  obtain ⟨seg, p, ⟨c, a, found⟩, hrun, hsought⟩ := seekInternal_spec bias collects_slice
    tracks_exactly (c := (Cursor.new t : Cursor _ _ D)) ht hheight (at_new tracks_exactly t)
    (by simp) sliceOut_new hge
  obtain ⟨post, hbetween, hpre, hpost⟩ := between_of_sought hcuts hsought
  have hout := hsought.out
  have hroom := ht.length_toList_le hheight
  rw [hbetween.items, List.length_append] at hroom
  refine ⟨c, a.tree, seg, post, ?_, hout.valid, hout.items, ?_, hbetween, hpre, hpost⟩
  · rw [Cursor.slice, hrun]
    rfl
  · exact hout.tall.height_le hout.valid (by rw [hout.items]; omega)

/-- A seek from a new cursor. -/
theorem seek_between (ht : Valid t) (hheight : t.height ≤ 15)
    (hge : (target (Dimension.zero S)).isGE) (hcuts : Cuts target bias P t.toList) :
    ∃ c found pre post, (Cursor.new t : Cursor _ _ D).seek target bias = .ok (c, found) ∧
      Between t pre post c ∧ (∀ x ∈ pre, P x) ∧ ∀ x ∈ post, ¬ P x := by
  obtain ⟨seg, p, ⟨c, a, found⟩, hrun, hsought⟩ := seekInternal_spec bias collects_unit
    tracks_exactly (c := (Cursor.new t : Cursor _ _ D).reset) ht hheight
    (at_reset tracks_exactly (Cursor.new t)) (by simp) (a := ()) trivial hge
  obtain ⟨post, hbetween, hpre, hpost⟩ := between_of_sought hcuts hsought
  refine ⟨c, found, seg, post, ?_, hbetween, hpre, hpost⟩
  rw [Cursor.seek, seekForward, hrun]
  rfl

end Seeking

end Zui
