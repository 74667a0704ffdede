/-
Forward seeks hand over exactly what they pass.

`slice`, `summary` and `seek_forward` are the same walk with different aggregates:
they end at the same cursor, and the first two return the tree and the dimension
over the items between the old place and the new one (`forward_seeks_agree`).  Slices
one after another, with the suffix at the end, are the items of the tree in order
(`slices_concat`); this holds for targets of any kind.
-/
import Zui.SumTree.Deep

namespace Zui

namespace Cursor

open SumTree

variable {T S D : Type} [Zero S] [Add S] [Item T S] [LawfulSummary S] [Dimension D S]

/-- A slice for each target, and then the suffix. -/
def slices : List (SeekTarget D × Bias) → Cursor T S D → Result (List (SumTree T S))
  | [], c => do
    let (_, tree) ← c.suffix
    .ok [tree]
  | (target, bias) :: targets, c => do
    let (c, tree) ← c.slice target bias
    let trees ← slices targets c
    .ok (tree :: trees)

omit [LawfulSummary S] in
theorem sliceOut_new : SliceOut (T := T) (S := S) [] ⟨.new, [], [], 0⟩ :=
  ⟨valid_new, toList_new, Or.inl (Nat.zero_le 15), Nat.zero_le _, rfl, rfl, rfl⟩

variable {Pos : List T → D → Prop} {c : Cursor T S D} {p : Place T} {target : SeekTarget D}
  {bias : Bias}

omit [Zero S] [Add S] [Item T S] [LawfulSummary S] [Dimension D S] in
theorem Lands_done {stops : T → Prop} {items start : List T} (h : p.Lands stops items start) :
    p ≠ .beforeFirst ∧ p.done items = start := by
  match p, h with
  | .item done x todo, ⟨hdone, _, _⟩ => exact ⟨by simp, hdone⟩
  | .afterLast, hitems => exact ⟨by simp, hitems⟩

variable (bias) in
/-- A slice to a target at or behind the cursor takes the items between the two
places. -/
theorem slice_spec (hpos : Tracks (S := S) Pos) (hr : Valid c.tree) (hheight : c.tree.height ≤ 15)
    (hat : c.At Pos p) (hp : p ≠ .beforeFirst) (hge : (target c.position).isGE) :
    ∃ c' tree p', c.slice target bias = .ok (c', tree) ∧ c'.tree = c.tree ∧ c'.At Pos p' ∧
      p' ≠ .beforeFirst ∧ Valid tree ∧ Tall 15 tree ∧
      p'.done c.tree.toList = p.done c.tree.toList ++ tree.toList ∧
      ((∀ d, passes bias (target d) = true) → p'.done c.tree.toList = c.tree.toList) := by
  obtain ⟨seg, p', ⟨c', a, found⟩, hrun, hs⟩ :=
    seekInternal_spec bias collects_slice hpos hr hheight hat hp sliceOut_new hge
  obtain ⟨hne, hdone⟩ := Lands_done hs.lands
  refine ⟨c', a.tree, p', ?_, hs.tree, hs.at_, hne, hs.out.valid, hs.out.tall, ?_, fun hall => ?_⟩
  · rw [slice, hrun]
    rfl
  · rw [hdone, hs.out.items]
  · match p', hs.lands with
    | .item done x todo, ⟨_, _, hstop⟩ =>
      exact absurd ((hall _).symm.trans hstop) (by simp)
    | .afterLast, _ => rfl

theorem slice_tall {n : ℕ} {c' : Cursor T S D} {tree : SumTree T S} (hpos : Tracks (S := S) Pos)
    (hr : Valid c.tree) (hheight : c.tree.height ≤ 15) (hat : c.At Pos p) (hp : p ≠ .beforeFirst)
    (hge : (target c.position).isGE) (htall : Tall n c.tree)
    (hrun : c.slice target bias = .ok (c', tree)) : Tall n tree := by
  obtain ⟨seg, p', ⟨c'', a, found⟩, hseek, hs⟩ :=
    seekInternal_of_nodes bias (collects_tall n) hpos hr ⟨hr, htall⟩ hheight hat hp
      ⟨sliceOut_new, Or.inl (Nat.zero_le n)⟩ hge
  rw [slice, hseek] at hrun
  cases hrun
  exact hs.out.2

omit [LawfulSummary S] in
theorem slice_backward (hlt : (target c.position).isGE = false) :
    c.slice target bias = .error .seekBackward := by
  rw [slice, seekInternal, if_neg (by simp [hlt])]
  rfl

theorem suffix_spec (hpos : Tracks (S := S) Pos) (hr : Valid c.tree) (hheight : c.tree.height ≤ 15)
    (hat : c.At Pos p) (hp : p ≠ .beforeFirst) :
    ∃ c' tree p', c.suffix = .ok (c', tree) ∧ c'.tree = c.tree ∧ c'.At Pos p' ∧ Valid tree ∧
      Tall 15 tree ∧ p.done c.tree.toList ++ tree.toList = c.tree.toList := by
  obtain ⟨c', tree, p', hrun, htree, hat', _, hv, htall, hdone, hall⟩ :=
    slice_spec .right hpos hr hheight hat hp (show (SeekTarget.endOfTree c.position).isGE from rfl)
  exact ⟨c', tree, p', hrun, htree, hat', hv, htall, by rw [← hdone, hall fun _ => rfl]⟩

/-- **Slices.**  Slices one after another, and the suffix behind them, are together
the items behind the place, unless one of the targets lies before the cursor. -/
theorem slices_spec (hpos : Tracks (S := S) Pos) :
    ∀ (targets : List (SeekTarget D × Bias)) {c : Cursor T S D} {p : Place T},
    Valid c.tree → c.tree.height ≤ 15 → c.At Pos p → p ≠ .beforeFirst →
    slices targets c = .error .seekBackward ∨
    ∃ trees, slices targets c = .ok trees ∧
      p.done c.tree.toList ++ (trees.map toList).flatten = c.tree.toList := by
  intro targets
  induction targets with
  | nil =>
    intro c p hr hheight hat hp
    obtain ⟨c', tree, p', hrun, -, -, -, -, hitems⟩ := suffix_spec hpos hr hheight hat hp
    refine Or.inr ⟨[tree], ?_, by simpa using hitems⟩
    rw [slices, hrun]
    rfl
  | cons head targets ih =>
    obtain ⟨target, bias⟩ := head
    intro c p hr hheight hat hp
    rw [slices]
    by_cases hge : (target c.position).isGE = true
    · obtain ⟨c', tree, p', hrun, htree, hat', hp', hv, -, hdone, -⟩ :=
        slice_spec bias hpos hr hheight hat hp hge
      simp only [hrun, ok_bind]
      rcases ih (htree ▸ hr) (htree ▸ hheight) hat' hp' with herr | ⟨trees, hruns, hitems⟩
      · exact Or.inl (by rw [herr]; rfl)
      · refine Or.inr ⟨tree :: trees, by rw [hruns]; rfl, ?_⟩
        rw [htree, hdone] at hitems
        simpa using hitems
    · rw [slice_backward (by simpa using hge)]
      exact Or.inl rfl

omit [Zero S] [Add S] [LawfulSummary S] in
theorem seg_done {A : Type} {Out : List T → A → Prop} {root : SumTree T S} {start seg : List T}
    {p' : Place T} {r : Cursor T S D × A × Bool}
    (h : Sought Pos Out target bias root start seg p' r) :
    start ++ seg = root.toList.take (p'.index.start root.toList.length) := by
  have hof : p'.Of root.toList := by
    have := h.at_.of
    rwa [h.tree] at this
  rw [← Place.done_eq hof, (Lands_done h.lands).2]

variable (bias) in
/-- The three forward seeks from one cursor to one target. -/
theorem seeks_index (Output : Type) [Dimension Output S] [LawfulDimension Output S]
    [LawfulDimension D S] {s : ListCursor} (hr : Valid c.tree) (hheight : c.tree.height ≤ 15)
    (h : c.Represents s) (hs : s ≠ .beforeFirst) (hmono : MonotoneOn target c.tree.toList)
    (hge : (target (positionAfter D (c.tree.toList.take (s.start c.tree.toList.length)))).isGE) :
    ∃ s' c' tree found,
      s' = .firstFrom (Move.seekStops c.tree.toList target bias) c.tree.toList.length
        (s.start c.tree.toList.length) ∧
      c.slice target bias = .ok (c', tree) ∧ c.seekForward target bias = .ok (c', found) ∧
      c.summary Output target bias = .ok (c', positionAfter Output tree.toList) ∧
      c'.tree = c.tree ∧ c'.Represents s' ∧ Valid tree ∧
      tree.toList = (c.tree.toList.take (s'.start c.tree.toList.length)).drop
        (s.start c.tree.toList.length) := by
  obtain ⟨p, hat, rfl⟩ := h
  have hp : p ≠ .beforeFirst := by
    rintro rfl
    exact hs rfl
  have hstart : c.position = positionAfter D (p.done c.tree.toList) := start_spec hat
  rw [← Place.done_eq hat.of, ← hstart] at hge
  obtain ⟨seg, p', ⟨c', a, found⟩, hrun, hsought, hindex⟩ :=
    seekInternal_index bias collects_slice hr hheight hat hp sliceOut_new hmono hge
  obtain ⟨seg', p'', ⟨c'', a', found'⟩, hrun', hsought', hindex'⟩ :=
    seekInternal_index bias (collects_summary (D := Output) tracks_exactly) hr hheight hat hp
      (a := ⟨Dimension.zero S⟩) rfl hmono hge
  -- Both walks are the walk that collects nothing, so they end at the same cursor.
  have hforget := seekInternal_forget hrun
  have hforget' := seekInternal_forget hrun'
  have hsame : (c', (), found) = (c'', (), found') :=
    Except.ok.inj (hforget.symm.trans hforget')
  obtain ⟨rfl, -, rfl⟩ : c' = c'' ∧ () = () ∧ found = found' := by simpa using hsame
  have hlen := Place.length_done hat.of
  rw [hlen] at hindex hindex'
  have hdone := seg_done hsought
  rw [hindex] at hdone
  have hseg : seg' = seg := by
    have hdone' := seg_done hsought'
    rw [hindex', ← hdone] at hdone'
    exact List.append_cancel_left hdone'
  subst hseg
  refine ⟨_, c', a.tree, found, rfl, ?_, ?_, ?_, hsought.tree, ⟨p', hsought.at_, hindex⟩,
    hsought.out.valid, ?_⟩
  · rw [slice, hrun]
    rfl
  · rw [seekForward, hforget]
    rfl
  · have hout : a'.summary = positionAfter Output seg' := hsought'.out
    have hitems : a.tree.toList = seg' := hsought.out.items
    rw [summary, hrun', hitems, ← hout]
    rfl
  · rw [hsought.out.items, ← hdone, ← hlen, List.drop_left]

end Cursor

open SumTree

/-- **Forward seeks.**  Let a cursor on a tree of at most 16 levels stand at index `s`
of the items, but not before the first one.  `slice`, `summary` and `seek_forward` to a
target at or behind it end at the same cursor, at the first item that the target does
not pass; the first two return the items between as a tree and as a dimension.
`suffix` returns the rest, and slices one after another followed by the suffix are the
rest cut in pieces. -/
theorem forward_seeks_aggregate {T S D : Type} (Output : Type) [Zero S] [Add S] [Item T S]
    [LawfulSummary S] [Dimension D S] [LawfulDimension D S] [Dimension Output S]
    [LawfulDimension Output S] {t : SumTree T S} (ht : Valid t) (hheight : t.height ≤ 15)
    (moves : List (Move S D)) (hfits : Move.FitsAll t.toList moves .fresh) {c : Cursor T S D}
    (hc : Move.runAll moves (Cursor.new t) = .ok c) {s : ListCursor}
    (hs : s = moves.foldl (fun s move => move.step t.toList s) .fresh) (hs' : s ≠ .beforeFirst) :
    (∀ target bias, MonotoneOn target t.toList → (target c.start).isGE →
      ∃ s' c' tree found,
        s' = .firstFrom (Move.seekStops t.toList target bias) t.toList.length
          (s.start t.toList.length) ∧
        c.slice target bias = .ok (c', tree) ∧ c.seekForward target bias = .ok (c', found) ∧
        c.summary Output target bias = .ok (c', positionAfter Output tree.toList) ∧
        Valid tree ∧ tree.toList = (t.toList.take (s'.start t.toList.length)).drop
          (s.start t.toList.length) ∧
        c'.Observes t.toList s') ∧
    (∃ c' tree, c.suffix = .ok (c', tree) ∧ tree.toList = t.toList.drop (s.start t.toList.length)) ∧
    ∀ targets, c.slices targets = .error .seekBackward ∨
      ∃ trees, c.slices targets = .ok trees ∧
        (trees.map toList).flatten = t.toList.drop (s.start t.toList.length) := by
  have hnew : (Cursor.new t : Cursor T S D).Represents .fresh :=
    ⟨.fresh, Cursor.at_new Cursor.tracks_exactly t, rfl⟩
  obtain ⟨c₁, hrun, htree, hrep⟩ := Move.runAll_spec moves (c := Cursor.new t) ht hheight hnew hfits
  obtain rfl : c₁ = c := Except.ok.inj (hrun.symm.trans hc)
  obtain rfl : c₁.tree = t := htree
  have hrep : c₁.Represents s := hs ▸ hrep
  obtain ⟨p, hat, hp⟩ := id hrep
  have hp' : p ≠ .beforeFirst := by
    rintro rfl
    exact hs' hp.symm
  have hdone : p.done c₁.tree.toList = c₁.tree.toList.take (s.start c₁.tree.toList.length) := by
    rw [← hp, Place.done_eq hat.of]
  have hrest : ∀ rest, p.done c₁.tree.toList ++ rest = c₁.tree.toList →
      rest = c₁.tree.toList.drop (s.start c₁.tree.toList.length) := by
    intro rest hsum
    rw [hdone] at hsum
    exact List.append_cancel_left (hsum.trans (List.take_append_drop _ _).symm)
  refine ⟨fun target bias hmono hge => ?_, ?_, fun targets => ?_⟩
  · have hstart : c₁.start = positionAfter D (p.done c₁.tree.toList) := Cursor.start_spec hat
    rw [hstart, hdone] at hge
    obtain ⟨s', c', tree, found, hs₁, hslice, hseek, hsum, htree', hrep', hv, hitems⟩ :=
      Cursor.seeks_index bias Output ht hheight hrep hs' hmono hge
    refine ⟨s', c', tree, found, hs₁, hslice, hseek, hsum, hv, hitems, ?_⟩
    have hobs := hrep'.observes (htree' ▸ ht)
    rw [htree'] at hobs
    exact hobs
  · obtain ⟨c', tree, _, hrun', -, -, -, -, hsum⟩ :=
      Cursor.suffix_spec Cursor.tracks_exactly ht hheight hat hp'
    exact ⟨c', tree, hrun', hrest _ hsum⟩
  · rcases Cursor.slices_spec Cursor.tracks_exactly targets ht hheight hat hp' with herr | h
    · exact Or.inl herr
    · obtain ⟨trees, hrun', hsum⟩ := h
      exact Or.inr ⟨trees, hrun', hrest _ hsum⟩

/-- The theorem at a tree of two items and a new cursor: a slice to the location behind
the first item. -/
theorem forward_seeks_aggregate_pair : ∃ t c' tree, fromIter [Tick.tick, Tick.tick] = .ok t ∧
    (Cursor.new t : Cursor Tick ℕ ℕ).slice (fun d => compare 1 d) .right = .ok (c', tree) ∧
    tree.toList = [.tick] ∧ c'.start = 1 := by
  obtain ⟨t, hrun, hv, hitems, hheight⟩ :=
    fromIter_spec (S := ℕ) (n := 15) (by omega) (show [Tick.tick, .tick].length ≤ _ by decide)
  have hmono : MonotoneOn (fun d : ℕ => compare 1 d) t.toList :=
    monotoneOn_compare 1 fun done x _ _ => by
      rw [positionAfter_concat]
      exact Nat.le_add_right _ _
  obtain ⟨hseek, -, -⟩ := forward_seeks_aggregate (D := ℕ) ℕ hv hheight [] trivial rfl rfl
    (by simp)
  obtain ⟨s', c', tree, found, rfl, hslice, -, -, -, htree, hobs⟩ :=
    hseek (fun d => compare 1 d) .right hmono rfl
  refine ⟨t, c', tree, hrun, hslice, ?_, ?_⟩
  · rw [htree, hitems]
    decide
  · rw [hobs.start, hitems]
    decide

/-- A tree with more than 16 levels has no room for the walk down to the first item. -/
theorem forward_seeks_limit : ∃ t : SumTree Tick ℕ, doubled .tick 60 = .ok t ∧
    MonotoneOn (fun _ : ℕ => .eq) t.toList ∧
    (Cursor.new t : Cursor Tick ℕ ℕ).slice (fun _ => .eq) .left = .error .capacity := by
  obtain ⟨t, h, hrun, hw, hh, -⟩ := doubled_deep (S := ℕ) Tick.tick
  refine ⟨t, hrun, fun _ _ _ _ => ⟨id, id⟩, ?_⟩
  rw [Cursor.slice, Cursor.seekInternal_deep hw hh rfl fun _ => rfl]
  rfl

end Zui
