/-
Trees that are too deep.

The stack of a cursor and of an iterator has room for 16 entries, one for each level
of the tree.  Nothing bounds the height of a tree by that: a tree appended to itself
shares its nodes, so a few dozen calls of `append` give a tree with more than 16
levels (`doubled_deep`), on which every descent to a leaf panics.

* `next_deep`, `seekInternal_deep`, `iterNext_deep` — the three ways down;
* `doubled_spec` — the tree after some doublings;
* `doubled_overflows` — more doublings leave the `u8` that holds the height.

`navigation_refines_index` puts together what the other modules say of single
calls: on a tree of at most 16 levels, any run of calls leads a cursor to where the
same calls lead an index into the item list, and the queries return what they say
of that index.  On a deeper tree the first call panics, and the place of a cursor
that was not moved is none of the three others (`navigation_limits`).
-/
import Zui.SumTree.Machine

namespace Zui

/-- An item that is only counted. -/
inductive Tick
  | tick
  deriving DecidableEq, Repr

instance : Item Tick ℕ where
  summary _ := 1

namespace SumTree

variable {T S : Type} [Zero S] [Add S] [Item T S]

theorem WF.lt_weight {h : ℕ} {t : SumTree T S} (hw : WF h t) : h < t.weight := by
  induction hw with
  | leaf _ _ => simp [weight]
  | @internal h ts hne _ _ ih =>
    obtain ⟨c, cs, rfl⟩ := List.exists_cons_of_ne_nil hne
    have hc := ih c (by simp)
    simp only [weight, weights]
    omega

section Descent

variable {D : Type}

/-- A descent along first children that is `n` levels away from a full stack and
not yet at a leaf. -/
def Descent (n : ℕ) (stack : List (StackEntry T S D)) : Prop :=
  ∃ tree p rest h, stack = ⟨tree, 0, p⟩ :: rest ∧ WF h tree ∧ n < h ∧ rest.length + n = 15

theorem descent_root {h : ℕ} {t : SumTree T S} (hw : WF h t) (hh : 16 ≤ h) (p : D) :
    Descent 15 [⟨t, 0, p⟩] :=
  ⟨t, p, [], h, rfl, hw, hh, rfl⟩

/-- The node on top of the stack has a first child, and there is room for it exactly
when the stack is not full. -/
theorem Descent.child {n : ℕ} {stack : List (StackEntry T S D)} (hd : Descent n stack) :
    ∃ h s c cs p rest,
      stack = ⟨.internal h s (c.summary :: cs.map summary) (c :: cs), 0, p⟩ :: rest ∧
      (∀ q, n = 0 → pushEntry stack ⟨c, 0, q⟩ = .error .capacity) ∧
      ∀ m q, n = m + 1 → pushEntry stack ⟨c, 0, q⟩ = .ok (⟨c, 0, q⟩ :: stack) ∧
        Descent m (⟨c, 0, q⟩ :: stack) := by
  obtain ⟨tree, p, rest, h, rfl, hw, hn, hroom⟩ := hd
  cases hw with
  | leaf => exact absurd hn (Nat.not_lt_zero n)
  | @internal h ts hne hlen hts =>
    obtain ⟨c, cs, rfl⟩ := List.exists_cons_of_ne_nil hne
    refine ⟨_, _, c, cs, p, rest, rfl, ?_, ?_⟩
    · rintro q rfl
      exact if_neg (by rw [List.length_cons]; omega)
    · rintro m q rfl
      refine ⟨if_pos (by rw [List.length_cons]; omega), c, q, _, h, rfl, hts c (by simp),
        by omega, ?_⟩
      rw [List.length_cons]
      omega

end Descent

end SumTree

open SumTree

namespace Cursor

variable {T S D : Type} [Zero S] [Add S] [Item T S] [Dimension D S] {h : ℕ} {t : SumTree T S}

/-- `next` on a new cursor panics when the tree has more than 16 levels. -/
theorem next_deep (hw : WF h t) (hh : 16 ≤ h) :
    (Cursor.new t : Cursor T S D).next = .error .capacity := by
  have hstart : (Cursor.new t : Cursor T S D).startForward =
    .ok ({ (Cursor.new t : Cursor T S D) with
      stack := [⟨t, 0, Dimension.zero S⟩], didSeek := true }, true) := by
    simp [startForward, Cursor.new, hw.isEmpty_eq, pushEntry]
  have hloop : loop .outOfFuel (searchForwardPass (T := T) (S := S) (D := D) fun _ => true)
      (stackFuel [⟨t, 0, (Dimension.zero S : D)⟩])
      ⟨[⟨t, 0, Dimension.zero S⟩], Dimension.zero S, true⟩ = .error Panic.capacity := by
    refine loop_fails (fun n (s : Forward T S D) => s.descend = true ∧ Descent n s.stack)
      (fun n s hs => ?_) (fun s hs => ?_) ⟨rfl, descent_root hw hh (Dimension.zero S)⟩ ?_
    · obtain ⟨stack, position, descend⟩ := s
      obtain ⟨hdescend, hs⟩ := hs
      obtain ⟨k, s, c, cs, p, rest, hstack, -, hpush⟩ := hs.child
      obtain ⟨hpush, hs'⟩ := hpush n position rfl
      simp only at hdescend hstack hpush
      subst hdescend hstack
      refine ⟨⟨_, position, true⟩, ?_, rfl, hs'⟩
      simp [searchForwardPass, skipChildren, hpush]
    · obtain ⟨stack, position, descend⟩ := s
      obtain ⟨hdescend, hs⟩ := hs
      obtain ⟨k, s, c, cs, p, rest, hstack, hpush, -⟩ := hs.child
      have hpush := hpush position rfl
      simp only at hdescend hstack hpush
      subst hdescend hstack
      simp [searchForwardPass, skipChildren, hpush]
    · have := hw.lt_weight
      simp only [stackFuel, List.map_cons, List.map_nil, List.sum_cons, List.sum_nil]
      omega
  rw [next, searchForward, hstart, ok_bind]
  simp only [Cursor.new, hloop, error_bind]

/-- A seek panics when the tree has more than 16 levels and no first child is passed on the
way down: `Q` holds of the nodes of that way. -/
theorem seekInternal_descends {A : Type} [SeekAggregate A T S] {target : SeekTarget D}
    {bias : Bias} {Q : SumTree T S → Prop} (hw : WF h t) (hh : 16 ≤ h)
    (hge : (target (Dimension.zero S)).isGE) (hroot : Q t)
    (hchild : ∀ h s ss c cs, Q (.internal h s ss (c :: cs)) → Q c ∧
      passes bias (target (Dimension.addSummary (Dimension.zero S) c.summary)) = false) (a : A) :
    (Cursor.new t : Cursor T S D).seekInternal target bias a = .error .capacity := by
  have hloop : loop .outOfFuel (seekPass target bias) (stackFuel [⟨t, 0, (Dimension.zero S : D)⟩])
      ⟨[⟨t, 0, Dimension.zero S⟩], Dimension.zero S, a, false⟩ = .error Panic.capacity := by
    refine loop_fails (fun n (s : Seeking T S D A) => s.ascending = false ∧
        s.position = Dimension.zero S ∧ Descent n s.stack ∧ ∀ e ∈ s.stack.head?, Q e.tree)
      (fun n s hs => ?_) (fun s hs => ?_)
      ⟨rfl, rfl, descent_root hw hh (Dimension.zero S), by simpa using hroot⟩ ?_
    · obtain ⟨stack, position, a, ascending⟩ := s
      obtain ⟨hascending, hposition, hs, hQ⟩ := hs
      obtain ⟨k, s, c, cs, p, rest, hstack, -, hpush⟩ := hs.child
      obtain ⟨hpush, hs'⟩ := hpush n position rfl
      simp only at hascending hposition hstack hpush hQ
      subst hascending hposition hstack
      obtain ⟨hc, hpass⟩ := hchild k s _ c cs (hQ _ rfl)
      refine ⟨⟨_, Dimension.zero S, a, false⟩, ?_, rfl, rfl, hs', by simpa using hc⟩
      simp [seekPass, sliceFrom, seekTrees, hpass, hpush]
    · obtain ⟨stack, position, a, ascending⟩ := s
      obtain ⟨hascending, hposition, hs, hQ⟩ := hs
      obtain ⟨k, s, c, cs, p, rest, hstack, hpush, -⟩ := hs.child
      have hpush := hpush position rfl
      simp only at hascending hposition hstack hpush hQ
      subst hascending hposition hstack
      obtain ⟨-, hpass⟩ := hchild k s _ c cs (hQ _ rfl)
      simp [seekPass, sliceFrom, seekTrees, hpass, hpush]
    · have := hw.lt_weight
      simp only [stackFuel, List.map_cons, List.map_nil, List.sum_cons, List.sum_nil]
      omega
  have hstart : (Cursor.new t : Cursor T S D).startSeek = .ok [⟨t, 0, Dimension.zero S⟩] := by
    simp [startSeek, Cursor.new, pushEntry]
  rw [seekInternal, if_pos (show (target (Cursor.new t : Cursor T S D).position).isGE from hge),
    hstart, ok_bind]
  simp only [Cursor.new, hloop, error_bind]

/-- A seek to a target that passes nothing panics when the tree has more than 16
levels. -/
theorem seekInternal_deep {A : Type} [SeekAggregate A T S] {target : SeekTarget D} {bias : Bias}
    (hw : WF h t) (hh : 16 ≤ h) (hge : (target (Dimension.zero S)).isGE)
    (hpass : ∀ d, passes bias (target d) = false) (a : A) :
    (Cursor.new t : Cursor T S D).seekInternal target bias a = .error .capacity :=
  seekInternal_descends (Q := fun _ => True) hw hh hge trivial
    (fun _ _ _ _ _ _ => ⟨trivial, hpass _⟩) a

end Cursor

namespace Iter

variable {T S : Type} [Zero S] [Add S] [Item T S] {h : ℕ} {t : SumTree T S}

/-- `Iter::next` panics when the tree has more than 16 levels. -/
theorem next_deep (hw : WF h t) (hh : 16 ≤ h) : (Iter.new t).next = .error .capacity := by
  have hloop : loop .outOfFuel nextPass (stackFuel [⟨t, 0, ()⟩])
      (([⟨t, 0, ()⟩], true) : List (StackEntry T S Unit) × Bool) = .error Panic.capacity := by
    refine loop_fails (fun n (s : List (StackEntry T S Unit) × Bool) => s.2 = true ∧ Descent n s.1)
      (fun n s hs => ?_) (fun s hs => ?_) ⟨rfl, descent_root hw hh ()⟩ ?_
    · obtain ⟨stack, descend⟩ := s
      obtain ⟨hdescend, hs⟩ := hs
      obtain ⟨k, s, c, cs, p, rest, hstack, -, hpush⟩ := hs.child
      obtain ⟨hpush, hs'⟩ := hpush n () rfl
      simp only at hdescend hstack hpush
      subst hdescend hstack
      refine ⟨(_, true), ?_, rfl, hs'⟩
      simp [nextPass, hpush]
    · obtain ⟨stack, descend⟩ := s
      obtain ⟨hdescend, hs⟩ := hs
      obtain ⟨k, s, c, cs, p, rest, hstack, hpush, -⟩ := hs.child
      have hpush := hpush () rfl
      simp only at hdescend hstack hpush
      subst hdescend hstack
      simp [nextPass, hpush]
    · have := hw.lt_weight
      simp only [stackFuel, List.map_cons, List.map_nil, List.sum_cons, List.sum_nil]
      omega
  have hstart : (Iter.new t).start = .ok ([⟨t, 0, ()⟩], true) := rfl
  rw [next, hstart, ok_bind]
  simp only [hloop, error_bind]

theorem collect_deep (hw : WF h t) (hh : 16 ≤ h) :
    collectIter Iter.next t (Iter.new t) = .error .capacity := by
  obtain ⟨fuel, hfuel⟩ := Nat.exists_eq_succ_of_ne_zero
    (Nat.ne_of_gt (Nat.zero_lt_of_lt hw.lt_weight))
  rw [collectIter, hfuel, loop, collectPass, next_deep hw hh]
  rfl

end Iter

namespace SumTree

variable {T S : Type} [Zero S] [Add S] [Item T S] [LawfulSummary S]

/-- The tree of one item, appended to itself `n` times. -/
def doubled (x : T) : ℕ → Result (SumTree T S)
  | 0 => fromItem x
  | n + 1 => do
    let t ← doubled x n
    append t t

theorem fromItem_spec (x : T) :
    ∃ t : SumTree T S, fromItem x = .ok t ∧ Valid t ∧ t.toList = [x] ∧ t.height = 0 := by
  exact ⟨_, rfl, (wf_item x).valid, rfl, rfl⟩

/-- The first 255 doublings succeed. -/
theorem doubled_spec (x : T) {n : ℕ} (hn : n ≤ 255) :
    ∃ t, doubled (S := S) x n = .ok t ∧ Valid t ∧ t.toList.length = 2 ^ n ∧ t.height ≤ n := by
  induction n with
  | zero =>
    obtain ⟨t, hrun, hv, hitems, hheight⟩ := fromItem_spec (S := S) x
    exact ⟨t, hrun, hv, by simp [hitems], by omega⟩
  | succ n ih =>
    obtain ⟨t, hrun, hv, hlen, hheight⟩ := ih (by omega)
    obtain ⟨r, hr, hj⟩ := append_spec hv hv hheight hheight (by omega)
    refine ⟨r, ?_, hj.valid, ?_, hj.height_le⟩
    · rw [doubled, hrun, ok_bind, hr]
    · rw [hj.items, List.length_append, hlen, Nat.pow_succ]
      omega

/-- Doubling an item 60 times gives a tree with more than 16 levels. -/
theorem doubled_deep (x : T) :
    ∃ t h, doubled (S := S) x 60 = .ok t ∧ WF h t ∧ 16 ≤ h ∧ h ≤ 60 := by
  obtain ⟨t, hrun, hv, hlen, hle⟩ := doubled_spec (S := S) x (show 60 ≤ 255 by omega)
  rcases hv with rfl | ⟨h, hw⟩
  · simp at hlen
  · have hroom := hw.length_toList_le
    rw [hw.height_eq] at hle
    refine ⟨t, h, hrun, hw, ?_, hle⟩
    by_contra hlt
    have hpow : (2 * TREE_BASE) ^ (h + 1) ≤ (2 * TREE_BASE) ^ 16 :=
      Nat.pow_le_pow_right (by simp [TREE_BASE]) (by omega)
    have hnum : (2 * TREE_BASE) ^ 16 < 2 ^ 60 := by decide
    omega

/-- The doublings go on, with a height that fits a `u8`, until one panics. -/
theorem doubled_cases (x : T) (n : ℕ) :
    (∃ m t, doubled (S := S) x m = .ok t ∧ Valid t ∧ append t t = .error .arithmeticOverflow) ∨
    ∃ t, doubled (S := S) x n = .ok t ∧ Valid t ∧ t.toList.length = 2 ^ n ∧ t.height ≤ 255 := by
  induction n with
  | zero =>
    obtain ⟨t, hrun, hv, hlen, hheight⟩ := doubled_spec (S := S) x (Nat.zero_le 255)
    exact Or.inr ⟨t, hrun, hv, hlen, by omega⟩
  | succ n ih =>
    rcases ih with h | ⟨t, hrun, hv, hlen, hheight⟩
    · exact Or.inl h
    · rcases append_joins hv hv hheight hheight with ⟨r, hr, hj⟩ | ⟨-, herr⟩
      · have hmax := hj.height_le_max
        refine Or.inr ⟨r, ?_, hj.valid, ?_, by omega⟩
        · rw [doubled, hrun, ok_bind, hr]
        · rw [hj.items, List.length_append, hlen, Nat.pow_succ]
          omega
      · exact Or.inl ⟨n, t, hrun, hv, herr⟩

/-- After enough doublings the height no longer fits a `u8`. -/
theorem doubled_overflows (x : T) :
    ∃ m t, doubled (S := S) x m = .ok t ∧ Valid t ∧ append t t = .error .arithmeticOverflow := by
  rcases doubled_cases (S := S) x 1000 with h | ⟨t, -, hv, hlen, hheight⟩
  · exact h
  · -- A tree of height 255 has no room for `2 ^ 1000` items.
    exfalso
    have hpos : ∀ n, t.toList.length = 2 ^ n → 0 < t.toList.length := fun n h => by
      rw [h]
      exact Nat.two_pow_pos n
    have hpos := hpos 1000 hlen
    rcases hv with rfl | ⟨h, hw⟩
    · simp at hpos
    · have hroom := hw.length_toList_le
      rw [hw.height_eq] at hheight
      have hpow : (2 * TREE_BASE) ^ (h + 1) ≤ (2 * TREE_BASE) ^ 256 :=
        Nat.pow_le_pow_right (by simp [TREE_BASE]) (by omega)
      have hnum : (2 * TREE_BASE) ^ 256 < 2 ^ 1000 := by decide +kernel
      rw [hlen] at hroom
      exact absurd (Nat.lt_of_le_of_lt (Nat.le_trans hroom hpow) hnum) (Nat.lt_irrefl _)

end SumTree

/-! ### Runs of cursor calls -/

open SumTree

/-- **Navigation.**  A cursor on a tree of at most 16 levels follows the index
machine over the items of the tree. -/
theorem navigation_refines_index {T S D : Type} [Zero S] [Add S] [Item T S] [LawfulSummary S]
    [Dimension D S] [LawfulDimension D S] {t : SumTree T S} (ht : Valid t) (hheight : t.height ≤ 15)
    (moves : List (Move S D)) (hfits : Move.FitsAll t.toList moves .fresh) :
    ∃ c, Move.runAll moves (Cursor.new t) = .ok c ∧ c.tree = t ∧
      c.Observes t.toList (moves.foldl (fun s move => move.step t.toList s) .fresh) := by
  have hnew : (Cursor.new t : Cursor T S D).Represents .fresh :=
    ⟨.fresh, Cursor.at_new Cursor.tracks_exactly t, rfl⟩
  obtain ⟨c, hrun, htree, hc⟩ := Move.runAll_spec moves (c := Cursor.new t) ht hheight hnew hfits
  have htree : c.tree = t := htree
  refine ⟨c, hrun, htree, ?_⟩
  have hobs := hc.observes (htree ▸ ht)
  rw [htree] at hobs
  exact hobs

/-- The theorem at a tree of two items: a seek that passes one of them and a step
back. -/
theorem navigation_refines_index_pair : ∃ t c, fromIter [Tick.tick, Tick.tick] = .ok t ∧
    Move.runAll [.seek (fun d => compare 1 d) .right, .prev]
      (Cursor.new t : Cursor Tick ℕ ℕ) = .ok c ∧
    c.start = 0 ∧ c.item = .ok (some .tick) ∧ c.endPosition = .ok 1 := by
  obtain ⟨t, hrun, hv, hitems, hheight⟩ :=
    fromIter_spec (S := ℕ) (n := 15) (by omega) (show [Tick.tick, .tick].length ≤ _ by decide)
  have hmono : MonotoneOn (fun d : ℕ => compare 1 d) t.toList :=
    monotoneOn_compare 1 fun done x _ _ => by
      rw [positionAfter_concat]
      exact Nat.le_add_right _ _
  obtain ⟨c, hmoves, -, hobs⟩ := navigation_refines_index hv hheight
    [.seek (fun d : ℕ => compare 1 d) .right, .prev] ⟨⟨hmono, rfl⟩, trivial, trivial⟩
  refine ⟨t, c, hrun, hmoves, ?_, ?_, ?_⟩
  · rw [hobs.start, hitems]
    rfl
  · rw [hobs.item (by rw [hitems]; decide), hitems]
    rfl
  · rw [hobs.endPosition (by rw [hitems]; decide), hitems]
    rfl

/-- The machine over `beforeFirst`, the indices and `afterLast` is not all of it.  On
a tree with more than 16 levels, `next` panics.  And a cursor that was not moved goes
to the only item of a tree both by `next` and by `prev`, which none of those three
places does. -/
theorem navigation_limits :
    (∃ t : SumTree Tick ℕ, doubled .tick 60 = .ok t ∧
      Move.runAll [.next] (Cursor.new t : Cursor Tick ℕ ℕ) = .error .capacity) ∧
    (∃ t : SumTree Tick ℕ, fromIter [.tick] = .ok t ∧
      (do (← Move.runAll [.next] (Cursor.new t : Cursor Tick ℕ ℕ)).item) = .ok (some .tick) ∧
      (do (← Move.runAll [.prev] (Cursor.new t : Cursor Tick ℕ ℕ)).item) = .ok (some .tick)) := by
  constructor
  · obtain ⟨t, h, hrun, hw, hh, -⟩ := doubled_deep (S := ℕ) Tick.tick
    refine ⟨t, hrun, ?_⟩
    have hnext := Cursor.next_deep (D := ℕ) hw hh
    rw [Move.runAll, List.foldlM_cons, Move.run, hnext]
    rfl
  · exact ⟨_, rfl, rfl, rfl⟩

end Zui
