/-
Cursors over any dimension and with any targets.

Nothing is assumed here of the dimension, of the targets of seeks or of the filters
of searches.  Where such a cursor goes is not determined, but it always stands at a
place of its tree: no call overflows its stack or hits one of its panics, other than
the assertion that a seek goes forward.

* `seekInternal_safe` — seeks, from every place;
* `Moved.at` — the cursors that any calls lead to.
-/
import Zui.SumTree.Iterate
import Zui.SumTree.Slices

namespace Zui

namespace Cursor

open SumTree

variable {T S D : Type} [Zero S] [Add S] [Item T S] [LawfulSummary S] [Dimension D S]
  {c c' : Cursor T S D} {p : Place T}

/-- What a seek leaves on a cursor of which nothing is known but its place. -/
structure SoughtAnyhow {A : Type} (Out : List T → A → Prop) (root : SumTree T S) (n : ℕ)
    (r : Cursor T S D × A × Bool) (seg : List T) (p : Place T) : Prop where
  tree : r.1.tree = root
  at_ : r.1.At Anyhow p
  not_fresh : p ≠ .fresh
  not_before : p ≠ .beforeFirst
  out : Out seg r.2.1
  length_le : n + seg.length ≤ (p.done root.toList).length

omit [LawfulSummary S] in
/-- **Seeking, whatever the target.**  The seek is refused because the target lies
before the cursor, or it succeeds. -/
theorem seekInternal_safe {A : Type} [SeekAggregate A T S] {Out : List T → A → Prop}
    {In : List T → List T → A → Prop} (target : SeekTarget D) (bias : Bias)
    (hagg : Collects (S := S) Out In) (hr : Valid c.tree) (hheight : c.tree.height ≤ 15)
    (hat : c.At Anyhow p) {a : A} (ho : Out [] a) :
    c.seekInternal target bias a = .error .seekBackward ∨
    ∃ r seg p', c.seekInternal target bias a = .ok r ∧
      SoughtAnyhow Out c.tree (p.done c.tree.toList).length r seg p' := by
  by_cases hge : (target c.position).isGE = true
  · right
    by_cases hp : p = .beforeFirst
    · -- The empty stack is taken for the right end.
      subst hp
      obtain ⟨tree, stack, position, didSeek, atEnd⟩ := c
      obtain ⟨hd, hstack, -, -⟩ := hat
      simp only at hd hstack hge
      subst hd hstack
      have hitem : (⟨tree, [], position, true, true⟩ : Cursor T S D).itemSummary = .ok none := rfl
      have hend : (⟨tree, [], position, true, true⟩ : Cursor T S D).endOfSeek bias
          = .ok position := by
        rw [endOfSeek, hitem]
        cases bias <;> rfl
      refine ⟨(⟨tree, [], position, true, true⟩, a, decide (target position = .eq)), [], .afterLast,
        ?_, rfl, ⟨rfl, rfl, trivial, rfl⟩, by simp, by simp, ho, Nat.zero_le _⟩
      rw [seekInternal, if_pos hge]
      simp only [startSeek, if_true, ok_bind]
      rw [show loop .outOfFuel (seekPass target bias) (stackFuel ([] : List (StackEntry T S D)))
        ⟨[], position, a, false⟩ = .ok ([], position, a) from rfl, ok_bind]
      simp only [List.isEmpty_nil, hend, ok_bind]
    · obtain ⟨seg, p', r, hrun, hs⟩ :=
        seekInternal_spec bias hagg tracks_anyhow hr hheight hat hp ho
        hge
      obtain ⟨hne, hdone⟩ := Lands_done hs.lands
      have hfresh : p' ≠ .fresh := by
        have hlands := hs.lands
        rintro rfl
        exact hlands
      refine ⟨r, seg, p', hrun, hs.tree, hs.at_, hfresh, hne, hs.out, ?_⟩
      rw [hdone, List.length_append]
  · left
    rw [seekInternal, if_neg hge]

theorem slice_safe (target : SeekTarget D) (bias : Bias) (hr : Valid c.tree)
    (hheight : c.tree.height ≤ 15) (hat : c.At Anyhow p) :
    c.slice target bias = .error .seekBackward ∨
    ∃ c' tree p', c.slice target bias = .ok (c', tree) ∧ c'.tree = c.tree ∧ c'.At Anyhow p' ∧
      p' ≠ .fresh ∧ Valid tree ∧ Tall 15 tree ∧
      (p.done c.tree.toList).length + tree.toList.length ≤ (p'.done c.tree.toList).length := by
  rcases seekInternal_safe target bias collects_slice hr hheight hat sliceOut_new with
    herr | ⟨⟨c', a, found⟩, seg, p', hrun, hs⟩
  · left
    rw [slice, herr]
    rfl
  · right
    refine ⟨c', a.tree, p', ?_, hs.tree, hs.at_, hs.not_fresh, hs.out.valid, hs.out.tall, ?_⟩
    · rw [slice, hrun]
      rfl
    · rw [hs.out.items]
      exact hs.length_le

omit [LawfulSummary S] in
theorem seekForward_safe (target : SeekTarget D) (bias : Bias) (hr : Valid c.tree)
    (hheight : c.tree.height ≤ 15) (hat : c.At Anyhow p) :
    c.seekForward target bias = .error .seekBackward ∨
    ∃ c' found p', c.seekForward target bias = .ok (c', found) ∧ c'.tree = c.tree ∧
      c'.At Anyhow p' ∧ p' ≠ .fresh := by
  rcases seekInternal_safe target bias collects_unit hr hheight hat trivial with
    herr | ⟨⟨c', a, found⟩, seg, p', hrun, hs⟩
  · left
    rw [seekForward, herr]
    rfl
  · right
    refine ⟨c', found, p', ?_, hs.tree, hs.at_, hs.not_fresh⟩
    rw [seekForward, hrun]
    rfl

/-- The cursors over a tree that calls lead to. -/
inductive Moved (t : SumTree T S) : Cursor T S D → Prop
  | new : Moved t (.new t)
  | move {c c' : Cursor T S D} (move : Move S D) : Moved t c → move.run c = .ok c' → Moved t c'
  | slice {c c' : Cursor T S D} {tree : SumTree T S} (target : SeekTarget D) (bias : Bias) :
      Moved t c → c.slice target bias = .ok (c', tree) → Moved t c'
  | summary {c c' : Cursor T S D} {Output : Type} [Dimension Output S] {output : Output}
      (target : SeekTarget D) (bias : Bias) : Moved t c →
      c.summary Output target bias = .ok (c', output) → Moved t c'

theorem move_safe (move : Move S D) (hr : Valid c.tree) (hheight : c.tree.height ≤ 15)
    (hat : c.At Anyhow p) :
    move.run c = .error .seekBackward ∨
    ∃ c' p', move.run c = .ok c' ∧ c'.tree = c.tree ∧ c'.At Anyhow p' := by
  cases move with
  | reset => exact Or.inr ⟨c.reset, .fresh, rfl, rfl, at_reset tracks_anyhow c⟩
  | seek target bias =>
    rcases seekForward_safe (c := c.reset) target bias hr hheight (at_reset tracks_anyhow c) with
      herr | ⟨c', found, p', hrun, htree, hat', -⟩
    · exact Or.inl (by rw [Move.run, Cursor.seek, herr]; rfl)
    · exact Or.inr ⟨c', p', by rw [Move.run, Cursor.seek, hrun]; rfl, htree, hat'⟩
  | seekForward target bias =>
    rcases seekForward_safe target bias hr hheight hat with
      herr | ⟨c', found, p', hrun, htree, hat', -⟩
    · exact Or.inl (by rw [Move.run, herr]; rfl)
    · exact Or.inr ⟨c', p', by rw [Move.run, hrun]; rfl, htree, hat'⟩
  | next =>
    obtain ⟨c', hrun, htree, p', -, hat', -⟩ := searchForward_spec _ tracks_anyhow hr hheight hat
    exact Or.inr ⟨c', p', hrun, htree, hat'⟩
  | prev =>
    obtain ⟨c', hrun, htree, p', -, hat', -⟩ := searchBackward_spec _ tracks_anyhow hr hheight hat
    exact Or.inr ⟨c', p', hrun, htree, hat'⟩
  | searchForward filterNode =>
    obtain ⟨c', hrun, htree, p', -, hat', -⟩ := searchForward_spec _ tracks_anyhow hr hheight hat
    exact Or.inr ⟨c', p', hrun, htree, hat'⟩
  | searchBackward filterNode =>
    obtain ⟨c', hrun, htree, p', -, hat', -⟩ := searchBackward_spec _ tracks_anyhow hr hheight hat
    exact Or.inr ⟨c', p', hrun, htree, hat'⟩

/-- Whatever calls were made, the cursor stands at a place of its tree. -/
theorem Moved.at {t : SumTree T S} (ht : Valid t) (hheight : t.height ≤ 15) (h : Moved t c) :
    c.tree = t ∧ ∃ p, c.At Anyhow p := by
  induction h with
  | new => exact ⟨rfl, .fresh, at_new tracks_anyhow t⟩
  | @move c c' move _ hrun ih =>
    obtain ⟨rfl, p, hat⟩ := ih
    rcases move_safe move ht hheight hat with herr | ⟨c₁, p', hrun', htree, hat'⟩
    · exact absurd (hrun.symm.trans herr) (by simp)
    · obtain rfl : c₁ = c' := Except.ok.inj (hrun'.symm.trans hrun)
      exact ⟨htree, p', hat'⟩
  | @slice c c' tree target bias _ hrun ih =>
    obtain ⟨rfl, p, hat⟩ := ih
    rcases slice_safe target bias ht hheight hat with herr | ⟨c₁, tree₁, p', hrun', htree, hat', -⟩
    · exact absurd (hrun.symm.trans herr) (by simp)
    · obtain ⟨rfl, -⟩ : c₁ = c' ∧ tree₁ = tree := by
        simpa using Except.ok.inj (hrun'.symm.trans hrun)
      exact ⟨htree, p', hat'⟩
  | @summary c c' Output _ output target bias _ hrun ih =>
    obtain ⟨rfl, p, hat⟩ := ih
    -- What is summed up plays no part in where the cursor goes.
    simp only [Cursor.summary, bind_eq_ok] at hrun
    obtain ⟨⟨c₁, a, found⟩, hseek, hres⟩ := hrun
    obtain ⟨rfl, -⟩ : c₁ = c' ∧ a.summary = output := by simpa using hres
    have hforget := seekInternal_forget hseek
    rcases seekInternal_safe target bias collects_unit ht hheight hat trivial with
      herr | ⟨r, seg, p', hrun', hs⟩
    · exact absurd (hforget.symm.trans herr) (by simp)
    · obtain rfl := Except.ok.inj (hforget.symm.trans hrun')
      exact ⟨hs.tree, p', hs.at_⟩

end Cursor

end Zui
