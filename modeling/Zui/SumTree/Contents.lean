/-
A tree stands for the list of its items.

`representation_invariant` closes the account of what the interface builds: every
tree is valid, and every call within its room succeeds or is refused because it would
seek backward.  `tree_refines_list` says what the calls do to the items: they do to
the list of items what their names say.  Both need the room: a tree doubled often
enough is too deep for a cursor, and later too high for its height field
(`representation_limits`, `iteration_limit`).
-/
import Zui.SumTree.Reachable

namespace Zui

open SumTree

section Contents

variable {T S : Type} [Zero S] [Add S] [Item T S]

theorem doubled_reachable [LawfulSummary S] (x : T) {n : ℕ} (hn : n ≤ 255) {t : SumTree T S}
    (h : doubled x n = .ok t) : Reachable t := by
  induction n generalizing t with
  | zero =>
    have hnew : Reachable (new : SumTree T S) :=
      .call (c := .fromIter []) (by simp [Call.trees]) trivial (Nat.zero_le _) rfl
    refine .call (c := .push new x) (fun u hu => ?_) trivial (show (0 : ℕ) < 255 by omega) h
    obtain rfl := List.mem_singleton.mp hu
    exact hnew
  | succ n ih =>
    obtain ⟨u, hrun, hv, -, hheight⟩ := doubled_spec (S := S) x (show n ≤ 255 by omega)
    have hu := ih (by omega) hrun
    rw [doubled, hrun, ok_bind] at h
    refine .call (c := .append u u) (fun w hw => ?_) trivial ⟨by omega, by omega⟩ h
    obtain rfl : w = u := by simpa [Call.trees] using hw
    exact hu

variable [LawfulSummary S]

theorem pushAll_spec {n k : ℕ} (hnk : n + k < 255) : ∀ (xs : List T) {a : SumTree T S},
    Valid a → Tall n a → a.toList.length + xs.length < TREE_BASE ^ k →
    ∃ r, xs.foldlM pushItem a = .ok r ∧ r.toList = a.toList ++ xs := by
  intro xs
  induction xs with
  | nil =>
    intro a _ _ _
    exact ⟨a, rfl, by simp⟩
  | cons x xs ih =>
    intro a ha htall hlen
    rw [List.length_cons] at hlen
    have hheight := htall.height_le_add (k := k) ha (by omega)
    have hx := wf_item (S := S) x
    obtain ⟨a', hrun, hv, hitems, htall'⟩ := append_tall ha hx.valid htall (by omega)
      (Nat.zero_le n) (by omega)
    obtain ⟨r, hruns, hlist⟩ := ih hv htall' (by
      rw [hitems, List.length_append, toList_leaf, List.length_singleton]
      omega)
    refine ⟨r, ?_, by rw [hlist, hitems]; simp⟩
    rw [List.foldlM_cons, pushItem, hrun, ok_bind, hruns]

end Contents

/-- **The representation invariant.**  Every tree that calls make is valid, and a call
on such trees, within its room, makes another one or is refused with "cannot seek
backward": no fixed-capacity array overflows and no other panic is reached. -/
theorem representation_invariant {T S : Type} [Zero S] [Add S] [Item T S] [LawfulSummary S] :
    (∀ t : SumTree T S, Reachable t → Valid t) ∧
    ∀ c : Call T S, (∀ u ∈ c.trees, Reachable u) → c.CursorMoved → c.Fits →
      c.run = .error .seekBackward ∨ ∃ t, c.run = .ok t ∧ Reachable t := by
  refine ⟨fun t ht => ht.valid, fun c hc hcursor hfits => ?_⟩
  rcases c.run_spec (fun u hu => (hc u hu).valid) hcursor hfits with herr | ⟨t, hrun, -⟩
  · exact Or.inl herr
  · exact Or.inr ⟨t, hrun, .call hc hcursor hfits hrun⟩

/-- A tree of three levels. -/
theorem exists_ticks : ∃ a : SumTree Tick ℕ, fromIter (List.replicate 200 Tick.tick) = .ok a ∧
    a.height = 2 ∧ a.toList = List.replicate 200 Tick.tick ∧ Reachable a := by
  have hfits : (List.replicate 200 Tick.tick).length ≤ (2 * TREE_BASE) ^ 256 := by
    rw [List.length_replicate]
    exact (show 200 ≤ (2 * TREE_BASE) ^ 3 by decide).trans
      (Nat.pow_le_pow_right (by decide) (by omega))
  obtain ⟨a, hrun, -, hitems, -⟩ := fromIter_spec (S := ℕ) (Nat.le_refl 255) hfits
  have hheight : (fromIter (List.replicate 200 Tick.tick) : Result (SumTree Tick ℕ)).map height =
      .ok 2 := by decide +kernel
  rw [hrun] at hheight
  exact ⟨a, hrun, Except.ok.inj hheight, hitems,
    .call (c := .fromIter _) (by simp [Call.trees]) trivial hfits hrun⟩

/-- The theorem at a push to that tree. -/
theorem representation_invariant_push : ∃ a t : SumTree Tick ℕ,
    fromIter (List.replicate 200 Tick.tick) = .ok a ∧ a.height = 2 ∧
      (Call.push a Tick.tick).run = .ok t ∧ Valid t := by
  obtain ⟨a, ha, hheight, -, hreachable⟩ := exists_ticks
  obtain ⟨hvalid, hcall⟩ := representation_invariant (T := Tick) (S := ℕ)
  have hpush : ((fromIter (List.replicate 200 Tick.tick) : Result (SumTree Tick ℕ)) >>= fun a =>
      (Call.push a Tick.tick).run).map height = .ok 2 := by decide +kernel
  rw [ha, ok_bind] at hpush
  rcases hcall (.push a .tick) (by simpa [Call.trees] using hreachable) trivial
    (show a.height < 255 by omega) with herr | ⟨t, hrun, ht⟩
  · rw [herr] at hpush
    cases hpush
  · exact ⟨a, t, ha, hheight, hrun, hvalid t ht⟩

/-- Without a bound on the height, a slice overflows the stack of its cursor, and an
append overflows the height field. -/
theorem representation_limits :
    (∃ t : SumTree Tick ℕ, Reachable t ∧ Valid t ∧
      (Call.slice (Cursor.new t : Cursor Tick ℕ ℕ) (fun _ => .eq) .left).run = .error .capacity) ∧
    ∃ m, ∃ t : SumTree Tick ℕ, doubled .tick m = .ok t ∧ Valid t ∧
      (Call.append t t).run = .error .arithmeticOverflow := by
  constructor
  · obtain ⟨t, h, hrun, hw, hh, -⟩ := doubled_deep (S := ℕ) Tick.tick
    refine ⟨t, doubled_reachable _ (by omega) hrun, hw.valid, ?_⟩
    rw [Call.run, Cursor.slice, Cursor.seekInternal_deep hw hh rfl fun _ => rfl]
    rfl
  · exact doubled_overflows Tick.tick

/-- **The list of items.**  On trees that calls made, within their room, `append`,
`from_iter`, `from_par_iter`, `extend`, `par_extend` and `push` concatenate, the two
updates change one end, `first` and `last` return the ends, and iterating yields the
list. -/
theorem tree_refines_list {T S : Type} [Zero S] [Add S] [Item T S] [LawfulSummary S]
    {a b : SumTree T S} (ha : Reachable a) (hb : Reachable b) (xs : List T) (f : T → T) :
    (a.height < 255 → b.height < 255 →
      ∃ r, a.append b = .ok r ∧ r.toList = a.toList ++ b.toList) ∧
    (xs.length ≤ (2 * TREE_BASE) ^ 256 →
      (∃ r : SumTree T S, fromIter xs = .ok r ∧ r.toList = xs) ∧
      ∃ r : SumTree T S, fromParIter xs = .ok r ∧ r.toList = xs) ∧
    (a.height < 255 → xs.length ≤ (2 * TREE_BASE) ^ 255 →
      (∃ r, a.extendIter xs = .ok r ∧ r.toList = a.toList ++ xs) ∧
      ∃ r, a.parExtend xs = .ok r ∧ r.toList = a.toList ++ xs) ∧
    (∀ k, a.height + k < 255 → a.toList.length + xs.length < TREE_BASE ^ k →
      ∃ r, xs.foldlM pushItem a = .ok r ∧ r.toList = a.toList ++ xs) ∧
    (∃ r, a.updateFirst f = .ok r ∧ r.toList = a.toList.modifyHead f) ∧
    (∃ r, a.updateLast f = .ok r ∧ r.toList = a.toList.modifyLast f) ∧
    a.first = .ok a.toList.head? ∧ a.last = .ok a.toList.getLast? ∧
    (a.height ≤ 15 → collectIter Iter.next a (Iter.new a) = .ok a.toList ∧
      collectIter Cursor.iterNext a (Cursor.new a : Cursor T S Unit) = .ok a.toList ∧
      a.collectItems = .ok a.toList) := by
  have hva := ha.valid
  have hvb := hb.valid
  refine ⟨fun hah hbh => ?_, fun hxs => ⟨?_, ?_⟩, fun hah hxs => ⟨?_, ?_⟩, fun k hk hlen => ?_, ?_,
    ?_, first_spec hva, last_spec hva, fun hah => ⟨?_, ?_, ?_⟩⟩
  · obtain ⟨r, hrun, hj⟩ := append_spec (n := 254) hva hvb (Nat.le_of_lt_succ hah)
      (Nat.le_of_lt_succ hbh) (by omega)
    exact ⟨r, hrun, hj.items⟩
  · obtain ⟨r, hrun, -, hitems, -⟩ := fromIter_spec (S := S) (Nat.le_refl 255) hxs
    exact ⟨r, hrun, hitems⟩
  · obtain ⟨r, hrun, -, hitems, -⟩ := fromParIter_spec (S := S) (Nat.le_refl 255) hxs
    exact ⟨r, hrun, hitems⟩
  · obtain ⟨r, hrun, -, hitems⟩ := extendIter_spec hva hah hxs
    exact ⟨r, hrun, hitems⟩
  · obtain ⟨r, hrun, -, hitems⟩ := parExtend_spec hva hah hxs
    exact ⟨r, hrun, hitems⟩
  · exact pushAll_spec hk xs hva (Or.inl (Nat.le_refl _)) hlen
  · obtain ⟨r, hrun, -, hitems, -⟩ := updateFirst_spec f hva
    exact ⟨r, hrun, hitems⟩
  · obtain ⟨r, hrun, -, hitems, -⟩ := updateLast_spec f hva
    exact ⟨r, hrun, hitems⟩
  · exact Iter.collect_spec hva hah
  · exact Cursor.collect_new Cursor.tracks_anyhow hva hah
  · exact collectItems_spec hva hah

/-- The theorem at a tree of three levels and itself. -/
theorem tree_refines_list_ticks : ∃ a r : SumTree Tick ℕ, a.height = 2 ∧ a.append a = .ok r ∧
    r.toList = List.replicate 400 .tick ∧ collectIter Iter.next a (Iter.new a) =
      .ok (List.replicate 200 .tick) := by
  obtain ⟨a, -, hheight, hitems, ha⟩ := exists_ticks
  obtain ⟨happend, -, -, -, -, -, -, -, hiterate⟩ := tree_refines_list ha ha [] id
  obtain ⟨r, hr, hlist⟩ := happend (by omega) (by omega)
  refine ⟨a, r, hheight, hr, ?_, ?_⟩
  · rw [hlist, hitems, List.replicate_append_replicate]
  · rw [(hiterate (by omega)).1, hitems]

/-- On a tree that is too deep neither iterator returns its first item, and a tree of
the greatest height cannot always be appended to. -/
theorem iteration_limit :
    (∃ t : SumTree Tick ℕ, Reachable t ∧ t.toList ≠ [] ∧ (Iter.new t).next = .error .capacity ∧
      (Cursor.new t : Cursor Tick ℕ Unit).iterNext = .error .capacity) ∧
    ∃ m, ∃ t : SumTree Tick ℕ, doubled .tick m = .ok t ∧
      t.append t = .error .arithmeticOverflow := by
  constructor
  · obtain ⟨t, h, hrun, hw, hh, -⟩ := doubled_deep (S := ℕ) Tick.tick
    refine ⟨t, doubled_reachable _ (by omega) hrun, hw.toList_ne_nil, Iter.next_deep hw hh, ?_⟩
    rw [Cursor.iterNext, Cursor.startIter, if_neg (by simp [Cursor.new]), Cursor.next_deep hw hh]
    rfl
  · obtain ⟨m, t, hrun, -, herr⟩ := doubled_overflows (S := ℕ) Tick.tick
    exact ⟨m, t, hrun, herr⟩

end Zui
