/-
How tall a tree gets when many trees are appended to it.

One `append` may add a level, so a bound on the number of appends is no useful
bound on the height.  But the nodes above the height `n` of the appended trees
come from splits, and both halves of a split have at least `TREE_BASE` children:
above height `n` every node but the root has `TREE_BASE` children (`Tall`).  So
the height stays logarithmic in the number of items, and far below the greatest
`u8` for a tree that holds at most `maxItems` items.

* `append_keeps_tall` — `append` keeps `Tall`, of trees of any heights;
* `append_tall` — it succeeds below the greatest height;
* `Tall.height_le` — the height of a tall tree with at most `maxItems` items.
-/
import Zui.SumTree.Build

namespace Zui

namespace SumTree

variable {T S : Type}

/-- Every node above height `n` has at least `TREE_BASE` children. -/
inductive Thick (n : ℕ) : SumTree T S → Prop
  | low {t : SumTree T S} : t.height ≤ n → Thick n t
  | node {h : ℕ} {s : S} {ss : List S} {ts : List (SumTree T S)} : TREE_BASE ≤ ts.length →
      (∀ t ∈ ts, Thick n t) → Thick n (internal h s ss ts)

/-- An internal node with at least `m` children, all of them thick. -/
def Rooted (m n : ℕ) (t : SumTree T S) : Prop :=
  ∃ h s ss ts, t = internal h s ss ts ∧ m ≤ ts.length ∧ ∀ t ∈ ts, Thick n t

/-- Every node above height `n`, except for the root, has at least `TREE_BASE`
children. -/
def Tall (n : ℕ) (t : SumTree T S) : Prop := t.height ≤ n ∨ Rooted 0 n t

/-- What a node with at least `m` children becomes when its children are replaced
or split: a node with at least `m` children, or two thick nodes. -/
structure Grown (m n : ℕ) (r : SumTree T S × Option (SumTree T S)) : Prop where
  node : Rooted m n r.1
  split : ∀ t ∈ r.2, Thick n r.1 ∧ Thick n t

theorem Thick.tall {n : ℕ} {t : SumTree T S} (ht : Thick n t) : Tall n t := by
  cases ht with
  | low hle => exact Or.inl hle
  | node _ hts => exact Or.inr ⟨_, _, _, _, rfl, Nat.zero_le _, hts⟩

theorem Tall.thick {n : ℕ} {t : SumTree T S} (ht : Tall n t) (hfull : t.isUnderflowing = false) :
    Thick n t := by
  rcases ht with hle | ⟨h, s, ss, ts, rfl, -, hts⟩
  · exact .low hle
  · exact .node (by simpa [isUnderflowing] using hfull) hts

theorem Rooted.thick {n : ℕ} {t : SumTree T S} (h : Rooted TREE_BASE n t) : Thick n t := by
  obtain ⟨h, s, ss, ts, rfl, hlen, hts⟩ := h
  exact .node hlen hts

theorem Grown.tall {m n : ℕ} {r : SumTree T S × Option (SumTree T S)} (h : Grown m n r) :
    Tall n r.1 := by
  obtain ⟨k, s, ss, ts, heq, -, hts⟩ := h.node
  exact Or.inr ⟨k, s, ss, ts, heq, Nat.zero_le _, hts⟩

theorem Thick.rooted {n : ℕ} {t : SumTree T S} (ht : Thick n t) (hn : n < t.height) :
    Rooted TREE_BASE n t := by
  cases ht with
  | low hle => exact absurd hle (Nat.not_le_of_lt hn)
  | node hlen hts => exact ⟨_, _, _, _, rfl, hlen, hts⟩

theorem le_length_listItems {k : ℕ} : ∀ {ts : List (SumTree T S)},
    (∀ t ∈ ts, k ≤ t.toList.length) → ts.length * k ≤ (listItems ts).length := by
  intro ts
  induction ts with
  | nil =>
    intro _
    simp
  | cons t ts ih =>
    intro hts
    have ht : k ≤ t.toList.length := hts t (by simp)
    have hrest := ih fun u hu => hts u (by simp [hu])
    rw [listItems_cons, List.length_append, List.length_cons, Nat.succ_mul]
    omega

section Push

variable [Zero S] [Add S] [Item T S]

omit [Item T S] in
/-- The two halves of a node that is split are thick. -/
theorem appendChildren_grown {m n height : ℕ} {s : S} {ss ss' : List S}
    {ts us : List (SumTree T S)} {r : SumTree T S × Option (SumTree T S)} (hm : m ≤ TREE_BASE)
    (hts : ∀ t ∈ ts ++ us, Thick n t) (hlen : m ≤ ts.length)
    (h : appendChildren height s ss ts ss' us = .ok r) : Grown m n r := by
  rw [appendChildren] at h
  by_cases hbig : ts.length + us.length > 2 * TREE_BASE
  · rw [if_pos hbig] at h
    simp only [collectHalves, bind_eq_ok, Except.ok.injEq] at h
    obtain ⟨_, -, ⟨left, right⟩, ⟨_, hl, _, hr, hlr⟩, rfl⟩ := h
    obtain ⟨rfl, rfl⟩ := Prod.mk.inj hlr
    rw [collect] at hl hr
    split at hl <;> cases hl
    split at hr <;> cases hr
    have hleft : ∀ m, ∀ t ∈ (ts ++ us).take m, Thick n t :=
      fun _ t ht => hts t (List.mem_of_mem_take ht)
    have hright : ∀ m, ∀ t ∈ (ts ++ us).drop m, Thick n t :=
      fun _ t ht => hts t (List.mem_of_mem_drop ht)
    have hmid : TREE_BASE ≤ (ts.length + us.length + (ts.length + us.length) % 2) / 2 ∧
        TREE_BASE ≤ ts.length + us.length
          - (ts.length + us.length + (ts.length + us.length) % 2) / 2 := by
      simp only [TREE_BASE] at hbig ⊢
      omega
    refine ⟨⟨_, _, _, _, rfl, ?_, hleft _⟩, ?_⟩
    · rw [List.length_take, List.length_append]
      omega
    · rintro t ⟨⟩
      constructor
      · refine .node ?_ (hleft _)
        rw [List.length_take, List.length_append]
        omega
      · refine .node ?_ (hright _)
        rw [List.length_drop, List.length_append]
        exact hmid.2
  · rw [if_neg hbig] at h
    simp only [extend, bind_eq_ok, Except.ok.injEq] at h
    obtain ⟨_, -, _, hc, rfl⟩ := h
    rw [collect] at hc
    split at hc <;> cases hc
    refine ⟨⟨_, _, _, _, rfl, ?_, hts⟩, by simp⟩
    rw [List.length_append]
    omega

variable [LawfulSummary S]

/-- Pushing a tall tree keeps the nodes above height `n` thick. -/
theorem pushTreeRecursive_grown {n k : ℕ} {other : SumTree T S} (ho : WF k other)
    (htall : Tall n other) :
    ∀ {h m : ℕ} {t : SumTree T S} {r : SumTree T S × Option (SumTree T S)}, WF h t → n < h →
      k ≤ h → m ≤ TREE_BASE → Rooted m n t → pushTreeRecursive t other = .ok r → Grown m n r := by
  intro h
  induction h with
  | zero =>
    intro m t r _ hn
    exact absurd hn (Nat.not_lt_zero n)
  | succ h ih =>
    intro m t r ht hn hk hm hroot hrun
    obtain ⟨ts, hne, hlen, hts, rfl⟩ := ht.eq_internal
    obtain ⟨_, _, _, _, heq, hmts, hthick⟩ := hroot
    obtain ⟨rfl, rfl, rfl, rfl⟩ := internal.inj heq
    rw [pushTreeRecursive, ho.height_eq, checkedSub_ok hk, ok_bind] at hrun
    by_cases hdelta : h + 1 - k = 0
    · -- Nodes of one height: the children are put side by side.
      obtain rfl : k = h + 1 := by omega
      obtain ⟨us, -, -, -, rfl⟩ := ho.eq_internal
      obtain ⟨_, _, _, _, heq', -, hus⟩ := htall.resolve_left (by simpa using hn)
      obtain ⟨rfl, rfl, rfl, rfl⟩ := internal.inj heq'
      rw [if_pos hdelta, childTrees_internal, ok_bind] at hrun
      refine appendChildren_grown hm (fun u hu => ?_) hmts hrun
      rcases List.mem_append.mp hu with hu | hu
      · exact hthick u hu
      · exact hus u hu
    rw [if_neg hdelta] at hrun
    by_cases hchild : h + 1 - k = 1 ∧ other.isUnderflowing = false
    · rw [if_pos hchild] at hrun
      refine appendChildren_grown hm (fun u hu => ?_) hmts hrun
      rcases List.mem_append.mp hu with hu | hu
      · exact hthick u hu
      · rw [List.mem_singleton.mp hu]
        exact htall.thick hchild.2
    · rw [if_neg hchild] at hrun
      obtain ⟨init, last, rfl⟩ := List.eq_nil_or_concat ts |>.resolve_left hne
      rw [List.concat_eq_append] at *
      have hlast : WF h last := hts last (by simp)
      obtain ⟨⟨last', split⟩, hpush, hpushed⟩ := pushTreeRecursive_spec ho hlast (by omega)
      -- The last child and its split stay thick: by induction above height `n`, and
      -- because every node of height `n` is.
      have hres : Thick n last' ∧ ∀ t ∈ split, Thick n t := by
        by_cases hlow : h ≤ n
        · refine ⟨.low ?_, fun t ht => .low ?_⟩
          · rw [hpushed.node.height_eq]
            exact hlow
          · rw [(hpushed.split t ht).height_eq]
            exact hlow
        · have hrooted : Rooted TREE_BASE n last :=
            (hthick last (by simp)).rooted (by rw [hlast.height_eq]; omega)
          have hgrown := ih hlast (Nat.lt_of_not_le hlow) (by omega) (Nat.le_refl _) hrooted hpush
          exact ⟨hgrown.node.thick, fun t ht => (hgrown.split t ht).2⟩
      have hts' : ∀ t ∈ init ++ [last'], Thick n t := by
        intro t ht
        rcases List.mem_append.mp ht with ht | ht
        · exact hthick t (by simp [ht])
        · rw [List.mem_singleton.mp ht]
          exact hres.1
      have hm' : m ≤ (init ++ [last']).length := by simpa using hmts
      rw [pushTreeToLast_concat, hpush, ok_bind, ok_bind] at hrun
      simp only [List.getLast?_concat, unwrap, ok_bind] at hrun
      rw [List.map_append, List.map_singleton, setLast_concat, ok_bind] at hrun
      cases split with
      | none => exact appendChildren_grown hm (by simpa using hts') hm' hrun
      | some split =>
        refine appendChildren_grown hm (fun t ht => ?_) hm' hrun
        rcases List.mem_append.mp ht with ht | ht
        · exact hts' t ht
        · rw [List.mem_singleton.mp ht]
          exact hres.2 split rfl

omit [LawfulSummary S] in
/-- `mergeIntoRight`, for two nodes above height `n`. -/
theorem mergeIntoRight_grown {n h : ℕ} {small large : SumTree T S}
    {r : SumTree T S × Option (SumTree T S)} (hs : WF h small) (hl : WF h large) (hn : n < h)
    (hsmall : Tall n small) (hlarge : Rooted TREE_BASE n large)
    (hrun : mergeIntoRight small large = .ok r) : Grown TREE_BASE n r := by
  obtain ⟨h, rfl⟩ := Nat.exists_eq_succ_of_ne_zero (Nat.ne_of_gt (Nat.zero_lt_of_lt hn))
  obtain ⟨ts, hne, htl, -, rfl⟩ := hs.eq_internal
  obtain ⟨us, hune, hul, -, rfl⟩ := hl.eq_internal
  obtain ⟨_, _, _, _, heq, -, hts⟩ := hsmall.resolve_left (by simpa using hn)
  obtain ⟨rfl, rfl, rfl, rfl⟩ := internal.inj heq
  obtain ⟨_, _, _, _, heq', hbase, hus⟩ := hlarge
  obtain ⟨rfl, rfl, rfl, rfl⟩ := internal.inj heq'
  have hall : ∀ t ∈ ts ++ us, Thick n t := by
    intro t ht
    rcases List.mem_append.mp ht with ht | ht
    · exact hts t ht
    · exact hus t ht
  rw [mergeIntoRight] at hrun
  by_cases hfit : us.length + ts.length ≤ 2 * TREE_BASE
  · rw [if_pos hfit, extend_ok (by omega), ok_bind, extend_ok (by simp; omega), ok_bind] at hrun
    cases hrun
    refine ⟨⟨_, _, _, _, rfl, ?_, hall⟩, by simp⟩
    rw [List.length_append]
    omega
  · have hmid : TREE_BASE ≤ (us.length + ts.length + 1) / 2 ∧
        TREE_BASE ≤ us.length + ts.length - (us.length + ts.length + 1) / 2 ∧
        (us.length + ts.length + 1) / 2 ≤ 2 * TREE_BASE ∧
        us.length + ts.length - (us.length + ts.length + 1) / 2 ≤ 2 * TREE_BASE := by
      simp only [TREE_BASE] at hfit htl hul ⊢
      omega
    obtain ⟨hleft, hright, hleft', hright'⟩ := hmid
    have htrees : (ts ++ us).length - (us.length + ts.length + 1) / 2 ≤ 2 * TREE_BASE := by
      rwa [List.length_append, Nat.add_comm ts.length]
    have hsums : (ts.map summary ++ us.map summary).length - (us.length + ts.length + 1) / 2
        ≤ 2 * TREE_BASE := by
      rwa [← List.map_append, List.length_map]
    rw [if_neg hfit] at hrun
    simp only [collectHalves_ok hleft' htrees, collectHalves_ok hleft' hsums, ok_bind] at hrun
    cases hrun
    have hnode : Rooted TREE_BASE n (internal (h + 1)
        (sum ((ts.map summary ++ us.map summary).drop ((us.length + ts.length + 1) / 2)))
        ((ts.map summary ++ us.map summary).drop ((us.length + ts.length + 1) / 2))
        ((ts ++ us).drop ((us.length + ts.length + 1) / 2))) := by
      refine ⟨_, _, _, _, rfl, ?_, fun t ht => hall t (List.mem_of_mem_drop ht)⟩
      rw [List.length_drop, List.length_append]
      omega
    refine ⟨hnode, ?_⟩
    rintro t ⟨⟩
    refine ⟨hnode.thick, .node ?_ fun t ht => hall t (List.mem_of_mem_take ht)⟩
    rw [List.length_take, List.length_append]
    omega

omit [LawfulSummary S] [Item T S] in
/-- `prependChild`, of a thick node. -/
theorem prependChild_grown {m n height : ℕ} {s : S} {ss : List S} {ts : List (SumTree T S)}
    {t : SumTree T S} {r : SumTree T S × Option (SumTree T S)} (hm : m ≤ TREE_BASE)
    (ht : Thick n t) (hts : ∀ u ∈ ts, Thick n u) (hlen : m ≤ ts.length)
    (hrun : prependChild height s ss ts t = .ok r) : Grown m n r := by
  rw [prependChild] at hrun
  by_cases hroom : ts.length < 2 * TREE_BASE
  · rw [if_pos hroom, insertFront_ok hroom] at hrun
    simp only [bind_eq_ok, Except.ok.injEq] at hrun
    obtain ⟨_, -, _, rfl, rfl⟩ := hrun
    refine ⟨⟨_, _, _, _, rfl, ?_, ?_⟩, by simp⟩
    · rw [List.length_cons]
      omega
    · intro u hu
      rcases List.mem_cons.mp hu with rfl | hu
      · exact ht
      · exact hts u hu
  · have hbase : TREE_BASE ≤ ts.length := by simp only [TREE_BASE] at hroom ⊢; omega
    rw [if_neg hroom] at hrun
    simp only [sliceTo, if_pos hbase, bind_eq_ok, Except.ok.injEq] at hrun
    obtain ⟨_, -, _, -, _, rfl, _, hextend, rfl⟩ := hrun
    rw [extend_ok (by simp [TREE_BASE]; omega), Except.ok.injEq] at hextend
    subst hextend
    have hright : TREE_BASE ≤ (ts.drop TREE_BASE).length := by
      rw [List.length_drop]
      simp only [TREE_BASE] at hroom ⊢
      omega
    have hnode := fun u hu => hts u (List.mem_of_mem_drop (i := TREE_BASE) hu)
    refine ⟨⟨_, _, _, _, rfl, hm.trans hright, hnode⟩, ?_⟩
    rintro u ⟨⟩
    refine ⟨.node hright hnode, .node ?_ fun u hu => ?_⟩
    · simp only [List.length_append, List.length_singleton, List.length_take]
      omega
    · rcases List.mem_cons.mp hu with rfl | hu
      · exact ht
      · exact hts u (List.mem_of_mem_take hu)

/-- Pushing a tall tree from the left keeps the nodes above height `n` thick. -/
theorem appendLarge_grown {n k : ℕ} {small : SumTree T S} (hs : WF k small)
    (htall : Tall n small) :
    ∀ {h m : ℕ} {large : SumTree T S} {r : SumTree T S × Option (SumTree T S)}, WF h large →
      n < h → k < h ∨ k = h ∧ m = TREE_BASE → m ≤ TREE_BASE → Rooted m n large →
      appendLarge small large = .ok r → Grown m n r := by
  intro h
  induction h with
  | zero =>
    intro m large r _ hn
    exact absurd hn (Nat.not_lt_zero n)
  | succ h ih =>
    intro m large r hl hn hk hm hroot hrun
    have hl' := hl
    have hroot' := hroot
    obtain ⟨ts, hne, hlen, hts, rfl⟩ := hl.eq_internal
    obtain ⟨_, _, _, _, heq, hmts, hthick⟩ := hroot
    obtain ⟨rfl, rfl, rfl, rfl⟩ := internal.inj heq
    obtain ⟨first, rest, rfl⟩ := List.exists_cons_of_ne_nil hne
    rw [List.map_cons, appendLarge, hs.height_eq] at hrun
    by_cases hsame : k = h + 1
    · subst hsame
      obtain rfl : m = TREE_BASE := by omega
      rw [if_pos rfl, appendLevel] at hrun
      by_cases hfull : small.isUnderflowing = false
      · rw [if_pos hfull] at hrun
        cases hrun
        refine ⟨hroot', ?_⟩
        rintro t ⟨⟩
        exact ⟨hroot'.thick, htall.thick hfull⟩
      · rw [if_neg hfull] at hrun
        exact mergeIntoRight_grown hs hl' hn htall hroot' hrun
    · rw [if_neg hsame] at hrun
      have hfirst : WF h first := hts first (by simp)
      obtain ⟨⟨first', res⟩, hpush, hpushed⟩ := appendLarge_spec hs hfirst (by omega)
      -- The first child and its split stay thick, as in `pushTreeRecursive_grown`.
      have hres : Thick n first' ∧ ∀ t ∈ res, Thick n t := by
        by_cases hlow : h ≤ n
        · refine ⟨.low ?_, fun t ht => .low ?_⟩
          · rw [hpushed.node.height_eq]
            exact hlow
          · rw [(hpushed.split t ht).height_eq]
            exact hlow
        · have hrooted : Rooted TREE_BASE n first :=
            (hthick first (by simp)).rooted (by rw [hfirst.height_eq]; omega)
          have hgrown := ih hfirst (Nat.lt_of_not_le hlow) (by omega) (Nat.le_refl _) hrooted hpush
          exact ⟨hgrown.node.thick, fun t ht => (hgrown.split t ht).2⟩
      have hts' : ∀ t ∈ first' :: rest, Thick n t := by
        intro t ht
        rcases List.mem_cons.mp ht with rfl | ht
        · exact hres.1
        · exact hthick t (by simp [ht])
      have hm' : m ≤ (first' :: rest).length := by simpa using hmts
      rw [hpush, ok_bind] at hrun
      simp only [setFirst_cons, ok_bind] at hrun
      cases res with
      | none =>
        cases hrun
        exact ⟨⟨_, _, _, _, rfl, hm', hts'⟩, by simp⟩
      | some tree => exact prependChild_grown hm (hres.2 tree rfl) hts' hm' hrun

omit [LawfulSummary S] [Item T S] in
theorem fromChildTrees_tall {n : ℕ} {left right r : SumTree T S} (hl : Thick n left)
    (hr : Thick n right) (hrun : fromChildTrees left right = .ok r) : Tall n r := by
  simp only [fromChildTrees, push, bind_eq_ok, Except.ok.injEq] at hrun
  obtain ⟨height, -, _, -, _, -, _, hone, _, htwo, rfl⟩ := hrun
  rw [List.nil_append, collect_ok (by simp [TREE_BASE]), Except.ok.injEq] at hone
  subst hone
  rw [List.singleton_append, collect_ok (by simp [TREE_BASE]), Except.ok.injEq] at htwo
  subst htwo
  refine Or.inr ⟨_, _, _, _, rfl, Nat.zero_le _, fun t ht => ?_⟩
  rcases List.mem_pair.mp ht with rfl | rfl
  · exact hl
  · exact hr

/-- Appending a tall tree to a tall tree. -/
theorem append_keeps_tall {n : ℕ} {a b r : SumTree T S} (ha : Valid a) (hb : Valid b)
    (hta : Tall n a) (htb : Tall n b) (hrun : append a b = .ok r) : Tall n r := by
  rw [append, ha.isEmpty_eq, hb.isEmpty_eq] at hrun
  rcases ha with rfl | ⟨h, hwa⟩
  · rw [if_pos (by simp)] at hrun
    cases hrun
    exact htb
  rcases hb with rfl | ⟨k, hwb⟩
  · rw [if_neg (by simpa using hwa.toList_ne_nil), if_pos (by simp)] at hrun
    cases hrun
    exact hta
  rw [if_neg (by simpa using hwa.toList_ne_nil), if_neg (by simpa using hwb.toList_ne_nil),
    hwa.height_eq, hwb.height_eq] at hrun
  by_cases hlt : h < k
  · -- the lower tree goes into the left edge of the other one
    rw [if_pos hlt] at hrun
    obtain ⟨⟨other, tree⟩, hpush, hpushed⟩ := appendLarge_spec hwa hwb (Nat.le_of_lt hlt)
    rw [hpush, ok_bind] at hrun
    by_cases hlow : k ≤ n
    · -- trees of at most `n` levels have nothing to keep
      have hother : other.height ≤ n := by rwa [hpushed.node.height_eq]
      cases tree with
      | none =>
        cases hrun
        exact Or.inl hother
      | some tree =>
        have htree : tree.height ≤ n := by rwa [(hpushed.split tree rfl).height_eq]
        exact fromChildTrees_tall (.low htree) (.low hother) hrun
    · have hgrown := appendLarge_grown hwa hta hwb (Nat.lt_of_not_le hlow) (.inl hlt)
        (Nat.zero_le _) (htb.resolve_left (by rwa [hwb.height_eq])) hpush
      cases tree with
      | none =>
        cases hrun
        exact hgrown.tall
      | some tree =>
        obtain ⟨hother, htree⟩ := hgrown.split tree rfl
        exact fromChildTrees_tall htree hother hrun
  · -- the right edge of the higher tree takes the other one
    rw [if_neg hlt] at hrun
    obtain ⟨⟨self, split⟩, hpush, hpushed⟩ := pushTreeRecursive_spec hwb hwa (Nat.le_of_not_lt hlt)
    rw [hpush, ok_bind] at hrun
    by_cases hlow : h ≤ n
    · have hself : self.height ≤ n := by rwa [hpushed.node.height_eq]
      cases split with
      | none =>
        cases hrun
        exact Or.inl hself
      | some split =>
        have hsplit : split.height ≤ n := by rwa [(hpushed.split split rfl).height_eq]
        exact fromChildTrees_tall (.low hself) (.low hsplit) hrun
    · have hgrown := pushTreeRecursive_grown hwb htb hwa (Nat.lt_of_not_le hlow)
        (Nat.le_of_not_lt hlt) (Nat.zero_le _) (hta.resolve_left (by rwa [hwa.height_eq])) hpush
      cases split with
      | none =>
        cases hrun
        exact hgrown.tall
      | some split =>
        obtain ⟨hself, hsplit⟩ := hgrown.split split rfl
        exact fromChildTrees_tall hself hsplit hrun

/-- Appending a tree of height at most `n` to a tall tree. -/
theorem append_tall {n : ℕ} {a b : SumTree T S} (ha : Valid a) (hb : Valid b) (htall : Tall n a)
    (han : a.height < 255) (hbn : b.height ≤ n) (hn : n < 255) :
    ∃ r, append a b = .ok r ∧ Valid r ∧ r.toList = a.toList ++ b.toList ∧ Tall n r := by
  obtain ⟨r, hrun, hr⟩ := append_spec ha hb (le_max_left a.height n) (hbn.trans (le_max_right _ _))
    (max_lt han hn)
  exact ⟨r, hrun, hr.valid, hr.items, append_keeps_tall ha hb htall (Or.inl hbn) hrun⟩

/-! ### Height and number of items -/

omit [LawfulSummary S]

/-- A thick node of height `h` has at least `TREE_BASE ^ (h - n)` items. -/
theorem Thick.pow_le {n h : ℕ} {t : SumTree T S} (hw : WF h t) :
    Thick n t → TREE_BASE ^ (h - n) ≤ t.toList.length := by
  induction hw with
  | @leaf xs hne hlen =>
    intro _
    rw [Nat.zero_sub, Nat.pow_zero]
    simpa [Nat.one_le_iff_ne_zero] using hne
  | @internal h ts hne hlen hts ih =>
    intro ht
    by_cases hle : h + 1 ≤ n
    · rw [Nat.sub_eq_zero_of_le hle, Nat.pow_zero]
      exact List.length_pos_iff.mpr (WF.internal hne hlen hts).toList_ne_nil
    · obtain ⟨_, _, _, _, heq, hbase, hthick⟩ := ht.rooted (Nat.lt_of_not_le hle)
      obtain ⟨rfl, rfl, rfl, rfl⟩ := internal.inj heq
      have hitems := le_length_listItems fun t ht => ih t ht (hthick t ht)
      rw [Nat.succ_sub (by omega), Nat.pow_succ', toList_internal]
      exact Nat.le_trans (Nat.mul_le_mul_right _ hbase) hitems

theorem Valid.length_toList_le {t : SumTree T S} (ht : Valid t) (hheight : t.height ≤ 15) :
    t.toList.length ≤ maxItems := by
  rcases ht with rfl | ⟨h, hw⟩
  · simp
  · rw [hw.height_eq] at hheight
    exact Nat.le_trans hw.length_toList_le
      (Nat.pow_le_pow_right (by simp [TREE_BASE]) (by omega))

/-- The height of a tall tree is bounded by the number of its items. -/
theorem Tall.height_le_add {n k : ℕ} {t : SumTree T S} (ht : Valid t) (htall : Tall n t)
    (hlen : t.toList.length < TREE_BASE ^ k) : t.height ≤ n + k := by
  rcases htall with hle | ⟨_, s, ss, ts, rfl, -, hthick⟩
  · omega
  rcases ht with hnew | ⟨h, hw⟩
  · exact absurd hnew (by simp [new])
  cases hw with
  | @internal h ts hne hts hwf =>
    obtain ⟨c, cs, rfl⟩ := List.exists_cons_of_ne_nil hne
    have hc := (hthick c (by simp)).pow_le (hwf c (by simp))
    have hpow : TREE_BASE ^ (h - n) < TREE_BASE ^ k := by
      simp only [toList_internal, listItems_cons, List.length_append] at hlen
      omega
    have hlt : h - n < k := (Nat.pow_lt_pow_iff_right (by simp [TREE_BASE])).mp hpow
    rw [height_internal]
    omega

/-- The height of a tall tree that does not hold many more than `maxItems` items. -/
theorem Tall.height_le {n : ℕ} {t : SumTree T S} (ht : Valid t) (htall : Tall n t)
    (hlen : t.toList.length ≤ 4 * maxItems) : t.height ≤ n + 24 := by
  have hmax : 4 * maxItems < TREE_BASE ^ 24 := by decide
  exact htall.height_le_add ht (Nat.lt_of_le_of_lt hlen hmax)

end Push

end SumTree

end Zui
