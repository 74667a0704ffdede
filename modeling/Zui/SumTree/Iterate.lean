/-
Iterating over a tree.

An `Iter` is a cursor without positions, and a cursor is an iterator itself.  Both
yield the items of the tree in order, once each.

* `Iter.next_spec` — one call of `Iter::next`;
* `collectIter_iter` — the items that an `Iter` yields;
* `next_spec`, `iterNext_spec` — one step of a cursor;
* `collectIter_cursor`, `forEach_spec` — the items from the place of a cursor on.
-/
import Zui.SumTree.Search

namespace Zui

open SumTree Cursor

namespace SumTree

variable {T S : Type}

mutual

theorem length_toList_lt_weight : ∀ t : SumTree T S, t.toList.length < t.weight
  | internal _ _ _ childTrees => by
    have := length_listItems_le_weights childTrees
    rw [toList_internal, weight]
    omega
  | leaf _ _ _ => by
    rw [toList_leaf, weight]
    omega

theorem length_listItems_le_weights : ∀ ts : List (SumTree T S), (listItems ts).length ≤ weights ts
  | [] => by simp
  | t :: ts => by
    have ht := length_toList_lt_weight t
    have hts := length_listItems_le_weights ts
    rw [listItems_cons, List.length_append, weights]
    omega

end

end SumTree

/-! ### `Iter` -/

namespace Iter

variable {T S : Type} [Zero S] [Add S] [Item T S] {root : SumTree T S}

/-- What the loop of `Iter::next` keeps: it is between the items `done` and `todo`. -/
def Searching (root : SumTree T S) (done todo : List T)
    (s : List (StackEntry T S Unit) × Bool) : Prop :=
  (s.2 = true ∧ Frontier Anyhow root s.1 done todo) ∨
  (s.2 = false ∧ Returned Anyhow root s.1 done todo)

/-- How the loop of `Iter::next` ends behind the items `done`. -/
def Found (root : SumTree T S) (done : List T) (r : List (StackEntry T S Unit) × Option T) : Prop :=
  (r.1 = [] ∧ r.2 = none ∧ root.toList = done) ∨
  ∃ x todo, r.2 = some x ∧ OnItem Anyhow root r.1 done x todo

/-- The passes that are left. -/
def measure (s : List (StackEntry T S Unit) × Bool) : ℕ :=
  if s.2 then aheadOfTop s.1 else ahead s.1

/-- What a pass makes of a state. -/
def Step (root : SumTree T S) (done : List T) (n : ℕ) (s : List (StackEntry T S Unit) × Bool) :
    Prop :=
  (∃ s', nextPass s = .ok (.next s') ∧ (∃ todo, Searching root done todo s') ∧ measure s' < n) ∨
  (∃ r, nextPass s = .ok (.done r) ∧ Found root done r)

/-- A pass that starts between two children or items. -/
theorem nextPass_frontier (hr : Valid root) (hheight : root.height ≤ 15) {done todo : List T}
    {stack : List (StackEntry T S Unit)} (hf : Frontier Anyhow root stack done todo) :
    Step root done (aheadOfTop stack) (stack, true) := by
  cases hf with
  | @internal rest h s ss l r pre post p hpath hentry =>
    left
    have hlen := (hpath.valid hr).2
    have hch := (hpath.valid hr).1.children
    have hpos := hch.height_pos
    rw [height_internal] at hlen
    cases r with
    | nil =>
      -- No child is left: the node is left, too.
      refine ⟨(rest, false), by simp [nextPass], ⟨post, Or.inr ⟨rfl, ?_⟩⟩, ?_⟩
      · simpa using hpath.returned
      · have := remaining_pos (.internal h s ss (l ++ [])) l.length
        simp only [measure, Bool.false_eq_true, if_false, aheadOfTop]
        omega
    | cons c r =>
      have hpush : pushEntry (⟨.internal h s ss (l ++ c :: r), l.length, p⟩ :: rest) ⟨c, 0, ()⟩
          = .ok (⟨c, 0, ()⟩ :: ⟨.internal h s ss (l ++ c :: r), l.length, p⟩ :: rest) :=
        pushEntry_ok (by rw [List.length_cons]; omega)
      refine ⟨(⟨c, 0, ()⟩ :: ⟨.internal h s ss (l ++ c :: r), l.length, p⟩ :: rest, true),
        by simp [nextPass, hpush], ⟨c.toList ++ (listItems r ++ post),
          Or.inl ⟨rfl, ?_⟩⟩, ?_⟩
      · exact (hpath.down hentry).frontier hentry
      · have hlt : aheadOfTop (⟨c, 0, ()⟩ ::
            ⟨.internal h s ss (l ++ ([] ++ c :: r)), l.length + ([] : List (SumTree T S)).length, p⟩
              :: rest) < aheadOfTop (⟨.internal h s ss (l ++ ([] ++ c :: r)), l.length,
                p⟩ :: rest) :=
          aheadOfTop_push rest
        simpa [measure] using hlt
  | @leaf rest s ss l r pre post p hpath =>
    cases r with
    | nil =>
      left
      refine ⟨(rest, false), by simp [nextPass], ⟨post, Or.inr ⟨rfl, ?_⟩⟩, ?_⟩
      · simpa using hpath.returned
      · simp [measure, aheadOfTop, remaining]
    | cons x r =>
      right
      exact ⟨(_, some x), by simp [nextPass]; rfl, Or.inr ⟨x, r ++ post, rfl, .leaf hpath⟩⟩

theorem nextPass_spec (hr : Valid root) (hheight : root.height ≤ 15) {done : List T}
    (s : List (StackEntry T S Unit) × Bool) (hs : ∃ todo, Searching root done todo s) :
    Step root done (measure s) s := by
  obtain ⟨stack, descend⟩ := s
  obtain ⟨todo, ⟨hdesc, hf⟩ | ⟨hdesc, hret⟩⟩ := hs
  · simp only at hdesc hf
    subst hdesc
    exact nextPass_frontier hr hheight hf
  · simp only at hdesc hret
    subst hdesc
    cases hret with
    | root => exact Or.inr ⟨_, rfl, Or.inl ⟨rfl, rfl, rfl⟩⟩
    | @child rest h s ss l r c pre post p hpath =>
      exact nextPass_frontier hr hheight ((Returned.child (p := p) hpath).frontier trivial)

/-- Where an iterator is that has yielded the items `done`. -/
def At (iter : Iter T S) (done : List T) : Prop :=
  (iter.stack = [] ∧ done = []) ∨
  ∃ pre x todo, done = pre ++ [x] ∧ OnItem Anyhow iter.tree iter.stack pre x todo

/-- What `Iter::next` does behind the items `done`: it yields the next item, or `None`
when there is none. -/
def Yields (iter : Iter T S) (done : List T) : Prop :=
  (∃ iter', iter.next = .ok (iter', none) ∧ iter.tree.toList = done) ∨
  ∃ iter' x todo, iter.next = .ok (iter', some x) ∧ iter'.tree = iter.tree ∧
    iter.tree.toList = done ++ x :: todo ∧ iter'.At (done ++ [x])

theorem yields_of_start {iter : Iter T S} (hr : Valid iter.tree) (hheight : iter.tree.height ≤ 15)
    {done todo : List T} {stack stack' : List (StackEntry T S Unit)} {descend : Bool}
    (hstart : iter.start = .ok (stack, descend)) (hf : Frontier Anyhow iter.tree stack' done todo)
    (hpass : nextPass (stack, descend) = nextPass (stack', true))
    (hfuel : stackFuel stack = stackFuel stack') : iter.Yields done := by
  obtain ⟨⟨stack₁, item⟩, hloop, hfound⟩ : ∃ r, loop .outOfFuel nextPass (stackFuel stack')
      (stack', true) = .ok r ∧ Found iter.tree done r :=
    loop_spec (fun s => ∃ todo, Searching iter.tree done todo s) measure _
      (nextPass_spec hr hheight) ⟨todo, Or.inl ⟨rfl, hf⟩⟩ (aheadOfTop_lt _)
  have hrun : iter.next = .ok (⟨iter.tree, stack₁⟩, item) := by
    rw [next, hstart, ok_bind]
    simp only [loop_congr hpass, hfuel, hloop, ok_bind]
  rcases hfound with ⟨-, hitem, hitems⟩ | ⟨x, todo, hitem, hon⟩
  · have hitem : item = none := hitem
    subst hitem
    exact Or.inl ⟨_, hrun, hitems⟩
  · have hitem : item = some x := hitem
    subst hitem
    exact Or.inr ⟨_, x, todo, hrun, rfl, hon.items, Or.inr ⟨done, x, todo, rfl, hon⟩⟩

/-- One call of `Iter::next`. -/
theorem next_spec {iter : Iter T S} (hr : Valid iter.tree) (hheight : iter.tree.height ≤ 15)
    {done : List T} (hat : iter.At done) : iter.Yields done := by
  obtain ⟨tree, stack⟩ := iter
  rcases hat with ⟨hstack, rfl⟩ | ⟨pre, x, todo, rfl, hon⟩
  · simp only at hstack
    subst hstack
    exact yields_of_start hr hheight rfl (Path.root.frontier (p := ()) trivial) rfl rfl
  · simp only at hon
    cases hon with
    | @leaf rest s ss l r pre post x p hpath =>
      have heq : l ++ x :: r = (l ++ [x]) ++ r := by simp
      rw [heq] at hpath
      have hf := Frontier.leaf (p := p) hpath
      rw [← heq, List.length_append, List.length_singleton, ← List.append_assoc] at hf
      exact yields_of_start hr hheight rfl hf rfl rfl

/-- An `Iter` yields the items of the tree. -/
theorem collect_spec {t : SumTree T S} (ht : Valid t) (hheight : t.height ≤ 15) :
    collectIter Iter.next t (Iter.new t) = .ok t.toList := by
  have hbody : ∀ state : Iter T S × List T,
      state.1.tree = t ∧ state.1.At state.2 ∧ state.2.length ≤ t.toList.length →
      (∃ state', collectPass Iter.next state = .ok (.next state') ∧
        (state'.1.tree = t ∧ state'.1.At state'.2 ∧ state'.2.length ≤ t.toList.length) ∧
        t.toList.length - state'.2.length < t.toList.length - state.2.length) ∨
      ∃ items, collectPass Iter.next state = .ok (.done items) ∧ items = t.toList := by
    rintro ⟨iter, done⟩ ⟨htree, hat, hlen⟩
    simp only at htree hat hlen
    subst htree
    rcases next_spec ht hheight hat with ⟨iter', hrun, hitems⟩ |
      ⟨iter', x, todo, hrun, htree, hitems, hat'⟩
    · right
      exact ⟨done, by simp [collectPass, hrun], hitems.symm⟩
    · left
      have hlt : done.length < iter.tree.toList.length := by simp [hitems]
      refine ⟨(iter', done ++ [x]), by simp [collectPass, hrun], ⟨htree, hat', ?_⟩, ?_⟩
      · rw [List.length_append, List.length_singleton]
        exact hlt
      · show _ - (done ++ [x]).length < _ - done.length
        rw [List.length_append, List.length_singleton]
        omega
  have hfirst : (Iter.new t).tree = t ∧ (Iter.new t).At [] ∧ ([] : List T).length ≤
      t.toList.length :=
    ⟨rfl, Or.inl ⟨rfl, rfl⟩, Nat.zero_le _⟩
  obtain ⟨items, hrun, rfl⟩ : ∃ items, collectIter Iter.next t (Iter.new t) = .ok items ∧
      items = t.toList := loop_spec
    (fun state : Iter T S × List T =>
      state.1.tree = t ∧ state.1.At state.2 ∧ state.2.length ≤ t.toList.length)
    (fun state => t.toList.length - state.2.length) _ hbody (s := (Iter.new t, [])) hfirst
    (Nat.lt_of_le_of_lt (Nat.sub_le _ _) (length_toList_lt_weight t))
  exact hrun

end Iter

/-! ### A cursor as an iterator -/

/-- The items that are left at a place. -/
def Place.rest {T : Type} : Place T → List T
  | .item _ x todo => x :: todo
  | _ => []

namespace Cursor

variable {T S D : Type} [Zero S] [Add S] [Item T S] [Dimension D S] {Pos : List T → D → Prop}
  {c : Cursor T S D} {p : Place T}

omit [Zero S] [Add S] [Item T S] [Dimension D S] in
theorem At.length_rest_le (hat : c.At Pos p) : p.rest.length ≤ c.tree.toList.length := by
  match p, hat with
  | .item done x todo, hat => simp [Place.rest, hat.2.1.items]
  | .fresh, _ => exact Nat.zero_le _
  | .beforeFirst, _ => exact Nat.zero_le _
  | .afterLast, _ => exact Nat.zero_le _

theorem skipped_eq_nil {xs : List T} (h : Skipped (S := S) (fun _ => true) xs) : xs = [] := by
  induction h with
  | nil => rfl
  | run _ hf => exact absurd hf (by simp)
  | append _ _ ihx ihy => rw [ihx, ihy, List.append_nil]

variable [LawfulSummary S]

/-- `next` moves on by one item. -/
theorem next_spec (hpos : Tracks (S := S) Pos) (hr : Valid c.tree) (hheight : c.tree.height ≤ 15)
    (hat : c.At Pos p) :
    ∃ c' p', c.next = .ok c' ∧ c'.tree = c.tree ∧ c'.At Pos p' ∧ p' ≠ .fresh ∧ p' ≠ .beforeFirst ∧
      p'.done c.tree.toList = p.upTo c.tree.toList ∧
      c.tree.toList = p.upTo c.tree.toList ++ p'.rest := by
  obtain ⟨c', hrun, htree, p', skipped, hat', hskip, hlands⟩ :=
    searchForward_spec (fun _ => true) hpos hr hheight hat
  obtain rfl := skipped_eq_nil hskip
  rw [List.append_nil] at hlands
  refine ⟨c', p', hrun, htree, hat', ?_⟩
  match p', hlands with
  | .item done x todo, ⟨hdone, hitems, _⟩ => exact ⟨by simp, by simp, hdone, hitems⟩
  | .afterLast, hitems =>
    exact ⟨by simp, by simp, hitems, hitems.trans (List.append_nil _).symm⟩

theorem next_item (hpos : Tracks (S := S) Pos) (hr : Valid c.tree) (hheight : c.tree.height ≤ 15)
    {done todo : List T} {x : T} (hat : c.At Pos (.item done x todo)) :
    ∃ c' p', c.next = .ok c' ∧ c'.tree = c.tree ∧ c'.At Pos p' ∧ p' ≠ .fresh ∧ p' ≠ .beforeFirst ∧
      p'.done c.tree.toList = done ++ [x] ∧ p'.rest = todo := by
  obtain ⟨c', p', hrun, htree, hat', hp', hb', hdone, hitems⟩ := next_spec hpos hr hheight hat
  refine ⟨c', p', hrun, htree, hat', hp', hb', hdone, ?_⟩
  have hsum : (done ++ [x]) ++ todo = (done ++ [x]) ++ p'.rest := by
    rw [List.append_assoc]
    exact hat.2.1.items.symm.trans hitems
  exact (List.append_cancel_left hsum).symm

theorem prev_spec (hpos : Tracks (S := S) Pos) (hr : Valid c.tree) (hheight : c.tree.height ≤ 15)
    (hat : c.At Pos p) :
    ∃ c' p', c.prev = .ok c' ∧ c'.tree = c.tree ∧ c'.At Pos p' ∧ p' ≠ .fresh ∧
      p'.current = p.preceding c.tree.toList := by
  obtain ⟨c', hrun, htree, p', skipped, hat', hskip, hlands⟩ :=
    searchBackward_spec (fun _ => true) hpos hr hheight hat
  obtain rfl := skipped_eq_nil hskip
  rw [List.nil_append] at hlands
  have hpre : ∃ pre, c.tree.toList = pre ++ p.onward c.tree.toList ∧
      p.preceding c.tree.toList = pre.getLast? := by
    match p, hat with
    | .fresh, _ => exact ⟨c.tree.toList, (List.append_nil _).symm, rfl⟩
    | .beforeFirst, _ => exact ⟨[], rfl, rfl⟩
    | .item done x todo, hat => exact ⟨done, hat.2.1.items, rfl⟩
    | .afterLast, _ => exact ⟨c.tree.toList, (List.append_nil _).symm, rfl⟩
  obtain ⟨pre, hitems, hpreceding⟩ := hpre
  rw [hpreceding]
  match p', hlands with
  | .item done x todo, ⟨_, hitems', _⟩ =>
    refine ⟨c', _, hrun, htree, hat', by simp, ?_⟩
    have hsum : (done ++ [x]) ++ p.onward c.tree.toList = pre ++ p.onward c.tree.toList := by
      rw [List.append_assoc, ← hitems]
      exact hitems'.symm
    rw [← List.append_cancel_right hsum, List.getLast?_concat]
    rfl
  | .beforeFirst, hitems' =>
    refine ⟨c', _, hrun, htree, hat', by simp, ?_⟩
    have hsum : [] ++ p.onward c.tree.toList = pre ++ p.onward c.tree.toList :=
      hitems'.symm.trans hitems
    rw [← List.append_cancel_right hsum]
    rfl

omit [LawfulSummary S] [Zero S] [Add S] [Item T S] [Dimension D S] in
theorem rest_cases (p : Place T) : (p.current = none ∧ p.rest = []) ∨
    ∃ done x todo, p = .item done x todo := by
  match p with
  | .fresh => exact Or.inl ⟨rfl, rfl⟩
  | .beforeFirst => exact Or.inl ⟨rfl, rfl⟩
  | .afterLast => exact Or.inl ⟨rfl, rfl⟩
  | .item done x todo => exact Or.inr ⟨done, x, todo, rfl⟩

/-- The loop over the items that are left, from any point on. -/
theorem forEachLoop_spec {β : Type} (P : List T → β → Prop) {body : β → T → Result β}
    (hpos : Tracks (S := S) Pos) {root : SumTree T S} (hr : Valid root)
    (hheight : root.height ≤ 15) :
    ∀ {rest : List T} (seen : List T) {c : Cursor T S D} {p : Place T} {fuel : ℕ} {b : β},
    (∀ done x todo b, seen ++ rest = done ++ x :: todo → P done b →
      ∃ b', body b x = .ok b' ∧ P (done ++ [x]) b') →
    c.tree = root → c.At Pos p → p ≠ .fresh → p.rest = rest → rest.length < fuel → P seen b →
    ∃ b', loop .outOfFuel (forEachPass body) fuel (c, b) = .ok b' ∧ P (seen ++ rest) b' := by
  intro rest
  induction rest with
  | nil =>
    intro seen c p fuel b _ _ hat hp hrest hfuel hb
    have hcurrent : p.current = none := by
      rcases rest_cases p with ⟨hnone, _⟩ | ⟨done, x, todo, rfl⟩
      · exact hnone
      · exact absurd hrest (by simp [Place.rest])
    obtain ⟨fuel, rfl⟩ := Nat.exists_eq_succ_of_ne_zero (Nat.ne_of_gt hfuel)
    refine ⟨b, loop_done ?_, by simpa using hb⟩
    rw [forEachPass, item_spec hat hp, hcurrent]
    rfl
  | cons x rest ih =>
    intro seen c p fuel b hbody htree hat hp hrest hfuel hb
    obtain ⟨done, rfl⟩ : ∃ done, p = .item done x rest := by
      rcases rest_cases p with ⟨_, hnil⟩ | ⟨done, y, todo, rfl⟩
      · exact absurd (hnil.symm.trans hrest) (by simp)
      · obtain ⟨rfl, rfl⟩ : y = x ∧ todo = rest := by simpa [Place.rest] using hrest
        exact ⟨done, rfl⟩
    subst htree
    obtain ⟨fuel, rfl⟩ := Nat.exists_eq_succ_of_ne_zero (Nat.ne_of_gt (Nat.zero_lt_of_lt hfuel))
    obtain ⟨b', hrun, hb'⟩ := hbody seen x rest b rfl hb
    obtain ⟨c', p', hnext, htree', hat', hp', -, -, hrest'⟩ := next_item hpos hr hheight hat
    have hpass : forEachPass body (c, b) = .ok (.next (c', b')) := by
      simp only [forEachPass, item_spec hat hp, Place.current, ok_bind, hrun, hnext]
    obtain ⟨b'', hloop, hb''⟩ := ih (seen ++ [x])
      (fun done y todo b h => hbody done y todo b (by simpa using h)) htree' hat' hp' hrest'
      (by simpa using hfuel) hb'
    exact ⟨b'', (loop_next hpass).trans hloop, by simpa using hb''⟩

/-- The rule for `while let Some(item) = cursor.item()`: a relation between the items
seen so far and the result that the body keeps holds of all items from the place on. -/
theorem forEach_spec {β : Type} (P : List T → β → Prop) {body : β → T → Result β}
    (hpos : Tracks (S := S) Pos) (hr : Valid c.tree) (hheight : c.tree.height ≤ 15)
    (hat : c.At Pos p) (hp : p ≠ .fresh)
    (hbody : ∀ done x todo b, p.rest = done ++ x :: todo → P done b →
      ∃ b', body b x = .ok b' ∧ P (done ++ [x]) b')
    {init : β} (hinit : P [] init) : ∃ b, c.forEach body init = .ok b ∧ P p.rest b :=
  forEachLoop_spec P hpos hr hheight [] hbody rfl hat hp rfl
    (Nat.lt_of_le_of_lt hat.length_rest_le (length_toList_lt_weight c.tree)) hinit

/-- A cursor as an iterator yields the item that it is at and moves on. -/
theorem iterNext_spec (hpos : Tracks (S := S) Pos) (hr : Valid c.tree)
    (hheight : c.tree.height ≤ 15)
    (hat : c.At Pos p) (hp : p ≠ .fresh) :
    (c.iterNext = .ok (c, none) ∧ p.rest = []) ∨
    ∃ c' p' x, c.iterNext = .ok (c', some x) ∧ c'.tree = c.tree ∧ c'.At Pos p' ∧ p' ≠ .fresh ∧
      p.rest = x :: p'.rest := by
  rw [iterNext, startIter, if_pos (didSeek_spec hat hp), ok_bind, item_spec hat hp]
  rcases rest_cases p with ⟨hnone, hrest⟩ | ⟨done, x, todo, rfl⟩
  · rw [hnone]
    exact Or.inl ⟨rfl, hrest⟩
  · obtain ⟨c', p', hnext, htree, hat', hp', -, -, hrest⟩ := next_item hpos hr hheight hat
    refine Or.inr ⟨c', p', x, ?_, htree, hat', hp', by rw [hrest]; rfl⟩
    simp only [Place.current, ok_bind, hnext]

theorem collectLoop_spec (hpos : Tracks (S := S) Pos) {root : SumTree T S} (hr : Valid root)
    (hheight : root.height ≤ 15) :
    ∀ {rest : List T} (seen : List T) {c : Cursor T S D} {p : Place T} {fuel : ℕ},
    c.tree = root → c.At Pos p → p ≠ .fresh → p.rest = rest → rest.length < fuel →
    loop .outOfFuel (collectPass iterNext) fuel (c, seen) = .ok (seen ++ rest) := by
  intro rest
  induction rest with
  | nil =>
    intro seen c p fuel htree hat hp hrest hfuel
    subst htree
    obtain ⟨fuel, rfl⟩ := Nat.exists_eq_succ_of_ne_zero (Nat.ne_of_gt hfuel)
    rcases iterNext_spec hpos hr hheight hat hp with ⟨hrun, -⟩ | ⟨c', p', x, -, -, -, -, hcons⟩
    · rw [List.append_nil]
      exact loop_done (by rw [collectPass, hrun]; rfl)
    · exact absurd (hrest.symm.trans hcons) (by simp)
  | cons x rest ih =>
    intro seen c p fuel htree hat hp hrest hfuel
    subst htree
    obtain ⟨fuel, rfl⟩ := Nat.exists_eq_succ_of_ne_zero (Nat.ne_of_gt (Nat.zero_lt_of_lt hfuel))
    rcases iterNext_spec hpos hr hheight hat hp with ⟨-, hnil⟩ | ⟨c', p', y, hrun, htree,
      hat', hp', hcons⟩
    · exact absurd (hnil.symm.trans hrest) (by simp)
    · obtain ⟨rfl, rfl⟩ : x = y ∧ rest = p'.rest := by simpa using hrest.symm.trans hcons
      have hpass : collectPass iterNext (c, seen) = .ok (.next (c', seen ++ [x])) := by
        rw [collectPass, hrun]
        rfl
      have hloop := ih (seen ++ [x]) htree hat' hp' rfl (by simpa using hfuel)
      rw [loop_next hpass, hloop, List.append_assoc]
      rfl

theorem collect_spec (hpos : Tracks (S := S) Pos) (hr : Valid c.tree) (hheight : c.tree.height ≤ 15)
    (hat : c.At Pos p) (hp : p ≠ .fresh) : collectIter iterNext c.tree c = .ok p.rest :=
  collectLoop_spec hpos hr hheight [] rfl hat hp rfl
    (Nat.lt_of_le_of_lt hat.length_rest_le (length_toList_lt_weight c.tree))

omit [Zero S] [Add S] [Item T S] [LawfulSummary S] in
theorem iterNext_new {c c' : Cursor T S D} (hd : c.didSeek = false) (hnext : c.next = .ok c')
    (hd' : c'.didSeek = true) : c.iterNext = c'.iterNext := by
  rw [iterNext, iterNext, startIter, startIter, if_pos hd', if_neg (by simp [hd]), hnext]

theorem collect_new {t : SumTree T S} (hpos : Tracks (S := S) Pos) (ht : Valid t)
    (hheight : t.height ≤ 15) :
    collectIter iterNext t (Cursor.new t : Cursor T S D) = .ok t.toList := by
  obtain ⟨c', p', hnext, htree, hat, hp, -, -, hitems⟩ :=
    next_spec hpos ht hheight (at_new hpos t)
  have htree : c'.tree = t := htree
  have hrest : p'.rest = t.toList := hitems.symm
  have hpass : collectPass iterNext ((Cursor.new t : Cursor T S D), ([] : List T))
      = collectPass iterNext (c', []) := by
    rw [collectPass, collectPass, iterNext_new rfl hnext (didSeek_spec hat hp)]
  rw [collectIter, loop_congr hpass, ← hrest, ← htree]
  exact collect_spec hpos (htree ▸ ht) (htree ▸ hheight) hat hp

end Cursor

theorem SumTree.collectItems_spec {T S : Type} [Zero S] [Add S] [Item T S] [LawfulSummary S]
    {t : SumTree T S} (ht : Valid t) (hheight : t.height ≤ 15) :
    t.collectItems = .ok t.toList := by
  obtain ⟨c', p', hnext, htree, hat, hp, -, -, hitems⟩ :=
    Cursor.next_spec (D := Unit) tracks_anyhow ht hheight (at_new tracks_anyhow t)
  have htree : c'.tree = t := htree
  have hrest : p'.rest = t.toList := hitems.symm
  have hbody : ∀ (done : List T) x todo (b : List T), p'.rest = done ++ x :: todo → b = done →
      ∃ b', (.ok (b ++ [x]) : Result (List T)) = .ok b' ∧ b' = done ++ [x] :=
    fun done x todo b _ hb => ⟨b ++ [x], rfl, by rw [hb]⟩
  obtain ⟨items, hrun, hitems'⟩ := forEach_spec (fun seen items => items = seen) tracks_anyhow
    (htree ▸ ht) (htree ▸ hheight) hat hp hbody rfl
  rw [collectItems, hnext, ok_bind, hrun, hitems', hrest]

end Zui
