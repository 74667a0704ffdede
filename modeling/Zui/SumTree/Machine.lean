/-
A cursor is an index into the list of the items.

`Move` lists the calls that move a cursor.  `Move.step` says what a call does to an
index (`ListCursor`) into the item list, and `Cursor.Represents` relates the two.

* `Move.run_spec` — a call keeps the relation;
* `Move.runAll_spec` — so does a run of calls;
* `Represents.observes` — the queries return what they say of the index.

The calls must be such that the index machine can follow them (`Move.Fits`): the
location that a seek asks about is monotone along the items and not behind the
cursor; a filter accepts a sum exactly when it accepts a part of it.  A forward seek
is not made from before the first item, where the empty stack of the cursor is taken
for the right end.
-/
import Zui.Library.ListCursor
import Zui.SumTree.Search
import Zui.SumTree.Seek

namespace Zui

/-- A target that compares less and less with the locations along the items. -/
def MonotoneOn {T S D : Type} [Item T S] [Dimension D S] (target : SeekTarget D)
    (items : List T) : Prop :=
  ∀ done x todo, items = done ++ x :: todo →
    (target (positionAfter D (done ++ [x])) = .gt → target (positionAfter D done) = .gt) ∧
    ((target (positionAfter D (done ++ [x]))).isGE → (target (positionAfter D done)).isGE)

/-- The calls that move a cursor. -/
inductive Move (S D : Type)
  | reset
  | seek (target : SeekTarget D) (bias : Bias)
  | seekForward (target : SeekTarget D) (bias : Bias)
  | next
  | prev
  | searchForward (filterNode : S → Bool)
  | searchBackward (filterNode : S → Bool)

namespace Move

variable {T S D : Type} [Dimension D S]

/-- The call on a cursor. -/
def run : Move S D → Cursor T S D → Result (Cursor T S D)
  | reset, c => .ok c.reset
  | seek target bias, c => do
    let (c, _) ← c.seek target bias
    .ok c
  | seekForward target bias, c => do
    let (c, _) ← c.seekForward target bias
    .ok c
  | next, c => c.next
  | prev, c => c.prev
  | searchForward filterNode, c => c.searchForward filterNode
  | searchBackward filterNode, c => c.searchBackward filterNode

/-- A run of calls. -/
def runAll (moves : List (Move S D)) (c : Cursor T S D) : Result (Cursor T S D) :=
  moves.foldlM (fun c move => move.run c) c

variable [Item T S]

/-- Whether a seek stops at index `i` of the items. -/
def seekStops (items : List T) (target : SeekTarget D) (bias : Bias) (i : ℕ) : Bool :=
  !passes bias (target (positionAfter D (items.take (i + 1))))

/-- Whether a search stops at index `i` of the items. -/
def searchStops (items : List T) (filterNode : S → Bool) (i : ℕ) : Bool :=
  items[i]?.any fun x => filterNode (Item.summary x)

/-- What the call does to an index into the items. -/
def step (items : List T) : Move S D → ListCursor → ListCursor
  | reset, _ => .fresh
  | seek target bias, _ => .firstFrom (seekStops items target bias) items.length 0
  | seekForward target bias, s =>
    .firstFrom (seekStops items target bias) items.length (s.start items.length)
  | next, s => .firstFrom (fun _ => true) items.length (s.upTo items.length)
  | prev, s => .lastBelow (fun _ => true) (s.leftOf items.length)
  | searchForward filterNode, s =>
    .firstFrom (searchStops items filterNode) items.length (s.upTo items.length)
  | searchBackward filterNode, s =>
    .lastBelow (searchStops items filterNode) (s.leftOf items.length)

variable [Add S]

/-- When the index machine can follow the call. -/
def Fits (items : List T) : Move S D → ListCursor → Prop
  | seek target _, _ => MonotoneOn target items ∧ (target (Dimension.zero S)).isGE
  | seekForward target _, s => s ≠ .beforeFirst ∧ MonotoneOn target items ∧
    (target (positionAfter D (items.take (s.start items.length)))).isGE
  | searchForward filterNode, _ => Cursor.Additive filterNode
  | searchBackward filterNode, _ => Cursor.Additive filterNode
  | _, _ => True

/-- When the index machine can follow a run of calls. -/
def FitsAll (items : List T) : List (Move S D) → ListCursor → Prop
  | [], _ => True
  | move :: moves, s => move.Fits items s ∧ FitsAll items moves (move.step items s)

end Move

/-! ### Places as indices -/

namespace Place

variable {T : Type} {items : List T} {p : Place T}

/-- The index of a place. -/
def index : Place T → ListCursor
  | fresh => .fresh
  | beforeFirst => .beforeFirst
  | item done _ _ => .atIndex done.length
  | afterLast => .afterLast

/-- A place of the items. -/
def Of (items : List T) : Place T → Prop
  | item done x todo => items = done ++ x :: todo
  | _ => True

theorem done_eq (h : p.Of items) : p.done items = items.take (p.index.start items.length) := by
  cases p with
  | fresh => rfl
  | beforeFirst => rfl
  | item pre x todo =>
    rw [show items = pre ++ x :: todo from h]
    simp [done, index, ListCursor.start]
  | afterLast => simp [done, index, ListCursor.start]

theorem upTo_eq (h : p.Of items) : p.upTo items = items.take (p.index.upTo items.length) := by
  cases p with
  | fresh => rfl
  | beforeFirst => rfl
  | item pre x todo =>
    rw [show items = pre ++ x :: todo from h]
    simp [upTo, done, current, index, ListCursor.upTo, List.take_append]
  | afterLast => simp [upTo, done, current, index, ListCursor.upTo]

theorem current_eq (h : p.Of items) : p.current = p.index.current items := by
  cases p with
  | item pre x todo =>
    rw [show items = pre ++ x :: todo from h]
    simp [current, index, ListCursor.current]
  | _ => rfl

theorem following_eq (h : p.Of items) : p.following items = p.index.following items := by
  cases p with
  | item pre x todo =>
    rw [show items = pre ++ x :: todo from h]
    cases todo <;> simp [following, index, ListCursor.following, ListCursor.upTo]
  | afterLast => simp [following, index, ListCursor.following, ListCursor.upTo]
  | _ => cases items <;> simp [following, index, ListCursor.following, ListCursor.upTo]

theorem preceding_eq (h : p.Of items) : p.preceding items = p.index.preceding items := by
  cases p with
  | item pre x todo =>
    rw [show items = pre ++ x :: todo from h]
    simp [preceding, index, ListCursor.preceding, ListCursor.leftOf]
  | _ => simp [preceding, index, ListCursor.preceding, ListCursor.leftOf]

theorem length_done (h : p.Of items) :
    (p.done items).length = p.index.start items.length := by
  cases p with
  | item pre x todo => rfl
  | _ => simp [done, index, ListCursor.start]

theorem length_upTo (h : p.Of items) :
    (p.upTo items).length = p.index.upTo items.length := by
  cases p with
  | item pre x todo => simp [upTo, done, current, index, ListCursor.upTo]
  | _ => simp [upTo, done, current, index, ListCursor.upTo]

theorem length_onward (h : p.Of items) :
    p.index.leftOf items.length + (p.onward items).length = items.length := by
  cases p with
  | item pre x todo =>
    rw [show items = pre ++ x :: todo from h]
    simp [onward, index, ListCursor.leftOf]
  | _ => simp [onward, index, ListCursor.leftOf]

/-- Where a move to the right lands that skipped nothing it stops at. -/
theorem Lands.index {stops : T → Prop} {test : ℕ → Bool} {start skipped : List T}
    (h : p.Lands stops items (start ++ skipped))
    (hskip : ∀ i, start.length ≤ i → i < (start ++ skipped).length → test i = false)
    (hstop : ∀ x todo, items = start ++ skipped ++ x :: todo → stops x →
      test (start ++ skipped).length = true) :
    p.index = .firstFrom test items.length start.length := by
  match p, h with
  | .item done x todo, ⟨hdone, hitems, hx⟩ =>
    subst hdone
    have hlt : (start ++ skipped).length < items.length := by simp [hitems]
    exact (ListCursor.firstFrom_eq_atIndex (by simp) hlt hskip (hstop x todo hitems hx)).symm
  | .afterLast, h =>
    have hitems : items = start ++ skipped := h
    subst hitems
    exact (ListCursor.firstFrom_eq_afterLast hskip).symm

/-- Where a move to the left lands that skipped nothing it stops at. -/
theorem LandsBack.index {stops : T → Prop} {test : ℕ → Bool} {start skipped : List T} {n : ℕ}
    (h : p.LandsBack stops items (skipped ++ start)) (hn : n + start.length = items.length)
    (hskip : ∀ i, i < n → items.length < i + 1 + (skipped ++ start).length → test i = false)
    (hstop : ∀ done x, items = done ++ x :: (skipped ++ start) → stops x →
      test done.length = true) :
    p.index = .lastBelow test n := by
  match p, h with
  | .item done x todo, ⟨htodo, hitems, hx⟩ =>
    subst htodo
    have hlen : items.length = done.length + 1 + (skipped ++ start).length := by
      simp [hitems]
      omega
    rw [List.length_append] at hlen
    refine (ListCursor.lastBelow_eq_atIndex (by omega) (fun i hi hin => hskip i hin ?_)
      (hstop done x hitems hx)).symm
    rw [List.length_append]
    omega
  | .beforeFirst, h =>
    have hitems : items = skipped ++ start := h
    subst hitems
    exact (ListCursor.lastBelow_eq_beforeFirst fun i hi => hskip i hi (by omega)).symm

end Place

/-! ### Seeking on an index -/

section Seeking

variable {T S D : Type} [Item T S] [Dimension D S] {target : SeekTarget D} {bias : Bias}
  {items : List T}

theorem MonotoneOn.passes (h : MonotoneOn target items) {done todo : List T} {x : T}
    (hitems : items = done ++ x :: todo)
    (hpass : passes bias (target (positionAfter D (done ++ [x]))) = true) :
    Zui.passes bias (target (positionAfter D done)) = true := by
  obtain ⟨hgt, hge⟩ := h done x todo hitems
  simp only [Zui.passes, Bool.or_eq_true, Bool.and_eq_true, decide_eq_true_eq] at hpass ⊢
  rcases hpass with hpass | ⟨hpass, hbias⟩
  · exact Or.inl (hgt hpass)
  · have := hge (by rw [hpass]; rfl)
    cases hcmp : target (positionAfter D done) with
    | lt =>
      rw [hcmp] at this
      exact absurd this (by simp)
    | eq => exact Or.inr ⟨rfl, hbias⟩
    | gt => exact Or.inl rfl

theorem MonotoneOn.passes_take (h : MonotoneOn target items) {i j : ℕ} (hij : i ≤ j) :
    j ≤ items.length → Zui.passes bias (target (positionAfter D (items.take j))) = true →
    Zui.passes bias (target (positionAfter D (items.take i))) = true := by
  induction j, hij using Nat.le_induction with
  | base =>
    intro _ hpass
    exact hpass
  | succ j _ ih =>
    intro hj hpass
    have hitems : items = items.take j ++ items[j] :: items.drop (j + 1) := by simp
    rw [List.take_succ_eq_append_getElem hj] at hpass
    exact ih (by omega) (h.passes hitems hpass)

omit [Item T S] [Dimension D S] in
theorem isGE_compare [LinearOrder D] {a b : D} : (compare a b).isGE ↔ b ≤ a := by
  have hne : ∀ o : Ordering, o.isGE = true ↔ o ≠ .lt := by decide
  rw [hne, compare_ge_iff_ge]

/-- A location of an ordered dimension is a monotone target when the dimension does
not decrease along the items. -/
theorem monotoneOn_compare [LinearOrder D] (k : D)
    (h : ∀ done x todo, items = done ++ x :: todo →
      positionAfter D done ≤ positionAfter D (done ++ [x])) :
    MonotoneOn (fun d => compare k d) items := by
  intro done x todo hitems
  have hle := h done x todo hitems
  constructor
  · intro hgt
    exact compare_gt_iff_gt.mpr (lt_of_le_of_lt hle (compare_gt_iff_gt.mp hgt))
  · intro hge
    exact isGE_compare.mpr (le_trans hle (isGE_compare.mp hge))

end Seeking

namespace Cursor

open SumTree

variable {T S D : Type} [Zero S] [Add S] [Item T S] [LawfulSummary S] [Dimension D S]
  [LawfulDimension D S] {c : Cursor T S D} {s : ListCursor}

omit [Zero S] [Add S] [Item T S] [LawfulSummary S] [Dimension D S] [LawfulDimension D S] in
theorem At.of {Pos : List T → D → Prop} {p : Place T} (h : c.At Pos p) : p.Of c.tree.toList := by
  match p, h with
  | .fresh, _ => trivial
  | .beforeFirst, _ => trivial
  | .item _ _ _, h => exact h.2.1.items
  | .afterLast, _ => trivial

/-- The cursor is at the index `s` of the items of its tree. -/
def Represents (c : Cursor T S D) (s : ListCursor) : Prop := ∃ p, c.At Exactly p ∧ p.index = s

/-- What the queries return on a cursor at the index `s` of some items. -/
structure Observes (items : List T) (c : Cursor T S D) (s : ListCursor) : Prop where
  start : c.start = positionAfter D (items.take (s.start items.length))
  item : s ≠ .fresh → c.item = .ok (s.current items)
  nextItem : s ≠ .fresh → c.nextItem = .ok (s.following items)
  prevItem : s ≠ .fresh → c.prevItem = .ok (s.preceding items)
  endPosition : s ≠ .fresh → c.endPosition =
    .ok (positionAfter D (items.take (s.upTo items.length)))
  fresh : s = .fresh → c.item = .error .didNotSeek ∧ c.nextItem = .error .didNotSeek ∧
    c.prevItem = .error .didNotSeek ∧ c.endPosition = .error .didNotSeek

theorem Represents.observes (hr : Valid c.tree) (h : c.Represents s) :
    Observes c.tree.toList c s := by
  obtain ⟨p, hat, rfl⟩ := h
  have hne : p.index ≠ .fresh → p ≠ .fresh := by
    rintro h rfl
    exact h rfl
  refine ⟨?_, fun h => ?_, fun h => ?_, fun h => ?_, fun h => ?_, fun h => ?_⟩
  · rw [← Place.done_eq hat.of]
    exact start_spec hat
  · rw [← Place.current_eq hat.of]
    exact item_spec hat (hne h)
  · rw [← Place.following_eq hat.of]
    exact nextItem_spec hr hat (hne h)
  · rw [← Place.preceding_eq hat.of]
    exact prevItem_spec hr hat (hne h)
  · obtain ⟨q, hrun, hq⟩ := endPosition_spec tracks_exactly hr hat (hne h)
    rw [hrun, ← Place.upTo_eq hat.of]
    exact congrArg Except.ok hq
  · have hfresh : c.didSeek = false := by
      cases p with
      | fresh => exact hat.1
      | _ => cases h
    obtain ⟨hitem, hsummary, hnext, hprev⟩ := queries_fresh hfresh
    refine ⟨hitem, hnext, hprev, ?_⟩
    rw [endPosition, hsummary]
    rfl

/-- The place that a forward seek to a monotone target ends at. -/
theorem seekInternal_index {A : Type} [SeekAggregate A T S] {Out : List T → A → Prop}
    {In : List T → List T → A → Prop} {target : SeekTarget D} (bias : Bias)
    (hagg : Collects (S := S) Out In) (hr : Valid c.tree) (hheight : c.tree.height ≤ 15)
    {p : Place T} (hat : c.At Exactly p) (hp : p ≠ .beforeFirst) {a : A} (ho : Out [] a)
    (hmono : MonotoneOn target c.tree.toList) (hge : (target c.position).isGE) :
    ∃ seg p' r, seekInternal target bias c a = .ok r ∧
      Sought Exactly Out target bias c.tree (p.done c.tree.toList) seg p' r ∧
      p'.index = .firstFrom (Move.seekStops c.tree.toList target bias) c.tree.toList.length
        (p.done c.tree.toList).length := by
  obtain ⟨seg, p', r, hrun, hs⟩ := seekInternal_spec bias hagg tracks_exactly hr hheight
    hat hp ho hge
  refine ⟨seg, p', r, hrun, hs, ?_⟩
  obtain ⟨htree, hat', _, hpassed, hlands, _⟩ := hs
  generalize hstart : p.done c.tree.toList = start at *
  have hdone : ∃ rest, c.tree.toList = start ++ seg ++ rest ∧
    p'.done c.tree.toList = start ++ seg := by
    match p', hlands with
    | .item done x todo, ⟨hdone, hitems, _⟩ => exact ⟨x :: todo, hitems, hdone⟩
    | .afterLast, hitems => exact ⟨[], by rw [List.append_nil]; exact hitems, hitems⟩
  obtain ⟨rest, hitems, hdone⟩ := hdone
  have hposition : r.1.position = positionAfter D (start ++ seg) := by
    have := start_spec hat'
    rwa [htree, hdone] at this
  have htake : c.tree.toList.take (start ++ seg).length = start ++ seg := by
    rw [hitems]
    exact List.take_left' rfl
  refine hlands.index (fun i hi hlt => ?_) fun x todo hx hstop => ?_
  · -- The seek moved on, so the target passes where it ended, and all before.
    have hne : seg ≠ [] := by
      rintro rfl
      simp only [List.append_nil] at hlt
      omega
    have hpass := hpassed.resolve_left hne
    rw [hposition, ← htake] at hpass
    have := hmono.passes_take (show i + 1 ≤ (start ++ seg).length from hlt)
      (by rw [hitems]; simp) hpass
    simp [Move.seekStops, this]
  · have htake' : c.tree.toList.take ((start ++ seg).length + 1) = start ++ seg ++ [x] := by
      rw [hx, List.take_length_add_append]
      simp
    rw [Move.seekStops, htake', positionAfter_concat, ← hposition, hstop]
    rfl

/-- A search to the right on an index, where `test` says which items the filter
accepts. -/
theorem searchForward_index {filterNode : S → Bool} (hf : Additive filterNode) {test : ℕ → Bool}
    (hr : Valid c.tree) (hheight : c.tree.height ≤ 15) (h : c.Represents s)
    (htest : ∀ i x, c.tree.toList[i]? = some x → test i = filterNode (Item.summary x)) :
    ∃ c', c.searchForward filterNode = .ok c' ∧ c'.tree = c.tree ∧ c'.Represents
      (.firstFrom test c.tree.toList.length (s.upTo c.tree.toList.length)) := by
  obtain ⟨p, hat, rfl⟩ := h
  obtain ⟨c', hrun, htree, p', skipped, hat', hskip, hlands⟩ :=
    searchForward_spec filterNode tracks_exactly hr hheight hat
  refine ⟨c', hrun, htree, p', hat', ?_⟩
  rw [← Place.length_upTo hat.of]
  have hitems : ∃ rest, c.tree.toList = p.upTo c.tree.toList ++ skipped ++ rest := by
    match p', hlands with
    | .item _ x todo, ⟨_, hitems, _⟩ => exact ⟨x :: todo, hitems⟩
    | .afterLast, hitems => exact ⟨[], by rw [List.append_nil]; exact hitems⟩
  obtain ⟨rest, hitems⟩ := hitems
  generalize p.upTo c.tree.toList = start at *
  refine hlands.index (fun i hi hlt => ?_) fun x todo hx hstop => ?_
  · rw [List.length_append] at hlt
    have hmem : c.tree.toList[i]? = some skipped[i - start.length] := by
      rw [hitems, List.append_assoc, List.getElem?_append_right hi,
        List.getElem?_append_left (by omega)]
      exact List.getElem?_eq_getElem _
    rw [htest i _ hmem]
    exact hskip.all_rejected hf _ (List.getElem_mem _)
  · rw [htest _ x (by rw [hx]; simp)]
    exact hstop

theorem searchBackward_index {filterNode : S → Bool} (hf : Additive filterNode) {test : ℕ → Bool}
    (hr : Valid c.tree) (hheight : c.tree.height ≤ 15) (h : c.Represents s)
    (htest : ∀ i x, c.tree.toList[i]? = some x → test i = filterNode (Item.summary x)) :
    ∃ c', c.searchBackward filterNode = .ok c' ∧ c'.tree = c.tree ∧ c'.Represents
      (.lastBelow test (s.leftOf c.tree.toList.length)) := by
  obtain ⟨p, hat, rfl⟩ := h
  obtain ⟨c', hrun, htree, p', skipped, hat', hskip, hlands⟩ :=
    searchBackward_spec filterNode tracks_exactly hr hheight hat
  refine ⟨c', hrun, htree, p', hat', ?_⟩
  have hlen := Place.length_onward hat.of
  have hitems : ∃ done, c.tree.toList = done ++ (skipped ++ p.onward c.tree.toList) := by
    match p', hlands with
    | .item done x _, ⟨_, hitems, _⟩ => exact ⟨done ++ [x], by rw [List.append_assoc]; exact hitems⟩
    | .beforeFirst, hitems => exact ⟨[], hitems⟩
  obtain ⟨done, hitems⟩ := hitems
  generalize p.onward c.tree.toList = start at *
  have hsum : c.tree.toList.length = done.length + (skipped.length + start.length) := by
    rw [hitems, List.length_append, List.length_append]
  refine hlands.index hlen (fun i hi hlt => ?_) fun pre x hx hstop => ?_
  · rw [List.length_append] at hlt
    have hmem : c.tree.toList[i]? = some skipped[i - done.length] := by
      rw [hitems, List.getElem?_append_right (by omega), List.getElem?_append_left (by omega)]
      exact List.getElem?_eq_getElem _
    rw [htest i _ hmem]
    exact hskip.all_rejected hf _ (List.getElem_mem _)
  · rw [htest _ x (by rw [hx]; simp)]
    exact hstop

end Cursor

namespace Move

open SumTree Cursor

variable {T S D : Type} [Zero S] [Add S] [Item T S] [LawfulSummary S] [Dimension D S]
  [LawfulDimension D S] {c : Cursor T S D} {s : ListCursor}

omit [Zero S] [Add S] [LawfulSummary S] in
theorem searchStops_eq (items : List T) (filterNode : S → Bool) (i : ℕ) (x : T)
    (h : items[i]? = some x) : searchStops items filterNode i = filterNode (Item.summary x) := by
  rw [searchStops, h]
  rfl

/-- A forward seek on an index. -/
theorem seekForward_spec {target : SeekTarget D} (bias : Bias) (hr : Valid c.tree)
    (hheight : c.tree.height ≤ 15) (h : c.Represents s) (hs : s ≠ .beforeFirst)
    (hmono : MonotoneOn target c.tree.toList)
    (hge : (target (positionAfter D (c.tree.toList.take (s.start c.tree.toList.length)))).isGE) :
    ∃ c' found, c.seekForward target bias = .ok (c', found) ∧ c'.tree = c.tree ∧
      c'.Represents (.firstFrom (seekStops c.tree.toList target bias) c.tree.toList.length
        (s.start c.tree.toList.length)) := by
  obtain ⟨p, hat, rfl⟩ := h
  have hstart : c.position = positionAfter D (p.done c.tree.toList) := start_spec hat
  rw [← Place.done_eq hat.of, ← hstart] at hge
  obtain ⟨seg, p', ⟨c', a, found⟩, hrun, hsought, hindex⟩ :=
    seekInternal_index bias collects_unit hr hheight hat (by rintro rfl; exact hs rfl)
      trivial hmono hge
  refine ⟨c', found, ?_, hsought.tree, p', hsought.at_, by rw [hindex, Place.length_done hat.of]⟩
  rw [Cursor.seekForward, hrun]
  rfl

/-- **A call on an index.** -/
theorem run_spec (move : Move S D) (hr : Valid c.tree) (hheight : c.tree.height ≤ 15)
    (h : c.Represents s) (hfits : move.Fits c.tree.toList s) :
    ∃ c', move.run c = .ok c' ∧ c'.tree = c.tree ∧ c'.Represents (move.step c.tree.toList s) := by
  cases move with
  | reset => exact ⟨c.reset, rfl, rfl, .fresh, at_reset tracks_exactly c, rfl⟩
  | seek target bias =>
    obtain ⟨c', found, hrun, htree, hc'⟩ := seekForward_spec bias (c := c.reset) hr hheight
      ⟨.fresh, at_reset tracks_exactly c, rfl⟩ (by simp [Place.index]) hfits.1 hfits.2
    refine ⟨c', ?_, htree, hc'⟩
    rw [run, Cursor.seek, hrun]
    rfl
  | seekForward target bias =>
    obtain ⟨hs, hmono, hge⟩ := hfits
    obtain ⟨c', found, hrun, htree, hc'⟩ := seekForward_spec bias hr hheight h hs hmono hge
    refine ⟨c', ?_, htree, hc'⟩
    rw [run, hrun]
    rfl
  | next => exact searchForward_index (fun _ _ => rfl) hr hheight h fun _ _ _ => rfl
  | prev => exact searchBackward_index (fun _ _ => rfl) hr hheight h fun _ _ _ => rfl
  | searchForward filterNode =>
    exact searchForward_index hfits hr hheight h (searchStops_eq _ filterNode)
  | searchBackward filterNode =>
    exact searchBackward_index hfits hr hheight h (searchStops_eq _ filterNode)

/-- **A run of calls on an index.** -/
theorem runAll_spec : ∀ (moves : List (Move S D)) {c : Cursor T S D} {s : ListCursor},
    Valid c.tree → c.tree.height ≤ 15 → c.Represents s → FitsAll c.tree.toList moves s →
    ∃ c', runAll moves c = .ok c' ∧ c'.tree = c.tree ∧
      c'.Represents (moves.foldl (fun s move => move.step c.tree.toList s) s) := by
  intro moves
  induction moves with
  | nil =>
    intro c s _ _ h _
    exact ⟨c, rfl, rfl, h⟩
  | cons move moves ih =>
    intro c s hr hheight h hfits
    obtain ⟨c₁, hrun, htree, h₁⟩ := run_spec move hr hheight h hfits.1
    obtain ⟨c', hruns, htree', h'⟩ := ih (htree ▸ hr) (htree ▸ hheight) h₁ (htree ▸ hfits.2)
    refine ⟨c', ?_, htree'.trans htree, by rw [htree] at h'; exact h'⟩
    rw [runAll, List.foldlM_cons, hrun]
    exact hruns

end Move

end Zui
