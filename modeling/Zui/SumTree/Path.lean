/-
Where a cursor stands in its tree.

The stack of a cursor is a path: each entry points at the child that the next
entry is about, and records the position at which that child starts.  `Path`
says so and names the items before and after the node that the path leads to.
On top of a path the loops of a cursor have one more entry, in one of three
forms:

* `Frontier` — between two children or items: what lies before has been dealt
  with, what lies behind is to come;
* `Returned` — at a child that the loop has just come back from;
* `OnItem` — at an item of a leaf, the form of a cursor at rest.

What is known of the positions is a parameter, `Pos done p`: the position `p` may
stand behind the items `done`.  It need only be kept by the steps that a cursor
takes (`Tracks`).  For a lawful dimension a position is determined by the items
before it (`Exactly`): accumulating from zero is an action of the summaries, as far
as it can be observed.  For any other dimension nothing is known (`Anyhow`), and
what remains is where the cursor is in the tree.
-/
import Mathlib
import Zui.SumTree.Cursor
import Zui.SumTree.Height

namespace Zui

/-- Accumulating from zero is an action of the summaries. -/
class LawfulDimension (D S : Type) [Zero S] [Add S] [Dimension D S] : Prop where
  add_zero : Dimension.addSummary (Dimension.zero S : D) (0 : S) = Dimension.zero S
  add_add : ∀ a b : S, Dimension.addSummary (Dimension.zero S : D) (a + b)
    = Dimension.addSummary (Dimension.addSummary (Dimension.zero S) a) b

instance LawfulDimension.self {S : Type} [Zero S] [Add S] [LawfulSummary S] :
    LawfulDimension S S where
  add_zero := LawfulSummary.zero_add 0
  add_add a b := (LawfulSummary.add_assoc 0 a b).symm

instance LawfulDimension.unit {S : Type} [Zero S] [Add S] : LawfulDimension Unit S where
  add_zero := rfl
  add_add _ _ := rfl

/-- The position behind some items: their summaries accumulated one by one. -/
def positionAfter {T S : Type} (D : Type) [Item T S] [Dimension D S] (xs : List T) : D :=
  xs.foldl (fun d x => Dimension.addSummary d (Item.summary x)) (Dimension.zero S)

section Position

variable {T S D : Type} [Item T S] [Dimension D S]

@[simp] theorem positionAfter_nil : positionAfter D ([] : List T) = Dimension.zero S := rfl

theorem positionAfter_concat (xs : List T) (x : T) :
    positionAfter D (xs ++ [x]) = Dimension.addSummary (positionAfter D xs) (Item.summary x) := by
  simp [positionAfter]

variable [Zero S] [Add S] [LawfulDimension D S]

theorem positionAfter_eq (xs : List T) :
    positionAfter D xs = Dimension.addSummary (Dimension.zero S) (sumItems xs : S) := by
  induction xs using List.reverseRecOn with
  | nil => exact LawfulDimension.add_zero.symm
  | append_singleton xs x ih => rw [positionAfter_concat, ih, sumItems_concat,
      LawfulDimension.add_add]

theorem positionAfter_append [LawfulSummary S] (xs : List T) {ys : List T} (h : ys ≠ []) :
    positionAfter D (xs ++ ys) = Dimension.addSummary (positionAfter D xs) (sumItems ys) := by
  rw [positionAfter_eq, sumItems_append _ h, LawfulDimension.add_add, positionAfter_eq]

end Position

namespace SumTree

variable {T S : Type} [Zero S] [Add S] [Item T S]

/-- The children of a valid internal node. -/
structure Children (h : ℕ) (ss : List S) (ts : List (SumTree T S)) : Prop where
  ne_nil : ts ≠ []
  length_le : ts.length ≤ 2 * TREE_BASE
  summaries : ss = ts.map summary
  wf : ∀ t ∈ ts, WF (h - 1) t
  height_pos : 0 < h

theorem Valid.children {h : ℕ} {s : S} {ss : List S} {ts : List (SumTree T S)}
    (ht : Valid (.internal h s ss ts)) : Children h ss ts := by
  rcases ht with hnew | ⟨h, hw⟩
  · exact absurd hnew (by simp [new])
  · cases hw with
    | internal hne hlen hts => exact ⟨hne, hlen, rfl, hts, Nat.succ_pos _⟩

theorem Valid.leafItems {s : S} {xs : List T} {ss : List S} (ht : Valid (.leaf s xs ss)) :
    xs.length ≤ 2 * TREE_BASE ∧ ss = xs.map Item.summary := by
  rcases ht with hnew | ⟨h, hw⟩
  · cases hnew
    exact ⟨Nat.zero_le _, rfl⟩
  · cases hw with
    | leaf hne hlen => exact ⟨hlen, rfl⟩

end SumTree

namespace Cursor

open SumTree

variable {T S D : Type}

section Tracks

variable [Zero S] [Add S] [Item T S] [Dimension D S]

/-- The relation `Pos` between items and the position behind them is kept when
items and subtrees are passed. -/
structure Tracks (Pos : List T → D → Prop) : Prop where
  zero : Pos [] (Dimension.zero S)
  item : ∀ {done p} (x : T), Pos done p →
    Pos (done ++ [x]) (Dimension.addSummary p (Item.summary x : S))
  tree : ∀ {done p h} {t : SumTree T S}, WF h t → Pos done p →
    Pos (done ++ t.toList) (Dimension.addSummary p t.summary)

/-- The position behind some items is the one that accumulates their summaries. -/
def Exactly (done : List T) (p : D) : Prop := p = positionAfter D done

/-- Nothing is known about positions. -/
def Anyhow (_ : List T) (_ : D) : Prop := True

theorem tracks_exactly [LawfulSummary S] [LawfulDimension D S] :
    Tracks (T := T) (S := S) (D := D) Exactly where
  zero := rfl
  item x h := by rw [Exactly, h, ← positionAfter_concat]
  tree ht h := by rw [Exactly, h, ht.summary_eq, ← positionAfter_append _ ht.toList_ne_nil]

theorem tracks_anyhow : Tracks (T := T) (S := S) (D := D) Anyhow where
  zero := trivial
  item _ _ := trivial
  tree _ _ := trivial

/-- Passing some items. -/
theorem Tracks.items {Pos : List T → D → Prop} (hpos : Tracks (S := S) Pos) :
    ∀ {xs done : List T} {p : D}, Pos done p →
      Pos (done ++ xs) ((xs.map (Item.summary (S := S))).foldl Dimension.addSummary p) := by
  intro xs
  induction xs with
  | nil =>
    intro done p h
    simpa using h
  | cons x xs ih =>
    intro done p h
    simpa using ih (hpos.item x h)

/-- Passing some sibling nodes. -/
theorem Tracks.children {Pos : List T → D → Prop} (hpos : Tracks (S := S) Pos) {h : ℕ} :
    ∀ {ts : List (SumTree T S)} {done : List T} {p : D}, (∀ t ∈ ts, WF h t) →
      Pos done p →
      Pos (done ++ listItems ts) ((ts.map SumTree.summary).foldl Dimension.addSummary p) := by
  intro ts
  induction ts with
  | nil =>
    intro done p _ h
    simpa using h
  | cons t ts ih =>
    intro done p hts h
    simpa using ih (fun u hu => hts u (by simp [hu])) (hpos.tree (hts t (by simp)) h)

end Tracks

/-- The entries `stack`, with the top first, lead from `root` to `node`; the items
of `node` come behind `pre` and before `post`. -/
inductive Path (Pos : List T → D → Prop) (root : SumTree T S) :
    List (StackEntry T S D) → SumTree T S → List T → List T → Prop
  | root : Path Pos root [] root [] []
  | down {stack : List (StackEntry T S D)} {h : ℕ} {s : S} {ss : List S}
      {l r : List (SumTree T S)} {c : SumTree T S} {pre post : List T} {p : D} :
      Path Pos root stack (.internal h s ss (l ++ c :: r)) pre post → Pos (pre ++ listItems l) p →
      Path Pos root (⟨.internal h s ss (l ++ c :: r), l.length, p⟩ :: stack)
        c (pre ++ listItems l) (listItems r ++ post)

/-- The top of the stack is between two children or items: `done` lies before,
`todo` behind. -/
inductive Frontier (Pos : List T → D → Prop) (root : SumTree T S) :
    List (StackEntry T S D) → List T → List T → Prop
  | internal {stack : List (StackEntry T S D)} {h : ℕ} {s : S} {ss : List S}
      {l r : List (SumTree T S)} {pre post : List T} {p : D} :
      Path Pos root stack (.internal h s ss (l ++ r)) pre post → Pos (pre ++ listItems l) p →
      Frontier Pos root (⟨.internal h s ss (l ++ r), l.length, p⟩ :: stack)
        (pre ++ listItems l) (listItems r ++ post)
  | leaf {stack : List (StackEntry T S D)} {s : S} {ss : List S} {l r pre post : List T} {p : D} :
      Path Pos root stack (.leaf s (l ++ r) ss) pre post →
      Frontier Pos root (⟨.leaf s (l ++ r) ss, l.length, p⟩ :: stack) (pre ++ l) (r ++ post)

/-- The top of the stack is at a child that has been dealt with: `done` lies up to
the end of that child, `todo` behind it. -/
inductive Returned (Pos : List T → D → Prop) (root : SumTree T S) :
    List (StackEntry T S D) → List T → List T → Prop
  | root : Returned Pos root [] root.toList []
  | child {stack : List (StackEntry T S D)} {h : ℕ} {s : S} {ss : List S}
      {l r : List (SumTree T S)} {c : SumTree T S} {pre post : List T} {p : D} :
      Path Pos root stack (.internal h s ss (l ++ c :: r)) pre post →
      Returned Pos root (⟨.internal h s ss (l ++ c :: r), l.length, p⟩ :: stack)
        (pre ++ listItems l ++ c.toList) (listItems r ++ post)

/-- The top of the stack is at the item `x` of a leaf. -/
inductive OnItem (Pos : List T → D → Prop) (root : SumTree T S) :
    List (StackEntry T S D) → List T → T → List T → Prop
  | leaf {stack : List (StackEntry T S D)} {s : S} {ss : List S} {l r pre post : List T} {x : T}
      {p : D} : Path Pos root stack (.leaf s (l ++ x :: r) ss) pre post →
      OnItem Pos root (⟨.leaf s (l ++ x :: r) ss, l.length, p⟩ :: stack) (pre ++ l) x (r ++ post)

variable {Pos : List T → D → Prop} {root node : SumTree T S} {stack : List (StackEntry T S D)}
  {pre post : List T}

/-! ### What a path leads to -/

theorem Path.items (hp : Path Pos root stack node pre post) :
    root.toList = pre ++ node.toList ++ post := by
  induction hp with
  | root => simp
  | down _ _ ih => simpa using ih

section Valid

variable [Zero S] [Add S] [Item T S]

theorem Path.parentPosition [Dimension D S] (hpos : Tracks (S := S) Pos)
    (hp : Path Pos root stack node pre post) :
    Pos pre (parentPosition stack) := by
  cases hp with
  | root => exact hpos.zero
  | down _ hp => exact hp

/-- The nodes on a path are well formed, and each is one level below its parent. -/
theorem Path.valid (hr : Valid root) (hp : Path Pos root stack node pre post) :
    Valid node ∧ stack.length + node.height = root.height := by
  induction hp with
  | root => exact ⟨hr, by simp⟩
  | @down stack h s ss l r c pre post p _ _ ih =>
    obtain ⟨hv, hlen⟩ := ih
    have hch := hv.children
    have hc : WF (h - 1) c := hch.wf c (by simp)
    have hpos := hch.height_pos
    refine ⟨hc.valid, ?_⟩
    rw [height_internal] at hlen
    rw [hc.height_eq, List.length_cons]
    omega

end Valid

theorem pushEntry_ok {entry : StackEntry T S D} (h : stack.length ≤ 15) :
    pushEntry stack entry = .ok (entry :: stack) :=
  if_pos (by omega)

/-! ### The forms of the top entry -/

theorem OnItem.items {done todo : List T} {x : T} (hf : OnItem Pos root stack done x todo) :
    root.toList = done ++ x :: todo := by
  cases hf with
  | leaf hp => simpa using hp.items

theorem Path.frontier (hp : Path Pos root stack node pre post) {p : D} (hpos : Pos pre p) :
    Frontier Pos root (⟨node, 0, p⟩ :: stack) pre (node.toList ++ post) := by
  match node, hp with
  | .internal h s ss cs, hp =>
    have := Frontier.internal (l := []) (r := cs) hp (by simpa using hpos)
    simpa using this
  | .leaf s xs ss, hp =>
    have := Frontier.leaf (l := []) (r := xs) (p := p) hp
    simpa using this

theorem OnItem.frontier {done todo : List T} {x : T} (hon : OnItem Pos root stack done x todo) :
    Frontier Pos root stack done (x :: todo) := by
  cases hon with
  | leaf hp => exact .leaf hp

theorem OnItem.stack_ne_nil {done todo : List T} {x : T} (hon : OnItem Pos root stack done x todo) :
    stack.isEmpty = false := by
  cases hon
  rfl

theorem Path.returned (hp : Path Pos root stack node pre post) :
    Returned Pos root stack (pre ++ node.toList) post := by
  cases hp with
  | root =>
    have hret : Returned Pos root [] root.toList [] := .root
    simpa using hret
  | down hp _ => exact .child hp

theorem Returned.frontier {entry : StackEntry T S D} {done todo : List T}
    (hr : Returned Pos root (entry :: stack) done todo) {q : D} (hq : Pos done q) :
    Frontier Pos root ({ entry with index := entry.index + 1, position := q } :: stack)
      done todo := by
  cases hr with
  | @child _ h s ss l r c pre post p hp =>
    have heq : l ++ c :: r = (l ++ [c]) ++ r := by simp
    rw [heq] at hp
    have := Frontier.internal hp (p := q) (by simpa using hq)
    simpa [← heq] using this

/-! ### The passes that are left -/

theorem weights_append (ts us : List (SumTree T S)) :
    weights (ts ++ us) = weights ts + weights us := by
  induction ts with
  | nil => simp [weights]
  | cons t ts ih =>
    rw [List.cons_append, weights, weights, ih]
    omega

theorem weights_drop_le (i : ℕ) (ts : List (SumTree T S)) : weights (ts.drop i) ≤ weights ts := by
  have h := weights_append (ts.take i) (ts.drop i)
  rw [List.take_append_drop] at h
  omega

/-- The forward passes that are left in a node, from the child at an index on. -/
def remaining : SumTree T S → ℕ → ℕ
  | .internal _ _ _ childTrees, i => weights (childTrees.drop i) + 1
  | .leaf .., _ => 1

theorem remaining_internal (h : ℕ) (s : S) (ss : List S) (cs : List (SumTree T S)) (i : ℕ) :
    remaining (.internal h s ss cs) i = weights (cs.drop i) + 1 := rfl

/-- The forward passes that are left behind the children that a stack points at. -/
def ahead (stack : List (StackEntry T S D)) : ℕ :=
  (stack.map fun entry => remaining entry.tree (entry.index + 1)).sum

/-- The forward passes that are left when the child on top is still to come. -/
def aheadOfTop : List (StackEntry T S D) → ℕ
  | [] => 0
  | entry :: rest => remaining entry.tree entry.index + ahead rest

theorem remaining_le (t : SumTree T S) (i : ℕ) : remaining t i ≤ t.weight := by
  cases t with
  | internal h s ss cs =>
    rw [remaining, weight]
    exact Nat.succ_le_succ (weights_drop_le i cs)
  | leaf s xs ss =>
    rw [remaining, weight]
    omega

theorem remaining_zero_le (t : SumTree T S) : remaining t 0 ≤ t.weight := remaining_le t 0

theorem ahead_lt (stack : List (StackEntry T S D)) : ahead stack < stackFuel stack := by
  rw [stackFuel, Nat.lt_succ_iff, ahead]
  exact List.sum_le_sum fun entry _ => remaining_le entry.tree _

theorem aheadOfTop_lt (stack : List (StackEntry T S D)) : aheadOfTop stack < stackFuel stack := by
  cases stack with
  | nil => simp [aheadOfTop, stackFuel]
  | cons entry rest =>
    have hrest := ahead_lt rest
    have htop := remaining_le entry.tree entry.index
    rw [aheadOfTop]
    simp only [stackFuel, List.map_cons, List.sum_cons] at hrest ⊢
    omega

theorem aheadOfTop_push {h : ℕ} {s : S} {ss : List S} {l m r : List (SumTree T S)}
    {c : SumTree T S} {p q q' : D} (rest : List (StackEntry T S D)) :
    aheadOfTop (⟨c, 0, p⟩ :: ⟨.internal h s ss (l ++ (m ++ c :: r)),
      l.length + m.length, q⟩ :: rest)
      < aheadOfTop (⟨.internal h s ss (l ++ (m ++ c :: r)), l.length, q'⟩ :: rest) := by
  have hc := remaining_zero_le c
  have hdrop : (l ++ (m ++ c :: r)).drop (l.length + m.length + 1) = r := by
    have heq : l ++ (m ++ c :: r) = (l ++ m ++ [c]) ++ r := by simp
    rw [heq]
    exact List.drop_left' (by simp [Nat.add_assoc])
  have hdrop' : (l ++ (m ++ c :: r)).drop l.length = m ++ c :: r := List.drop_left' rfl
  simp only [aheadOfTop, ahead, List.map_cons, List.sum_cons, remaining_internal, hdrop, hdrop']
  rw [weights_append, weights]
  omega

theorem remaining_pos (t : SumTree T S) (i : ℕ) : 0 < remaining t i := by
  cases t <;> simp [remaining]

end Cursor

end Zui
