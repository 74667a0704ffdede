/-
The batches of a scene.

Every batch takes a run of one kind that stands before all the primitives of the other kinds and
before the next blur.  Drawing a finished scene is thus a merge of its vectors.

Main statements:

* `BatchIterator.next_spec` — what a batch takes;
* `BatchIterator.not_shown_of_next_eq_none` — the primitives that are in no batch have the order
  `u32::MAX`;
* `drawScene_merge` — drawing is a merge of the vectors.
-/
import Zui.DrawOrder.Basic
import Zui.Library.Merge

namespace Zui

open Gpui (Bounds BoundsTree AtlasTile Result u32Max index index_ok)

namespace DrawOrder

variable {U D : Type}

/-! ### Orders and kinds -/

theorem PrimitiveKind.rank_injective {a b : PrimitiveKind} (h : a.rank = b.rank) : a = b := by
  cases a <;> cases b <;> first | rfl | exact absurd h (by decide)

theorem PrimitiveKind.rank_pos {kind : PrimitiveKind} (h : kind ≠ .shadow) : 0 < kind.rank :=
  Nat.pos_of_ne_zero fun hrank => h (PrimitiveKind.rank_injective hrank)

theorem PrimitiveKind.mem_all (kind : PrimitiveKind) : kind ∈ PrimitiveKind.all := by
  cases kind <;> decide

theorem PrimitiveKind.nodup_all : PrimitiveKind.all.Nodup := by decide

/-- The order of what is drawn: by the draw orders, the blurs before the primitives, and these by
their kinds. -/
def Drawn.key : Drawn U D → ℕ × ℕ
  | .primitive p => (p.order, p.kind.rank + 1)
  | .backdropBlur b => (b.order, 0)

/-- One may be drawn before the other. -/
def Drawn.Le (a b : Drawn U D) : Prop := Scene.keyLe a.key b.key

/-- The draw order. -/
def Drawn.order : Drawn U D → ℕ
  | .primitive p => p.order
  | .backdropBlur b => b.order

theorem Drawn.key_fst (x : Drawn U D) : x.key.1 = x.order := by
  cases x <;> rfl

theorem Drawn.order_le_of_le {x y : Drawn U D} (h : Le x y) : x.order ≤ y.order := by
  rw [Le, Scene.keyLe, key_fst, key_fst] at h
  omega

/-- The vector that it is in: that of its kind, or that of the blurs. -/
def Drawn.slot : Drawn U D → Option PrimitiveKind
  | .primitive p => some p.kind
  | .backdropBlur _ => none

/-- A batch with the order `u32::MAX` is behind an empty kind, unless it is of the first kind. -/
def Drawn.Shown (x : Drawn U D) : Prop :=
  x.order < u32Max ∨ x.slot = none ∨ x.slot = some .shadow

namespace BatchIterator

/-- The relation that `orders_and_kinds` is sorted by. -/
def EntryLe (a b : Option ℕ × PrimitiveKind) : Prop :=
  ¬ OrderAndKindLt (b.1.getD u32Max, b.2) (a.1.getD u32Max, a.2)

instance : DecidableRel EntryLe := fun _ _ => inferInstanceAs (Decidable (¬ _))

instance : Std.Total EntryLe where
  total a b := by
    simp only [EntryLe, OrderAndKindLt]
    omega

instance : IsTrans (Option ℕ × PrimitiveKind) EntryLe where
  trans a b c := by
    simp only [EntryLe, OrderAndKindLt]
    omega

/-- The entry of a kind. -/
def entry (self : BatchIterator U D) (kind : PrimitiveKind) : Option ℕ × PrimitiveKind :=
  ((self.iters kind).head?.map Primitive.order, kind)

theorem ordersAndKinds_perm (it : BatchIterator U D) :
    it.ordersAndKinds.Perm (PrimitiveKind.all.map it.entry) :=
  List.perm_insertionSort _ _

theorem ordersAndKinds_pairwise (it : BatchIterator U D) : it.ordersAndKinds.Pairwise EntryLe :=
  List.pairwise_insertionSort EntryLe _

theorem entry_mem (it : BatchIterator U D) (kind : PrimitiveKind) :
    it.entry kind ∈ it.ordersAndKinds :=
  it.ordersAndKinds_perm.mem_iff.mpr (List.mem_map_of_mem kind.mem_all)

theorem eq_entry_of_mem {it : BatchIterator U D} {e : Option ℕ × PrimitiveKind}
    (h : e ∈ it.ordersAndKinds) : e = it.entry e.2 := by
  obtain ⟨kind, -, rfl⟩ := List.mem_map.mp (it.ordersAndKinds_perm.mem_iff.mp h)
  rfl

/-! ### Batches -/

/-- An iterator over a finished scene. -/
structure Valid (scene : Scene U D) (it : BatchIterator U D) : Prop where
  iters : ∀ kind, it.iters kind = (scene.primitives kind).drop (it.starts kind)
  kinds : ∀ kind, ∀ p ∈ it.iters kind, p.kind = kind
  sorted : ∀ kind, (it.iters kind).Pairwise fun p q => p.order ≤ q.order
  order_le : ∀ kind, ∀ p ∈ it.iters kind, p.order ≤ u32Max
  blurs : it.backdropBlursIter.Pairwise fun b c => b.order ≤ c.order
  blurs_le : ∀ blur ∈ it.backdropBlursIter, blur.order ≤ u32Max

/-- What a batch takes: a run of its kind that stands before the other kinds and the next blurs. -/
structure Takes (scene : Scene U D) (it : BatchIterator U D) (batch : PrimitiveBatch)
    (it' : BatchIterator U D) (first : Primitive U D) (run : List (Primitive U D)) : Prop where
  start : batch.start = it.starts batch.kind
  firstOrder : batch.firstOrder scene = .ok first.order
  primitives : batch.primitives scene = first :: run
  split : it.iters batch.kind = (first :: run) ++ it'.iters batch.kind
  others : ∀ kind ≠ batch.kind, it'.iters kind = it.iters kind
  blurs : it'.backdropBlursIter =
    it.backdropBlursIter.dropWhile fun blur => blur.order ≤ first.order
  before : ∀ kind ≠ batch.kind, ∀ y ∈ it.iters kind, ∀ x ∈ first :: run,
    Drawn.Le (.primitive x) (.primitive y)
  first_le : ∀ kind, ∀ y ∈ it.iters kind, first.order ≤ y.order
  before_blurs : ∀ x ∈ first :: run, ∀ blur ∈ it'.backdropBlursIter, x.order < blur.order
  shown : ∀ x ∈ first :: run, (Drawn.primitive x).Shown
  texture : ∀ x ∈ first :: run, batch.textureId =
    if batch.kind.isSprite then some x.tile.textureId else none
  valid : Valid scene it'

/-- The first entry is before the second one, and this one before those of the other kinds. -/
theorem entries_spec {it : BatchIterator U D} {e e' : Option ℕ × PrimitiveKind}
    {es : List (Option ℕ × PrimitiveKind)} (h : it.ordersAndKinds = e :: e' :: es) :
    e = it.entry e.2 ∧ EntryLe e e' ∧ ∀ kind ≠ e.2, EntryLe e' (it.entry kind) := by
  have hpairwise := it.ordersAndKinds_pairwise
  rw [h, List.pairwise_cons, List.pairwise_cons] at hpairwise
  obtain ⟨hfirst, hsecond, -⟩ := hpairwise
  refine ⟨eq_entry_of_mem (h ▸ List.mem_cons_self), hfirst e' List.mem_cons_self, ?_⟩
  intro kind hkind
  have hmem : it.entry kind ∈ e :: e' :: es := h ▸ it.entry_mem kind
  rcases List.mem_cons.mp hmem with heq | hmem
  · exact absurd (congrArg Prod.snd heq) hkind
  rcases List.mem_cons.mp hmem with heq | hmem
  · rw [heq]
    exact (Std.Total.total e' e').elim id id
  · exact hsecond _ hmem

/-- An entry that is before that of a kind is before all of its primitives. -/
theorem not_lt_of_entryLe {scene : Scene U D} {it : BatchIterator U D} (h : Valid scene it)
    {e : Option ℕ × PrimitiveKind} {kind : PrimitiveKind} (hle : EntryLe e (it.entry kind))
    {y : Primitive U D} (hy : y ∈ it.iters kind) :
    ¬ OrderAndKindLt (y.order, kind) (e.1.getD u32Max, e.2) := by
  have hsorted := h.sorted kind
  simp only [EntryLe, entry] at hle
  cases hiter : it.iters kind with
  | nil =>
    rw [hiter] at hy
    exact absurd hy List.not_mem_nil
  | cons p ps =>
    rw [hiter] at hy hle hsorted
    have hp : p.order ≤ y.order := by
      rcases List.mem_cons.mp hy with rfl | hy
      · exact le_rfl
      · exact (List.pairwise_cons.mp hsorted).1 y hy
    simp only [List.head?_cons, Option.map_some, Option.getD_some, OrderAndKindLt] at hle ⊢
    omega

theorem lt_of_lt_min {a b c : ℕ × PrimitiveKind} (h : OrderAndKindLt a (minOrderAndKind b c)) :
    OrderAndKindLt a b ∧ OrderAndKindLt a c := by
  simp only [minOrderAndKind] at h
  split_ifs at h with hlt
  all_goals
    simp only [OrderAndKindLt] at *
    omega

/-- The bound of a batch keeps it before the other kinds and before the blurs that are left. -/
theorem lt_of_lt_bound {a : ℕ × PrimitiveKind} {second : Option ℕ × PrimitiveKind}
    {blurs : List (BackdropBlur U D)} (hblurs : blurs.Pairwise fun b c => b.order ≤ c.order)
    (h : OrderAndKindLt a (maxOrderAndKind second blurs)) :
    OrderAndKindLt a (second.1.getD u32Max, second.2) ∧ ∀ blur ∈ blurs, a.1 < blur.order := by
  cases blurs with
  | nil => exact ⟨h, by simp⟩
  | cons blur blurs =>
    obtain ⟨hsecond, hblur⟩ := lt_of_lt_min h
    have hlt : a.1 < blur.order := by
      simp only [OrderAndKindLt, PrimitiveKind.rank] at hblur
      omega
    refine ⟨hsecond, fun b hb => ?_⟩
    rcases List.mem_cons.mp hb with rfl | hb
    · exact hlt
    · exact hlt.trans_le ((List.pairwise_cons.mp hblurs).1 b hb)

theorem lt_of_mem_dropWhile {blurs : List (BackdropBlur U D)} {order : ℕ}
    (hblurs : blurs.Pairwise fun b c => b.order ≤ c.order) :
    ∀ blur ∈ blurs.dropWhile (fun blur => blur.order ≤ order), order < blur.order := by
  induction blurs with
  | nil => simp
  | cons b blurs ih =>
    rw [List.dropWhile_cons]
    split_ifs with hle
    · exact ih (List.pairwise_cons.mp hblurs).2
    · intro blur hblur
      have hlt : order < b.order := by simpa using hle
      rcases List.mem_cons.mp hblur with rfl | hblur
      · exact hlt
      · exact hlt.trans_le ((List.pairwise_cons.mp hblurs).1 blur hblur)

theorem entry_snd (it : BatchIterator U D) (kind : PrimitiveKind) : (it.entry kind).2 = kind := rfl

theorem entry_le {scene : Scene U D} {it : BatchIterator U D} (h : Valid scene it)
    (kind : PrimitiveKind) : (it.entry kind).1.getD u32Max ≤ u32Max := by
  cases hiter : it.iters kind with
  | nil => simp [entry, hiter]
  | cons p ps =>
    have hp := h.order_le kind p (hiter ▸ List.mem_cons_self)
    simpa [entry, hiter] using hp

theorem primitives_of_drop {scene : Scene U D} {batch : PrimitiveBatch}
    {first : Primitive U D} {run back : List (Primitive U D)}
    (hdrop : (scene.primitives batch.kind).drop batch.start = (first :: run) ++ back)
    (hstop : batch.stop = batch.start + 1 + run.length) :
    batch.firstOrder scene = .ok first.order ∧ batch.primitives scene = first :: run := by
  constructor
  · have hget : (scene.primitives batch.kind)[batch.start]? = some first := by
      rw [← List.head?_drop, hdrop, List.cons_append, List.head?_cons]
    rw [PrimitiveBatch.firstOrder, index_ok hget]
    rfl
  · have hlength : batch.stop - batch.start = (first :: run).length := by
      rw [List.length_cons]
      omega
    rw [PrimitiveBatch.primitives, List.drop_take, hdrop, hlength, List.take_left]

/-- An iterator stays valid when a run is taken. -/
theorem Valid.take {scene : Scene U D} {it : BatchIterator U D} (h : Valid scene it)
    {kind : PrimitiveKind} {first : Primitive U D} {run back : List (Primitive U D)}
    (hiter : it.iters kind = (first :: run) ++ back) {blurs : List (BackdropBlur U D)}
    (hblurs : blurs.Sublist it.backdropBlursIter) :
    Valid scene
      { starts := Function.update it.starts kind (it.starts kind + 1 + run.length)
        iters := Function.update it.iters kind back
        backdropBlursIter := blurs } := by
  have hback : back.Sublist (it.iters kind) := hiter ▸ List.sublist_append_right _ _
  have hsub : ∀ k, (Function.update it.iters kind back k).Sublist (it.iters k) := by
    intro k
    rw [Function.update_apply]
    split_ifs with hk
    · exact hk ▸ hback
    · exact .refl _
  refine ⟨fun k => ?_, fun k p hp => h.kinds k p ((hsub k).subset hp),
    fun k => (h.sorted k).sublist (hsub k), fun k p hp => h.order_le k p ((hsub k).subset hp),
      h.blurs.sublist hblurs,
    fun blur hblur => h.blurs_le blur (hblurs.subset hblur)⟩
  by_cases hk : k = kind
  · subst hk
    have hlength : it.starts k + 1 + run.length = it.starts k + (first :: run).length := by
      rw [List.length_cons]
      omega
    simp only [Function.update_self]
    rw [hlength, ← List.drop_drop, ← h.iters, hiter, List.drop_left]
  · simp only [Function.update_of_ne hk]
    exact h.iters k

/-- What the next batch takes. -/
theorem next_spec {scene : Scene U D} {it it' : BatchIterator U D} {batch : PrimitiveBatch}
    (h : Valid scene it) (hnext : it.next = some (batch, it')) :
    ∃ first run, Takes scene it batch it' first run := by
  rw [next] at hnext
  split at hnext
  · rename_i firstOrder batchKind second es hentries
    obtain ⟨hfirst, hle, hothers⟩ := entries_spec hentries
    have hhead : (it.iters batchKind).head?.map Primitive.order = some firstOrder :=
      (congrArg Prod.fst hfirst).symm
    dsimp only at hnext
    cases hiter : it.iters batchKind with
    | nil => simp [hiter] at hhead
    | cons first rest =>
      rw [hiter] at hnext hhead
      obtain rfl : first.order = firstOrder := by simpa using hhead
      obtain ⟨rfl, rfl⟩ := Prod.mk.inj (Option.some.inj hnext)
      set blurs := it.backdropBlursIter.dropWhile fun blur => blur.order ≤ first.order with hblurs
      have hsub : blurs.Sublist it.backdropBlursIter := List.dropWhile_sublist _
      have hblursSorted : blurs.Pairwise fun b c => b.order ≤ c.order := h.blurs.sublist hsub
      set textureId := if batchKind.isSprite then some first.tile.textureId else none
      set follow := follows (D := D) (U := U) batchKind (maxOrderAndKind second blurs) textureId
      set run := rest.takeWhile follow with hrun
      set back := rest.dropWhile follow with hback
      have hrest : rest = run ++ back := (List.takeWhile_append_dropWhile).symm
      have hdrop : (scene.primitives batchKind).drop (it.starts batchKind) =
          (first :: run) ++ back := by
        rw [← h.iters, hiter, hrest, List.cons_append]
      -- a primitive of the run is before the second entry and the next blur
      have hfollow : ∀ x ∈ run, follow x = true := fun x hx => List.mem_takeWhile_imp hx
      have hbound : ∀ x ∈ run, OrderAndKindLt (x.order, batchKind)
        (maxOrderAndKind second blurs) := by
        intro x hx
        have hx := hfollow x hx
        simp only [follow, follows, Bool.and_eq_true, decide_eq_true_eq] at hx
        exact hx.1
      have hmem : ∀ x ∈ first :: run, x ∈ it.iters batchKind := by
        intro x hx
        rw [hiter, hrest]
        rcases List.mem_cons.mp hx with rfl | hx
        · exact List.mem_cons_self
        · exact List.mem_cons_of_mem _ (List.mem_append_left _ hx)
      -- what the batch takes is before the entries of the other kinds
      have hentry : ∀ kind ≠ batchKind, ∀ x ∈ first :: run,
          EntryLe (some x.order, batchKind) (it.entry kind) := by
        intro kind hkind x hx
        have hsecond := hothers kind hkind
        rcases List.mem_cons.mp hx with rfl | hx
        · exact IsTrans.trans (r := EntryLe) _ _ _ hle hsecond
        · have hlt := (lt_of_lt_bound hblursSorted (hbound x hx)).1
          simp only [EntryLe, OrderAndKindLt, Option.getD_some] at hlt hsecond ⊢
          omega
      obtain ⟨horder, hprimitives⟩ := primitives_of_drop hdrop
        (show (⟨batchKind, textureId, it.starts batchKind, it.starts batchKind + 1 + run.length⟩ :
          PrimitiveBatch).stop = it.starts batchKind + 1 + run.length from rfl)
      refine ⟨first, run, rfl, horder, hprimitives, ?_, ?_, rfl, ?_, ?_, ?_, ?_, ?_, ?_⟩
      case refine_1 =>
        show it.iters batchKind = (first :: run) ++
          Function.update it.iters batchKind back batchKind
        rw [Function.update_self, hiter, hrest, List.cons_append]
      case refine_2 => exact fun kind hkind => Function.update_of_ne hkind _ _
      case refine_3 =>
        intro kind hkind y hy x hx
        have hxy := not_lt_of_entryLe h (hentry kind hkind x hx) hy
        show Scene.keyLe (x.order, x.kind.rank + 1) (y.order, y.kind.rank + 1)
        rw [h.kinds kind y hy, h.kinds batchKind x (hmem x hx)]
        simp only [OrderAndKindLt, Scene.keyLe, Option.getD_some] at hxy ⊢
        omega
      case refine_4 =>
        intro kind y hy
        by_cases hkind : kind = batchKind
        · subst hkind
          have hsorted := h.sorted kind
          rw [hiter] at hy hsorted
          rcases List.mem_cons.mp hy with rfl | hy
          · exact le_rfl
          · exact (List.pairwise_cons.mp hsorted).1 y hy
        · have hlt := not_lt_of_entryLe h (hentry kind hkind first List.mem_cons_self) hy
          simp only [OrderAndKindLt, Option.getD_some] at hlt
          omega
      case refine_5 =>
        intro x hx
        rcases List.mem_cons.mp hx with rfl | hx
        · exact lt_of_mem_dropWhile h.blurs
        · exact (lt_of_lt_bound hblursSorted (hbound x hx)).2
      case refine_6 =>
        intro x hx
        by_cases hkind : batchKind = .shadow
        · right; right
          exact congrArg some ((h.kinds batchKind x (hmem x hx)).trans hkind)
        · left
          -- the entry of the first kind is not before the batch
          have hshadow := entry_le h .shadow
          have hle := hentry .shadow (Ne.symm hkind) x hx
          have hrank := PrimitiveKind.rank_pos hkind
          have hzero : PrimitiveKind.shadow.rank = 0 := rfl
          simp only [EntryLe, OrderAndKindLt, Option.getD_some, entry_snd, hzero] at hle
          show x.order < u32Max
          omega
      case refine_7 =>
        intro x hx
        rcases List.mem_cons.mp hx with rfl | hx
        · rfl
        · have hx := hfollow x hx
          simp only [follow, follows, textureId, Bool.and_eq_true] at hx ⊢
          split_ifs at hx ⊢
          · simpa using hx.2
          · rfl
      case refine_8 =>
        exact h.take (by rw [hiter, hrest, List.cons_append]) hsub
  · exact absurd hnext (by simp)

/-- The primitives that are in no batch have the order `u32::MAX`. -/
theorem not_shown_of_next_eq_none {scene : Scene U D} {it : BatchIterator U D} (h : Valid scene it)
    (hnext : it.next = none) : ∀ kind, ∀ y ∈ it.iters kind, ¬ (Drawn.primitive y).Shown := by
  intro kind y hy
  rw [next] at hnext
  split at hnext
  · rename_i firstOrder batchKind second es hentries
    obtain ⟨hfirst, -, -⟩ := entries_spec hentries
    have hhead : (it.iters batchKind).head?.map Primitive.order = some firstOrder :=
      (congrArg Prod.fst hfirst).symm
    dsimp only at hnext
    split at hnext
    · rename_i hiter
      simp [hiter] at hhead
    · exact absurd hnext (by simp)
  · rename_i hnone
    -- the first entry has no order, and is before every other one
    have hlength : it.ordersAndKinds.length = 8 := it.ordersAndKinds_perm.length_eq
    have hpairwise := it.ordersAndKinds_pairwise
    rcases hentries : it.ordersAndKinds with - | ⟨⟨order, kind₀⟩, - | ⟨second, es⟩⟩
    · simp [hentries] at hlength
    · simp [hentries] at hlength
    cases order with
    | some order => exact absurd hentries (hnone order kind₀ second es)
    | none =>
      rw [hentries] at hpairwise
      have hle : ∀ k, EntryLe (none, kind₀) (it.entry k) := by
        intro k
        have hmem : it.entry k ∈ (none, kind₀) :: second :: es := hentries ▸ it.entry_mem k
        rcases List.mem_cons.mp hmem with heq | hmem
        · rw [heq]
          exact (Std.Total.total (none, kind₀) (none, kind₀)).elim id id
        · exact (List.pairwise_cons.mp hpairwise).1 _ hmem
      have hlt := not_lt_of_entryLe h (hle kind) hy
      have hshadow := hle .shadow
      have hmax := entry_le h .shadow
      have hzero : PrimitiveKind.shadow.rank = 0 := rfl
      simp only [Option.getD_none, OrderAndKindLt] at hlt
      simp only [EntryLe, OrderAndKindLt, Option.getD_none, entry_snd, hzero] at hshadow
      -- so the first entry is that of the shadows
      have hkind₀ : kind₀ = .shadow := PrimitiveKind.rank_injective (by omega)
      subst hkind₀
      rintro (hy' | hy' | hy')
      · exact hlt (Or.inl hy')
      · cases hy'
      · have hkind := h.kinds kind y hy
        obtain rfl : kind = .shadow := hkind.symm.trans (Option.some.inj hy')
        have hentry := (eq_entry_of_mem (hentries ▸ List.mem_cons_self) :
          (none, PrimitiveKind.shadow) = it.entry .shadow)
        have hnil : it.iters .shadow = [] := by
          simpa [entry] using (congrArg Prod.fst hentry).symm
        rw [hnil] at hy
        cases hy

/-! ### All the batches -/

/-- The batches that an iterator gives until it has no more. -/
inductive Gives : BatchIterator U D → List PrimitiveBatch → BatchIterator U D → Prop
  | stop {it : BatchIterator U D} : it.next = none → Gives it [] it
  | next {it it' last : BatchIterator U D} {batch : PrimitiveBatch}
      {batches : List PrimitiveBatch} :
      it.next = some (batch, it') → Gives it' batches last → Gives it (batch :: batches) last

/-- The number of primitives that are left. -/
def remaining (it : BatchIterator U D) : ℕ :=
  (PrimitiveKind.all.map fun kind => (it.iters kind).length).sum

theorem remaining_of_takes {scene : Scene U D} {it it' : BatchIterator U D} {batch : PrimitiveBatch}
    {first : Primitive U D} {run : List (Primitive U D)} (h : Takes scene it batch it' first run) :
    it.remaining = (first :: run).length + it'.remaining := by
  have hiters : Function.update it.iters batch.kind (it'.iters batch.kind) = it'.iters := by
    funext kind
    rw [Function.update_apply]
    split_ifs with hkind
    · rw [hkind]
    · exact (h.others kind hkind).symm
  have hperm := Merge.flatMap_update PrimitiveKind.nodup_all
    (PrimitiveKind.mem_all batch.kind) h.split
  have hlength := hperm.length_eq
  rw [hiters, List.length_append, List.length_flatMap, List.length_flatMap] at hlength
  exact hlength

theorem collect_gives {scene : Scene U D} {it : BatchIterator U D} (h : Valid scene it) {fuel : ℕ}
    (hfuel : it.remaining ≤ fuel) : ∃ last, Gives it (it.collect fuel) last := by
  induction fuel generalizing it with
  | zero =>
    refine ⟨it, .stop ?_⟩
    cases hnext : it.next with
    | none => rfl
    | some taken =>
      obtain ⟨first, run, htakes⟩ := next_spec h hnext
      have hremaining := remaining_of_takes htakes
      rw [List.length_cons] at hremaining
      omega
  | succ fuel ih =>
    rw [collect]
    cases hnext : it.next with
    | none => exact ⟨it, .stop hnext⟩
    | some taken =>
      obtain ⟨first, run, htakes⟩ := next_spec h hnext
      have hremaining := remaining_of_takes htakes
      rw [List.length_cons] at hremaining
      obtain ⟨last, hlast⟩ := ih htakes.valid (by omega)
      exact ⟨last, .next hnext hlast⟩

/-! ### Drawing -/

/-- What an iterator has yet to give, and the blurs among it. -/
def vectors (it : BatchIterator U D) : Option PrimitiveKind → List (Drawn U D)
  | none => it.backdropBlursIter.map .backdropBlur
  | some kind => (it.iters kind).map .primitive

/-- Drawing the batches of an iterator is a merge of what it has to give. -/
theorem drawBatches_merge {scene : Scene U D} {it last : BatchIterator U D}
    {batches : List PrimitiveBatch} (h : Valid scene it) (hgives : Gives it batches last) :
    ∃ out left, drawBatches scene batches it.backdropBlursIter = .ok out ∧
      Merge Drawn.Le it.vectors out left ∧ left none = [] ∧ (∀ x ∈ out, x.Shown) ∧
      ∀ kind, ∀ x ∈ left (some kind), ¬ x.Shown := by
  induction hgives with
  | @stop it hnext =>
    have hleft := not_shown_of_next_eq_none h hnext
    refine ⟨_, Function.update it.vectors none [], rfl, ?_, Function.update_self _ _ _, ?_, ?_⟩
    · -- the blurs that are left are drawn, before the primitives that never are
      have hmerge : Merge Drawn.Le it.vectors (it.vectors none ++ [])
          (Function.update it.vectors none []) := by
        refine .run (List.append_nil _).symm ?_ (.stop _)
        intro x hx j hj y hy
        obtain ⟨blur, hblur, rfl⟩ := List.mem_map.mp hx
        cases j with
        | none => exact absurd rfl hj
        | some kind =>
          obtain ⟨p, hp, rfl⟩ := List.mem_map.mp hy
          have hp : u32Max ≤ p.order := not_lt.mp fun hlt => hleft kind p hp (Or.inl hlt)
          have hb := h.blurs_le blur hblur
          simp only [Drawn.Le, Scene.keyLe, Drawn.key]
          omega
      rwa [List.append_nil] at hmerge
    · intro x hx
      obtain ⟨blur, -, rfl⟩ := List.mem_map.mp hx
      exact Or.inr (Or.inl rfl)
    · intro kind x hx
      rw [Function.update_of_ne (Option.some_ne_none kind)] at hx
      obtain ⟨p, hp, rfl⟩ := List.mem_map.mp hx
      exact hleft kind p hp
  | @next it it' last batch batches hnext _ ih =>
    obtain ⟨first, run, htakes⟩ := next_spec h hnext
    obtain ⟨out, left, hdraw, hmerge, hblurs, hshown, hleft⟩ := ih htakes.valid
    -- the lists without the blurs that are due and the batch are those of the next state
    have hlists : Function.update
        (Function.update it.vectors none (it'.backdropBlursIter.map .backdropBlur))
          (some batch.kind)
        ((it'.iters batch.kind).map .primitive) = it'.vectors := by
      funext j
      cases j with
      | none => rw [Function.update_of_ne (Option.some_ne_none _).symm,
          Function.update_self, vectors]
      | some kind =>
        by_cases hkind : kind = batch.kind
        · rw [hkind, Function.update_self, vectors]
        · have hne : some kind ≠ some batch.kind := fun heq => hkind (Option.some.inj heq)
          rw [Function.update_of_ne hne, Function.update_of_ne (Option.some_ne_none kind), vectors,
            vectors, htakes.others kind hkind]
    -- the blurs that are due are drawn first, then the batch
    have hdraw : drawBatches scene (batch :: batches) it.backdropBlursIter =
        .ok ((it.backdropBlursIter.takeWhile fun blur => blur.order ≤ first.order).map
          .backdropBlur ++
          (first :: run).map .primitive ++ out) := by
      rw [drawBatches, htakes.firstOrder]
      simp only [ok_bind, ← htakes.blurs, hdraw, htakes.primitives]
    refine ⟨_, left, hdraw, ?_, hblurs, ?_, hleft⟩
    case refine_2 =>
      intro x hx
      rcases List.mem_append.mp hx with hx | hx
      · rcases List.mem_append.mp hx with hx | hx
        · obtain ⟨blur, -, rfl⟩ := List.mem_map.mp hx
          exact Or.inr (Or.inl rfl)
        · obtain ⟨p, hp, rfl⟩ := List.mem_map.mp hx
          exact htakes.shown p hp
      · exact hshown x hx
    rw [List.append_assoc]
    refine .run (k := none) ?_ ?_ (.run (k := some batch.kind) ?_ ?_ (hlists ▸ hmerge))
    · show it.backdropBlursIter.map Drawn.backdropBlur = _
      rw [htakes.blurs, ← List.map_append, List.takeWhile_append_dropWhile]
    · -- the blurs that are due come before every primitive
      intro x hx j hj y hy
      obtain ⟨blur, hblur, rfl⟩ := List.mem_map.mp hx
      have hdue : blur.order ≤ first.order := by simpa using List.mem_takeWhile_imp hblur
      cases j with
      | none => exact absurd rfl hj
      | some kind =>
        obtain ⟨p, hp, rfl⟩ := List.mem_map.mp hy
        have hle := htakes.first_le kind p hp
        simp only [Drawn.Le, Scene.keyLe, Drawn.key]
        omega
    · rw [Function.update_of_ne (Option.some_ne_none _)]
      show (it.iters batch.kind).map Drawn.primitive = _
      rw [htakes.split, List.map_append]
    · -- the batch comes before the blurs that are left, and before the other kinds
      intro x hx j hj y hy
      obtain ⟨p, hp, rfl⟩ := List.mem_map.mp hx
      cases j with
      | none =>
        rw [Function.update_self] at hy
        obtain ⟨blur, hblur, rfl⟩ := List.mem_map.mp hy
        have hlt := htakes.before_blurs p hp blur hblur
        simp only [Drawn.Le, Scene.keyLe, Drawn.key]
        omega
      | some kind =>
        rw [Function.update_of_ne (Option.some_ne_none kind)] at hy
        obtain ⟨q, hq, rfl⟩ := List.mem_map.mp hy
        exact htakes.before kind (fun heq => hj (congrArg some heq)) q hq p hp

end BatchIterator

/-! ### Finished scenes -/

/-- The vectors of a scene hold primitives of their own kinds, and its orders fit. -/
structure Scene.WellFormed (scene : Scene U D) : Prop where
  kinds : ∀ kind, ∀ p ∈ scene.primitives kind, p.kind = kind
  order_le : ∀ kind, ∀ p ∈ scene.primitives kind, p.order ≤ u32Max
  blurs_le : ∀ blur ∈ scene.backdropBlurs, blur.order ≤ u32Max

namespace Scene

theorem finish_primitives_perm (scene : Scene U D) (kind : PrimitiveKind) :
    (scene.finish.primitives kind).Perm (scene.primitives kind) :=
  List.perm_insertionSort _ _

theorem finish_backdropBlurs_perm (scene : Scene U D) :
    scene.finish.backdropBlurs.Perm scene.backdropBlurs :=
  List.perm_insertionSort _ _

theorem finish_primitives_pairwise (scene : Scene U D) (kind : PrimitiveKind) :
    (scene.finish.primitives kind).Pairwise fun p q => p.order ≤ q.order := by
  have htotal : Std.Total fun a b : Primitive U D => keyLe (sortKey a) (sortKey b) := by
    constructor
    intro a b
    simp only [keyLe]
    omega
  have htrans : IsTrans (Primitive U D) fun a b => keyLe (sortKey a) (sortKey b) := by
    constructor
    intro a b c
    simp only [keyLe]
    omega
  refine (List.pairwise_insertionSort _ _).imp fun {p q} h => ?_
  simp only [keyLe, sortKey] at h
  omega

theorem finish_backdropBlurs_pairwise (scene : Scene U D) :
    scene.finish.backdropBlurs.Pairwise fun b c => b.order ≤ c.order := by
  have htotal : Std.Total fun a b : BackdropBlur U D => a.order ≤ b.order :=
    ⟨fun a b => le_total a.order b.order⟩
  have htrans : IsTrans (BackdropBlur U D) fun a b => a.order ≤ b.order :=
    ⟨fun a b c hab hbc => hab.trans hbc⟩
  exact List.pairwise_insertionSort _ _

theorem WellFormed.valid {scene : Scene U D} (h : scene.WellFormed) :
    BatchIterator.Valid scene.finish scene.finish.batchIterator where
  iters _ := rfl
  kinds kind p hp := h.kinds kind p ((scene.finish_primitives_perm kind).mem_iff.mp hp)
  sorted := scene.finish_primitives_pairwise
  order_le kind p hp := h.order_le kind p ((scene.finish_primitives_perm kind).mem_iff.mp hp)
  blurs := scene.finish_backdropBlurs_pairwise
  blurs_le blur hblur := h.blurs_le blur (scene.finish_backdropBlurs_perm.mem_iff.mp hblur)

/-- What a scene has to draw. -/
def vectors (scene : Scene U D) : Option PrimitiveKind → List (Drawn U D) :=
  scene.batchIterator.vectors

theorem WellFormed.gives {scene : Scene U D} (h : scene.WellFormed) :
    ∃ last, scene.finish.batchIterator.Gives scene.finish.batches last :=
  BatchIterator.collect_gives h.valid le_rfl

/-- Drawing a finished scene is a merge of its vectors. -/
theorem WellFormed.drawScene {scene : Scene U D} (h : scene.WellFormed) :
    ∃ out left, drawScene scene.finish = .ok out ∧ Merge Drawn.Le scene.finish.vectors out left ∧
      left none = [] ∧ (∀ x ∈ out, x.Shown) ∧ ∀ kind, ∀ x ∈ left (some kind), ¬ x.Shown := by
  obtain ⟨last, hgives⟩ := h.gives
  exact BatchIterator.drawBatches_merge h.valid hgives

theorem WellFormed.finish_vectors_pairwise {scene : Scene U D} (h : scene.WellFormed)
    (k : Option PrimitiveKind) : (scene.finish.vectors k).Pairwise Drawn.Le := by
  cases k with
  | none =>
    refine List.pairwise_map.mpr (scene.finish_backdropBlurs_pairwise.imp fun {b c} hle => ?_)
    simp only [Drawn.Le, keyLe, Drawn.key]
    omega
  | some kind =>
    refine List.pairwise_map.mpr ?_
    refine (scene.finish_primitives_pairwise kind).imp_of_mem fun {p q} hp hq hle => ?_
    have hp := h.valid.kinds kind p hp
    have hq := h.valid.kinds kind q hq
    simp only [Drawn.Le, keyLe, Drawn.key, hp, hq]
    omega

theorem finish_vectors_perm (scene : Scene U D) (k : Option PrimitiveKind) :
    (scene.finish.vectors k).Perm (scene.vectors k) := by
  cases k with
  | none => exact scene.finish_backdropBlurs_perm.map _
  | some kind => exact (scene.finish_primitives_perm kind).map _

/-- Drawing is sorted by the orders, the blurs before the primitives, and draws what is shown. -/
theorem WellFormed.drawScene_spec {scene : Scene U D} (h : scene.WellFormed) :
    ∃ out, DrawOrder.drawScene scene.finish = .ok out ∧ out.Pairwise Drawn.Le ∧
      ∀ x, x ∈ out ↔ x.Shown ∧ ∃ k, x ∈ scene.vectors k := by
  obtain ⟨out, left, hdraw, hmerge, hblurs, hshown, hleft⟩ := h.drawScene
  refine ⟨out, hdraw, hmerge.pairwise h.finish_vectors_pairwise, fun x => ⟨fun hx => ?_, ?_⟩⟩
  · obtain ⟨k, hk⟩ := hmerge.mem_of_mem x hx
    exact ⟨hshown x hx, k, (scene.finish_vectors_perm k).mem_iff.mp hk⟩
  · rintro ⟨hx, k, hk⟩
    rcases hmerge.mem_or_mem ((scene.finish_vectors_perm k).mem_iff.mpr hk) with hout | hout
    · exact hout
    · cases k with
      | none =>
        rw [hblurs] at hout
        cases hout
      | some kind => exact absurd hx (hleft kind x hout)

end Scene

end DrawOrder

end Zui
