/-
What the batches of a scene hold, and what is drawn before what.

The batches take the vectors of a finished scene apart in ranges that follow one another, and no
batch reaches over a blur.

A layer gives the one order that it has to all that is drawn in it.  So the order of everything was
given out at an operation and for bounds: at its own and for its own bounds, or at the start of the
innermost layer and for the bounds of the layer (`anchor`).  Of two orders that were given out for
bounds that meet the later one is greater.

Main statements:

* `Batched` — what the batches of an iterator hold; `batches_partition` for a whole scene;
* `Anchored` — the invariant of the orders that a scene has given out;
* `draws_in_order` — everything is drawn once, and what meets is drawn in the order of its anchors,
  where no coordinate is rounded.
-/
import Zui.DrawOrder.Rounded
import Zui.DrawOrder.Split

namespace Zui

open Gpui (Bounds BoundsTree Result u32Max)

namespace DrawOrder

variable {U D : Type}

/-! ### Ranges -/

/-- The ranges of batches follow one another, and none is empty. -/
inductive Contiguous : ℕ → List PrimitiveBatch → ℕ → Prop
  | nil (i : ℕ) : Contiguous i [] i
  | cons {batch : PrimitiveBatch} {batches : List PrimitiveBatch} {stop : ℕ} :
      batch.start < batch.stop → Contiguous batch.stop batches stop →
      Contiguous batch.start (batch :: batches) stop

namespace BatchIterator

theorem next_range {scene : Scene U D} {it it' : BatchIterator U D} {batch : PrimitiveBatch}
    (h : Valid scene it) (hnext : it.next = some (batch, it')) :
    it'.starts = Function.update it.starts batch.kind batch.stop ∧ batch.start < batch.stop ∧
      batch.stop ≤ (scene.primitives batch.kind).length := by
  rw [next] at hnext
  split at hnext
  · rename_i firstOrder batchKind second es hentries
    dsimp only at hnext
    split at hnext
    · cases hnext
    · rename_i first rest hiter
      obtain ⟨rfl, rfl⟩ := Prod.mk.inj (Option.some.inj hnext)
      refine ⟨rfl, ?_, ?_⟩
      · show it.starts batchKind < it.starts batchKind + 1 + _
        omega
      · have hlength := congrArg List.length ((h.iters batchKind).symm.trans hiter)
        rw [List.length_drop, List.length_cons] at hlength
        have hrun := (List.takeWhile_sublist (l := rest) (follows batchKind
          (maxOrderAndKind second (it.backdropBlursIter.dropWhile fun blur =>
            blur.order ≤ firstOrder))
          (if batchKind.isSprite then some first.tile.textureId else none))).length_le
        show it.starts batchKind + 1 + _ ≤ (scene.primitives batchKind).length
        omega
  · cases hnext

/-- What the batches hold that an iterator gives. -/
structure Batched (scene : Scene U D) (it : BatchIterator U D) (batches : List PrimitiveBatch)
    (last : BatchIterator U D) : Prop where
  contiguous : ∀ kind,
    Contiguous (it.starts kind) (batches.filter fun batch => batch.kind = kind) (last.starts kind)
  starts_le : (∀ kind, it.starts kind ≤ (scene.primitives kind).length) →
    ∀ kind, last.starts kind ≤ (scene.primitives kind).length
  taken : ∀ kind, it.iters kind =
    (batches.filter fun batch => batch.kind = kind).flatMap (·.primitives scene) ++ last.iters kind
  uniform : ∀ batch ∈ batches, ∀ p ∈ batch.primitives scene, p.kind = batch.kind ∧
    batch.textureId = if batch.kind.isSprite then some p.tile.textureId else none
  /-- A blur that is not left stands before all primitives that are. -/
  blurs : ∀ blur : BackdropBlur U D,
    (blur ∈ it.backdropBlursIter ∨ ∀ kind, ∀ p ∈ it.iters kind, blur.order ≤ p.order) →
    ∀ batch ∈ batches, (∀ p ∈ batch.primitives scene, p.order < blur.order) ∨
      ∀ p ∈ batch.primitives scene, blur.order ≤ p.order
  valid : Valid scene last
  ended : last.next = none

/-- A batch more. -/
theorem Batched.cons {scene : Scene U D} {it it' last : BatchIterator U D} {batch : PrimitiveBatch}
    {batches : List PrimitiveBatch} (h : Batched scene it' batches last) (hvalid : Valid scene it)
    (hnext : it.next = some (batch, it')) : Batched scene it (batch :: batches) last := by
  obtain ⟨first, run, htakes⟩ := next_spec hvalid hnext
  obtain ⟨hstarts, hlt, hle⟩ := next_range hvalid hnext
  -- a batch is a run from the front of the list of its kind
  have hmem : ∀ p ∈ first :: run, p ∈ it.iters batch.kind := fun p hp => by
    rw [htakes.split]
    exact List.mem_append_left _ hp
  refine ⟨fun kind => ?_, fun hwithin => h.starts_le fun kind => ?_, fun kind => ?_,
    fun other hother p hp => ?_, fun blur hblur other hother => ?_, h.valid, h.ended⟩
  · -- only the range of the kind of the batch has moved
    have hrest := h.contiguous kind
    rw [hstarts] at hrest
    by_cases hkind : batch.kind = kind
    · subst hkind
      rw [Function.update_self] at hrest
      rw [List.filter_cons_of_pos (by simp), ← htakes.start]
      exact .cons hlt hrest
    · rw [Function.update_of_ne (Ne.symm hkind)] at hrest
      rw [List.filter_cons_of_neg (by simpa using hkind)]
      exact hrest
  · rw [hstarts, Function.update_apply]
    split_ifs with hkind
    · exact hkind ▸ hle
    · exact hwithin kind
  · by_cases hkind : batch.kind = kind
    · subst hkind
      rw [List.filter_cons_of_pos (by simp), List.flatMap_cons, htakes.primitives, htakes.split,
        h.taken batch.kind, List.append_assoc]
    · rw [List.filter_cons_of_neg (by simpa using hkind), ← htakes.others kind (Ne.symm hkind)]
      exact h.taken kind
  · rcases List.mem_cons.mp hother with rfl | hother
    · rw [htakes.primitives] at hp
      exact ⟨hvalid.kinds other.kind p (hmem p hp), htakes.texture p hp⟩
    · exact h.uniform other hother p hp
  · -- the blur comes before the batch, and then before all that is left, or behind it
    have hfirst : blur.order ≤ first.order →
        ∀ kind, ∀ p ∈ it.iters kind, blur.order ≤ p.order :=
      fun hle kind p hp => hle.trans (htakes.first_le kind p hp)
    have hcases : blur ∈ it'.backdropBlursIter ∨
        ∀ kind, ∀ p ∈ it.iters kind, blur.order ≤ p.order := by
      rcases hblur with hblur | hblur
      · rw [← List.takeWhile_append_dropWhile (p := fun blur => decide (blur.order ≤ first.order))
          (l := it.backdropBlursIter), ← htakes.blurs] at hblur
        rcases List.mem_append.mp hblur with hdue | hleft
        · exact .inr (hfirst (by simpa using List.mem_takeWhile_imp hdue))
        · exact .inl hleft
      · exact .inr hblur
    rcases List.mem_cons.mp hother with rfl | hother
    · rw [htakes.primitives]
      exact hcases.imp (fun hleft p hp => htakes.before_blurs p hp blur hleft)
        fun hall p hp => hall other.kind p (hmem p hp)
    · refine h.blurs blur (hcases.imp_right fun hall kind p hp => ?_) other hother
      by_cases hkind : kind = batch.kind
      · subst hkind
        refine hall batch.kind p ?_
        rw [htakes.split]
        exact List.mem_append_right _ hp
      · exact hall kind p (htakes.others kind hkind ▸ hp)

theorem Gives.batched {scene : Scene U D} {it last : BatchIterator U D}
    {batches : List PrimitiveBatch} (hgives : Gives it batches last) (h : Valid scene it) :
    Batched scene it batches last := by
  induction hgives with
  | stop hnext =>
    exact ⟨fun kind => .nil _, fun hwithin => hwithin, fun kind => rfl, by simp, by simp, h, hnext⟩
  | next hnext _ ih =>
    obtain ⟨first, run, htakes⟩ := next_spec h hnext
    exact (ih htakes.valid).cons h hnext

end BatchIterator

/-! ### Whole scenes -/

/-- A primitive that is drawn. -/
def Drawn.primitive? : Drawn U D → Option (Primitive U D)
  | .primitive p => some p
  | .backdropBlur _ => none

/-- What is drawn of a batch and of those behind it. -/
theorem drawBatches_cons_eq_ok {scene : Scene U D} {batch : PrimitiveBatch}
    {batches : List PrimitiveBatch} {blurs : List (BackdropBlur U D)} {out : List (Drawn U D)}
    (h : drawBatches scene (batch :: batches) blurs = .ok out) :
    ∃ order rest, batch.firstOrder scene = .ok order ∧
      drawBatches scene batches (blurs.dropWhile fun blur => blur.order ≤ order) = .ok rest ∧
      out = (blurs.takeWhile fun blur => blur.order ≤ order).map .backdropBlur ++
        (batch.primitives scene).map .primitive ++ rest := by
  rw [drawBatches] at h
  cases horder : batch.firstOrder scene with
  | error e =>
    rw [horder] at h
    cases h
  | ok order =>
    cases hrest : drawBatches scene batches (blurs.dropWhile fun blur => blur.order ≤ order) with
    | error e =>
      rw [horder, ok_bind, hrest] at h
      cases h
    | ok rest =>
      rw [horder, ok_bind, hrest] at h
      exact ⟨order, rest, rfl, hrest, (Except.ok.inj h).symm⟩

/-- The primitives that are drawn are those of the batches, in their order. -/
theorem drawBatches_primitives {scene : Scene U D} {batches : List PrimitiveBatch}
    {blurs : List (BackdropBlur U D)} {out : List (Drawn U D)}
    (h : drawBatches scene batches blurs = .ok out) :
    out.filterMap Drawn.primitive? = batches.flatMap (·.primitives scene) := by
  have hblurs : ∀ blurs : List (BackdropBlur U D),
      (blurs.map Drawn.backdropBlur).filterMap Drawn.primitive? = [] := fun blurs => by
    rw [List.filterMap_map, List.filterMap_eq_nil_iff]
    exact fun blur _ => rfl
  have hprimitives : ∀ ps : List (Primitive U D),
      (ps.map Drawn.primitive).filterMap Drawn.primitive? = ps := fun ps => by
    rw [List.filterMap_map]
    exact List.filterMap_some
  induction batches generalizing blurs out with
  | nil =>
    obtain rfl := Except.ok.inj h
    exact hblurs blurs
  | cons batch batches ih =>
    obtain ⟨order, rest, -, hrest, rfl⟩ := drawBatches_cons_eq_ok h
    rw [List.filterMap_append, List.filterMap_append, hblurs, hprimitives, ih hrest,
      List.flatMap_cons, List.nil_append]

section

variable [AddCommGroup U] [LinearOrder U]

omit [AddCommGroup U] [LinearOrder U] in
/-- When all orders are below `u32::MAX`, the batches of a finished scene leave no primitive. -/
theorem Scene.WellFormed.batched {scene : Scene U D} (h : scene.WellFormed)
    (horder : ∀ kind, ∀ p ∈ scene.primitives kind, p.order < u32Max) :
    ∃ last, BatchIterator.Batched scene.finish scene.finish.batchIterator
      scene.finish.batches last ∧
      ∀ kind, last.iters kind = [] := by
  obtain ⟨last, hgives⟩ := h.gives
  have hbatched := hgives.batched h.valid
  refine ⟨last, hbatched, fun kind => ?_⟩
  rw [List.eq_nil_iff_forall_not_mem]
  intro p hp
  refine BatchIterator.not_shown_of_next_eq_none hbatched.valid hbatched.ended kind p hp (.inl ?_)
  have hmem : p ∈ scene.finish.batchIterator.iters kind := by
    rw [hbatched.taken kind]
    exact List.mem_append_right _ hp
  exact horder kind p ((scene.finish_primitives_perm kind).mem_iff.mp hmem)

/-- In a finished scene whose orders are below `u32::MAX`, the batches of each kind take its vector
in ranges that follow one another.  All primitives come sorted by their orders and their kinds, a
batch has one kind and one texture, and each blur is before a whole batch or behind it. -/
theorem batches_partition {operations : List (PaintOperation U D)} {scene : Scene U D}
    (hbuild : ({} : Scene U D).applyAll operations = .ok scene)
    (horder : ∀ kind, ∀ p ∈ scene.primitives kind, p.order < u32Max) :
    (∀ kind, Contiguous 0 (scene.finish.batches.filter fun batch => batch.kind = kind)
        (scene.primitives kind).length ∧
      (scene.finish.batches.filter fun batch => batch.kind = kind).flatMap
        (·.primitives scene.finish) = scene.finish.primitives kind) ∧
    (scene.finish.batches.flatMap (·.primitives scene.finish)).Pairwise (fun p q =>
      p.order < q.order ∨ p.order = q.order ∧ p.kind.rank ≤ q.kind.rank) ∧
    ∀ batch ∈ scene.finish.batches,
      (∀ p ∈ batch.primitives scene.finish, p.kind = batch.kind ∧
        batch.textureId = if batch.kind.isSprite then some p.tile.textureId else none) ∧
      ∀ blur ∈ scene.finish.backdropBlurs,
        (∀ p ∈ batch.primitives scene.finish, p.order < blur.order) ∨
          ∀ p ∈ batch.primitives scene.finish, blur.order ≤ p.order := by
  obtain ⟨earlier, hbuilt⟩ := built_empty.applyAll hbuild
  have hwell := hbuilt.wellFormed
  obtain ⟨last, hbatched, hleft⟩ := hwell.batched horder
  have hstops : ∀ kind, last.starts kind = (scene.primitives kind).length := by
    intro kind
    have hle := hbatched.starts_le (fun kind => Nat.zero_le _) kind
    have hge := List.drop_eq_nil_iff.mp ((hbatched.valid.iters kind).symm.trans (hleft kind))
    rw [(scene.finish_primitives_perm kind).length_eq] at hle hge
    omega
  refine ⟨fun kind => ⟨?_, ?_⟩, ?_, fun batch hbatch => ⟨hbatched.uniform batch hbatch,
    fun blur hblur => hbatched.blurs blur (.inl hblur) batch hbatch⟩⟩
  · rw [← hstops kind]
    exact hbatched.contiguous kind
  · have htaken := hbatched.taken kind
    rw [hleft, List.append_nil] at htaken
    exact htaken.symm
  · obtain ⟨out, hdraw, hsorted, -⟩ := hwell.drawScene_spec
    rw [← drawBatches_primitives hdraw, List.pairwise_filterMap]
    refine hsorted.imp fun {x y} hle p hp q hq => ?_
    cases x with
    | backdropBlur b => cases hp
    | primitive p =>
      cases y with
      | backdropBlur b => cases hq
      | primitive q =>
        obtain rfl := Option.some.inj hp
        obtain rfl := Option.some.inj hq
        simp only [Drawn.Le, Scene.keyLe, Drawn.key] at hle
        omega

/-- Two quads and a path between them, with a blur. -/
def blurredQuads : List (PaintOperation ℚ Unit) :=
  let bounds : Bounds ℚ := ⟨⟨0, 0⟩, ⟨10, 10⟩⟩
  let primitive := fun kind => Primitive.mk kind 0 0 bounds bounds ⟨0, 0, 0, ⟨⟨0, 0⟩, ⟨0, 0⟩⟩⟩ ()
  [.primitive (primitive .quad), .primitive (primitive .path),
    .backdropBlur ⟨0, bounds, bounds, ()⟩,
    .primitive (primitive .quad)]

theorem batches_partition_blurred : ∃ scene, ({} : Scene ℚ Unit).applyAll blurredQuads = .ok scene ∧
    scene.finish.batches.length = 3 ∧
    (scene.finish.batches.filter fun batch =>
      batch.kind = .quad).flatMap (·.primitives scene.finish) =
      scene.finish.primitives .quad := by
  have hrun : (match ({} : Scene ℚ Unit).applyAll blurredQuads with
      | .ok scene => decide (scene.finish.batches.length = 3) &&
          PrimitiveKind.all.all fun kind => (scene.primitives kind).all fun p => p.order < u32Max
      | .error _ => false) = true := by decide +kernel
  cases hbuild : ({} : Scene ℚ Unit).applyAll blurredQuads with
  | error e =>
    rw [hbuild] at hrun
    cases hrun
  | ok scene =>
    rw [hbuild] at hrun
    simp only [Bool.and_eq_true, List.all_eq_true, decide_eq_true_eq] at hrun
    exact ⟨scene, rfl, hrun.1,
      ((batches_partition hbuild fun kind p hp => hrun.2 kind kind.mem_all p hp).1 .quad).2⟩

/-! ### Anchors -/

omit [AddCommGroup U] [LinearOrder U] in
/-- The open layers behind an operation: where they were opened, and their bounds. -/
def PaintOperation.layersAfter (layers : List (ℕ × Bounds U)) (i : ℕ) :
    PaintOperation U D → List (ℕ × Bounds U)
  | .startLayer bounds => (i, bounds) :: layers
  | .endLayer => layers.tail
  | .primitive _ => layers
  | .backdropBlur _ => layers

/-- The open layers behind operations, the innermost one first. -/
def openLayers (operations : List (PaintOperation U D)) : List (ℕ × Bounds U) :=
  operations.zipIdx.foldl (fun layers op => op.1.layersAfter layers op.2) []

/-- Where the order of something that is drawn was given out, and for which bounds. -/
def anchor {U D : Type} [Add U] [Sub U] [LinearOrder U] (operations : List (PaintOperation U D))
    (i : ℕ) (x : Drawn U D) : ℕ × Bounds U :=
  (openLayers (operations.take i)).headD (i, x.clippedBounds)

omit [AddCommGroup U] [LinearOrder U] in
theorem openLayers_concat (operations : List (PaintOperation U D)) (op : PaintOperation U D) :
    openLayers (operations ++ [op]) = op.layersAfter (openLayers operations) operations.length := by
  rw [openLayers, List.zipIdx_append, List.foldl_append, Nat.zero_add]
  rfl

omit [AddCommGroup U] [LinearOrder U] in
theorem layersAfter_operation (layers : List (ℕ × Bounds U)) (i : ℕ) (x : Drawn U D) :
    x.operation.layersAfter layers i = layers := by
  cases x <;> rfl

theorem anchor_concat {operations : List (PaintOperation U D)} {op : PaintOperation U D} {i : ℕ}
    (hi : i ≤ operations.length) (x : Drawn U D) :
    anchor (operations ++ [op]) i x = anchor operations i x := by
  rw [anchor, List.take_append_of_le_length hi, anchor]

/-- The orders that a scene has given out, the last one first: where, for which bounds, and which.
-/
structure Anchored (scene : Scene U D) (marks : List ((ℕ × Bounds U) × ℕ)) : Prop where
  built : Built scene (marks.map fun mark => (mark.1.2, mark.2))
  recent : ∀ mark ∈ marks, mark.1.1 < scene.paintOperations.length
  ordered : marks.Pairwise fun mark mark' => mark'.1.1 < mark.1.1 ∧
    (mark'.1.2.intersects mark.1.2 = true → mark'.2 < mark.2)
  layers : List.Forall₂ (fun layer order => (layer, order) ∈ marks)
    (openLayers scene.paintOperations)
    scene.layerStack
  drawn : ∀ i x, scene.paintOperations[i]? = some x.operation →
    (anchor scene.paintOperations i x, x.order) ∈ marks

namespace Anchored

variable {scene scene' : Scene U D} {marks : List ((ℕ × Bounds U) × ℕ)}

theorem empty : Anchored ({} : Scene U D) [] := by
  refine ⟨built_empty, by simp, .nil, .nil, fun i x h => ?_⟩
  cases h

theorem ordered_cons (h : Anchored scene marks) {bounds : Bounds U} {order : ℕ}
    (hlt : ∀ e ∈ marks.map (fun mark => (mark.1.2, mark.2)), e.1.intersects bounds = true →
      e.2 < order) :
    (((scene.paintOperations.length, bounds), order) :: marks).Pairwise fun mark mark' =>
      mark'.1.1 < mark.1.1 ∧ (mark'.1.2.intersects mark.1.2 = true → mark'.2 < mark.2) :=
  List.pairwise_cons.mpr ⟨fun mark hmark => ⟨h.recent mark hmark,
    hlt _ (List.mem_map_of_mem hmark)⟩, h.ordered⟩

/-- An operation is recorded that draws nothing. -/
theorem layer (h : Anchored scene marks) {op : PaintOperation U D}
    (front : List ((ℕ × Bounds U) × ℕ)) (hop : op.drawn = none)
    (hpaint : scene'.paintOperations = scene.paintOperations ++ [op])
    (hbuilt : Built scene' ((front ++ marks).map fun mark => (mark.1.2, mark.2)))
    (hfront : ∀ mark ∈ front, mark.1.1 = scene.paintOperations.length)
    (hordered : (front ++ marks).Pairwise fun mark mark' => mark'.1.1 < mark.1.1 ∧
      (mark'.1.2.intersects mark.1.2 = true → mark'.2 < mark.2))
    (hlayers : List.Forall₂ (fun layer order => (layer, order) ∈ front ++ marks)
      (op.layersAfter (openLayers scene.paintOperations) scene.paintOperations.length)
      scene'.layerStack) : Anchored scene' (front ++ marks) := by
  refine ⟨hbuilt, fun mark hmark => ?_, hordered, ?_, fun i x hi => ?_⟩
  · rw [hpaint, List.length_append, List.length_singleton]
    rcases List.mem_append.mp hmark with hmark | hmark
    · rw [hfront mark hmark]
      omega
    · exact (h.recent mark hmark).trans (Nat.lt_succ_self _)
  · rw [hpaint, openLayers_concat]
    exact hlayers
  · rw [hpaint] at hi ⊢
    rcases Nat.lt_or_ge i scene.paintOperations.length with hlt | hge
    · rw [List.getElem?_append_left hlt] at hi
      rw [anchor_concat hlt.le]
      exact List.mem_append_right _ (h.drawn i x hi)
    · rw [List.getElem?_append_right hge] at hi
      obtain rfl := List.mem_singleton.mp (List.mem_of_getElem? hi)
      rw [Drawn.drawn_operation] at hop
      cases hop

theorem push (h : Anchored scene marks) {bounds : Bounds U} {tree : BoundsTree U} {order : ℕ}
    (hinsert : scene.primitiveBounds.insert bounds = .ok (tree, order)) :
    Anchored
      { scene with
        primitiveBounds := tree
        layerStack := order :: scene.layerStack
        paintOperations := scene.paintOperations ++ [.startLayer bounds] }
      (((scene.paintOperations.length, bounds), order) :: marks) := by
  obtain ⟨hmax, -, -⟩ := h.built.insert hinsert
  refine h.layer [((scene.paintOperations.length, bounds), order)] rfl rfl
    (h.built.push hinsert) (by simp) (h.ordered_cons fun e he hmeets => ?_)
    (.cons List.mem_cons_self (h.layers.imp fun _ _ => List.mem_cons_of_mem _))
  have hge := Gpui.maxIntersecting_le_iff.mp le_rfl e he (by rwa [Bounds.intersects_comm])
  omega

theorem pop (h : Anchored scene marks) :
    Anchored
      { scene with
        layerStack := scene.layerStack.tail
        paintOperations := scene.paintOperations ++ [.endLayer] } marks := by
  refine h.layer [] rfl rfl h.built.pop (by simp) h.ordered ?_
  show List.Forall₂ _ (openLayers scene.paintOperations).tail scene.layerStack.tail
  rw [← List.drop_one, ← List.drop_one]
  exact List.forall₂_drop 1 h.layers

/-- Something is drawn, with the order of the layer or with a new one. -/
theorem record (h : Anchored scene marks) {x : Drawn U D} {tree : BoundsTree U} {order : ℕ} (id : ℕ)
    (hempty : x.clippedBounds.isEmpty = false)
    (horder : scene.nextOrder x.clippedBounds = .ok (tree, order)) :
    ∃ front, Anchored (scene.record tree (x.numbered order id)) (front ++ marks) := by
  have hbuilt := h.built.recordNumbered id hempty horder
  obtain ⟨-, -, hfree⟩ := h.built.nextOrder horder
  have hlayers := h.layers
  have hanchor {front : List ((ℕ × Bounds U) × ℕ)} (hlast :
      ((openLayers scene.paintOperations).headD (scene.paintOperations.length, x.clippedBounds),
        order) ∈ front ++ marks) (i : ℕ) (y : Drawn U D)
      (hi : (scene.paintOperations ++ [(x.numbered order id).operation])[i]? = some y.operation) :
      (anchor (scene.paintOperations ++ [(x.numbered order id).operation]) i y, y.order) ∈
        front ++ marks := by
    rcases Nat.lt_or_ge i scene.paintOperations.length with hlt | hge
    · rw [List.getElem?_append_left hlt] at hi
      rw [anchor_concat hlt.le]
      exact List.mem_append_right _ (h.drawn i y hi)
    · obtain rfl : i = scene.paintOperations.length := by
        have hlt := (List.getElem?_eq_some_iff.mp hi).1
        rw [List.length_append, List.length_singleton] at hlt
        omega
      rw [List.getElem?_concat_length] at hi
      have hdrawn := congrArg PaintOperation.drawn (Option.some.inj hi)
      rw [Drawn.drawn_operation, Drawn.drawn_operation] at hdrawn
      obtain rfl := Option.some.inj hdrawn
      rw [anchor, List.take_left, Drawn.clippedBounds_numbered, Drawn.order_numbered]
      exact hlast
  cases hstack : scene.layerStack with
  | nil =>
    -- a new order for the clipped bounds
    rw [Scene.placed_of_nil hstack] at hbuilt
    rw [hstack] at hlayers
    have hnil := List.forall₂_nil_right_iff.mp hlayers
    refine ⟨[((scene.paintOperations.length, x.clippedBounds), order)], hbuilt,
      fun mark hmark => ?_,
      h.ordered_cons (hfree hstack), ?_, ?_⟩
    · rw [Scene.record_paintOperations, List.length_append, List.length_singleton]
      rcases List.mem_cons.mp hmark with rfl | hmark
      · exact Nat.lt_succ_self _
      · exact (h.recent mark hmark).trans (Nat.lt_succ_self _)
    · rw [Scene.record_paintOperations, openLayers_concat, layersAfter_operation,
        Scene.record_layerStack, hnil, hstack]
      exact .nil
    · rw [Scene.record_paintOperations]
      refine hanchor ?_
      rw [hnil]
      exact List.mem_cons_self
  | cons top orders =>
    rw [Scene.placed_of_cons hstack] at hbuilt
    rw [hstack] at hlayers
    obtain ⟨layer, layers, hmem, -, hopen⟩ := List.forall₂_cons_right_iff.mp hlayers
    have htop : order = top := by
      rw [Scene.nextOrder, hstack] at horder
      exact (Prod.mk.inj (Except.ok.inj horder)).2.symm
    refine ⟨[], hbuilt, fun mark hmark => ?_, h.ordered, ?_, ?_⟩
    · rw [Scene.record_paintOperations, List.length_append, List.length_singleton]
      exact (h.recent mark hmark).trans (Nat.lt_succ_self _)
    · rw [Scene.record_paintOperations, openLayers_concat, layersAfter_operation,
        Scene.record_layerStack]
      exact h.layers
    · rw [Scene.record_paintOperations]
      refine hanchor ?_
      rw [hopen, htop]
      exact hmem

theorem step (h : Anchored scene marks) {op : PaintOperation U D}
    (happly : scene.apply op = .ok scene') :
    ∃ front, Anchored scene' (front ++ marks) := by
  cases Scene.apply_iff.mp happly with
  | skip x hempty => exact ⟨[], h⟩
  | record x tree order hempty horder => exact h.record _ hempty horder
  | push bounds tree order hinsert => exact ⟨[_], h.push hinsert⟩
  | pop => exact ⟨[], h.pop⟩

theorem applyAll (h : Anchored scene marks) {operations : List (PaintOperation U D)}
    (hrun : scene.applyAll operations = .ok scene') : ∃ front,
      Anchored scene' (front ++ marks) := by
  induction operations generalizing scene marks with
  | nil =>
    obtain rfl := Except.ok.inj hrun
    exact ⟨[], h⟩
  | cons op operations ih =>
    obtain ⟨next, happly, hrest⟩ := Scene.applyAll_cons hrun
    obtain ⟨front, hnext⟩ := h.step happly
    obtain ⟨front', hscene'⟩ := ih hnext hrest
    exact ⟨front' ++ front, by rwa [List.append_assoc]⟩

/-- Of two orders that were given out for bounds that meet the later one is greater. -/
theorem order_lt (h : Anchored scene marks) {i j : ℕ} {x y : Drawn U D}
    (hi : scene.paintOperations[i]? = some x.operation)
    (hj : scene.paintOperations[j]? = some y.operation)
    (hlt : (anchor scene.paintOperations i x).1 < (anchor scene.paintOperations j y).1)
    (hmeets : (anchor scene.paintOperations i x).2.intersects (anchor scene.paintOperations j y).2 =
      true) : x.order < y.order := by
  have hne : (anchor scene.paintOperations j y, y.order) ≠ (anchor scene.paintOperations i x,
    x.order) := by
    intro heq
    rw [(Prod.mk.inj heq).1] at hlt
    exact lt_irrefl _ hlt
  rcases pair_sublist_or (h.drawn j y hj) (h.drawn i x hi) hne with hsub | hsub
  · exact (List.pairwise_pair.mp (h.ordered.sublist hsub)).2 hmeets
  · exact absurd (List.pairwise_pair.mp (h.ordered.sublist hsub)).1 (not_lt.mpr hlt.le)

end Anchored

/-! ### Drawing in order -/

/-- A scene has to draw what was inserted, but for what is clipped away. -/
theorem drawn_of_applyAll {operations : List (PaintOperation U D)} {scene scene' : Scene U D}
    (hrun : scene.applyAll operations = .ok scene') :
    scene'.drawn.map Drawn.erase = scene.drawn.map Drawn.erase ++
      ((operations.filterMap PaintOperation.drawn).filter
        fun x => !x.clippedBounds.isEmpty).map Drawn.erase := by
  induction operations generalizing scene with
  | nil =>
    obtain rfl := Except.ok.inj hrun
    exact (List.append_nil _).symm
  | cons op operations ih =>
    obtain ⟨next, happly, hrest⟩ := Scene.applyAll_cons hrun
    rw [ih hrest]
    cases Scene.apply_iff.mp happly with
    | skip x hempty =>
      rw [List.filterMap_cons, Drawn.drawn_operation]
      simp [hempty]
    | record x tree order hempty horder =>
      rw [List.filterMap_cons, Drawn.drawn_operation, Scene.record_drawn]
      simp [hempty, Drawn.erase, Drawn.numbered_numbered]
    | push bounds tree order hinsert =>
      rw [List.filterMap_cons_none (rfl : PaintOperation.drawn (.startLayer bounds) = none)]
      simp [Scene.drawn, PaintOperation.drawn]
    | pop =>
      rw [List.filterMap_cons_none (rfl : PaintOperation.drawn .endLayer = none)]
      simp [Scene.drawn, PaintOperation.drawn]

omit [AddCommGroup U] [LinearOrder U] in
theorem flatMap_slots (xs : List (Drawn U D)) :
    ((none :: PrimitiveKind.all.map some).flatMap fun k => xs.filter fun x =>
      x.slot = k).Perm xs := by
  have hnodup : (none :: PrimitiveKind.all.map some).Nodup := by decide
  have hall (k : Option PrimitiveKind) : k ∈ none :: PrimitiveKind.all.map some := by
    cases k with
    | none => exact List.mem_cons_self
    | some kind => exact List.mem_cons_of_mem _ (List.mem_map_of_mem kind.mem_all)
  induction xs with
  | nil => simp
  | cons x xs ih =>
    refine (Merge.flatMap_update hnodup (hall x.slot)
      (show _ = [x] ++ xs.filter fun y => y.slot = x.slot by simp)).trans (.cons x ?_)
    refine (List.Perm.of_eq ?_).trans ih
    refine List.flatMap_congr fun k _ => ?_
    rw [Function.update_apply]
    split_ifs with hk
    · rw [hk]
    · rw [List.filter_cons_of_neg (by simpa using Ne.symm hk)]

theorem drawScene_perm {scene : Scene U D} {earlier : List (Bounds U × ℕ)}
    (h : Built scene earlier) (hshown : ∀ x ∈ scene.drawn, x.Shown) :
    ∃ out, drawScene scene.finish = .ok out ∧ out.Pairwise Drawn.Le ∧ out.Perm scene.drawn := by
  obtain ⟨out, left, hdraw, hmerge, hblurs, -, hleft⟩ := h.wellFormed.drawScene
  have hperm := hmerge.perm (show (none :: PrimitiveKind.all.map some).Nodup by decide) fun k => by
    cases k with
    | none => exact List.mem_cons_self
    | some kind => exact List.mem_cons_of_mem _ (List.mem_map_of_mem kind.mem_all)
  have hvectors : ((none :: PrimitiveKind.all.map some).flatMap scene.finish.vectors).Perm
      scene.drawn := by
    refine (List.Perm.flatMap_left _ fun k _ => ?_).trans (flatMap_slots scene.drawn)
    rw [← h.vectors]
    exact scene.finish_vectors_perm k
  have hnone : (none :: PrimitiveKind.all.map some).flatMap left = [] := by
    rw [List.eq_nil_iff_forall_not_mem]
    intro x hx
    have hx' := (hperm.symm.trans hvectors).subset (List.mem_append_right out hx)
    obtain ⟨k, -, hk⟩ := List.mem_flatMap.mp hx
    cases k with
    | none =>
      rw [hblurs] at hk
      cases hk
    | some kind => exact hleft kind x hk (hshown x hx')
  rw [hnone, List.append_nil] at hperm
  exact ⟨out, hdraw, hmerge.pairwise h.wellFormed.finish_vectors_pairwise,
    hperm.symm.trans hvectors⟩

/-- What a scene draws, and in which order: all that is not clipped away once, and of two things
whose anchors meet the one with the later anchor behind the other one. -/
def DrawsInOrder {U D : Type} [Add U] [Sub U] [Zero U] [LinearOrder U]
    (operations : List (PaintOperation U D)) (scene : Scene U D) : Prop :=
  scene.drawn.map Drawn.erase = ((operations.filterMap PaintOperation.drawn).filter
      fun x => !x.clippedBounds.isEmpty).map Drawn.erase ∧
  ∃ drawn, drawScene scene.finish = .ok drawn ∧ drawn.Perm scene.drawn ∧
    ∀ i j x y, scene.paintOperations[i]? = some x.operation →
      scene.paintOperations[j]? = some y.operation →
      (anchor scene.paintOperations i x).1 < (anchor scene.paintOperations j y).1 →
      (anchor scene.paintOperations i x).2.intersects (anchor scene.paintOperations j y).2 = true →
      Before drawn x y

theorem drawsInOrder_exact {operations : List (PaintOperation U D)} {scene : Scene U D}
    (hbuild : ({} : Scene U D).applyAll operations = .ok scene)
    (horder : ∀ x ∈ scene.drawn, x.order < u32Max) : DrawsInOrder operations scene := by
  obtain ⟨marks, hanchored⟩ := Anchored.empty.applyAll hbuild
  obtain ⟨drawn, hdraw, hsorted, hperm⟩ := drawScene_perm hanchored.built
    fun x hx => .inl (horder x hx)
  refine ⟨drawn_of_applyAll hbuild, drawn, hdraw, hperm, fun i j x y hi hj hlt hmeets => ?_⟩
  have hmem {k : ℕ} {z : Drawn U D}
    (hz : scene.paintOperations[k]? = some z.operation) : z ∈ drawn :=
    hperm.mem_iff.mpr
      (List.mem_filterMap.mpr ⟨z.operation, List.mem_of_getElem? hz, Drawn.drawn_operation z⟩)
  have hxy := hanchored.order_lt hi hj hlt hmeets
  refine before_of_pairwise hsorted (hmem hi) (hmem hj) fun hle => ?_
  have hle := Drawn.order_le_of_le hle
  omega

omit [AddCommGroup U] [LinearOrder U] in
theorem mem_openLayers {operations : List (PaintOperation U D)} {layer : ℕ × Bounds U}
    (h : layer ∈ openLayers operations) : .startLayer layer.2 ∈ operations := by
  induction operations using List.reverseRecOn with
  | nil => cases h
  | append_singleton operations op ih =>
    rw [openLayers_concat] at h
    cases op with
    | startLayer bounds =>
      rcases List.mem_cons.mp h with rfl | h
      · simp
      · simp [ih h]
    | endLayer => simp [ih (List.mem_of_mem_tail h)]
    | primitive p => simp [ih h]
    | backdropBlur b => simp [ih h]

theorem drawsInOrder_of_same {U D : Type} {group : AddCommGroup U} [Add U] [Sub U] [Zero U]
    [LinearOrder U] {Fits : Bounds U → Prop}
    (h : Gpui.SameArithmetic group.toAdd group.toSub group.toZero Fits)
    {operations : List (PaintOperation U D)} (hoperations : ∀ op ∈ operations, op.Within Fits)
    {scene : Scene U D} (hbuild : ({} : Scene U D).applyAll operations = .ok scene)
    (horder : ∀ x ∈ scene.drawn, x.order < u32Max) : DrawsInOrder operations scene := by
  have hagrees := @Scene.applyAll_agrees U D _ _ _ _ _ _ _ _ h {} _ hoperations ⟨nofun, nofun⟩
  have hwithin := (hagrees.post scene hbuild).operations
  obtain ⟨hdrawn, drawn, hdraw, hperm, hbefore⟩ :=
    @drawsInOrder_exact U D group _ _ _ (hagrees.eq.trans hbuild) horder
  -- the anchors are those of the group
  have hanchor : ∀ {i : ℕ} {x : Drawn U D}, scene.paintOperations[i]? = some x.operation →
      @anchor U D group.toAdd group.toSub _ scene.paintOperations i x =
          anchor scene.paintOperations i x ∧
        Fits (anchor scene.paintOperations i x).2 := by
    intro i x hi
    have hx := x.clippedBounds_eq h (hwithin _ (List.mem_of_getElem? hi))
    unfold anchor
    cases hlayers : openLayers (scene.paintOperations.take i) with
    | nil => exact ⟨congrArg (Prod.mk i) hx.1, hx.2⟩
    | cons layer layers =>
      have hmem : layer ∈ openLayers (scene.paintOperations.take i) := hlayers ▸ List.mem_cons_self
      exact ⟨rfl, hwithin _ (List.mem_of_mem_take (mem_openLayers hmem))⟩
  refine ⟨?_, drawn, hdraw, hperm, fun i j x y hi hj hlt hmeets => ?_⟩
  · rw [hdrawn]
    refine congrArg (List.map Drawn.erase) (List.filter_congr fun x hx => ?_)
    obtain ⟨op, hop, hx⟩ := List.mem_filterMap.mp hx
    have heq := x.clippedBounds_eq h (Drawn.eq_operation_of_drawn hx ▸ hoperations op hop)
    rw [heq.1, h.isEmpty]
  · obtain ⟨hx, hfitsx⟩ := hanchor hi
    obtain ⟨hy, hfitsy⟩ := hanchor hj
    refine hbefore i j x y hi hj (by rwa [hx, hy]) ?_
    rwa [hx, hy, h.intersects hfitsx hfitsy]

/-- Where no coordinate is rounded, a scene whose orders are below `u32::MAX` is drawn, and
everything that was inserted and is not clipped away is drawn once.  What has a later anchor is
drawn behind what it meets: what was inserted outside layers behind what was inserted there before,
and behind the layers that it meets and that were opened before; and a layer behind all of this. -/
theorem draws_in_order {D : Type} {k : ℕ} (hk : k ≤ 149)
    {operations : List (PaintOperation ScaledPixels D)}
    (hsnapped : ∀ op ∈ operations, op.Within (SnappedBounds k)) {scene : Scene ScaledPixels D}
    (hbuild : ({} : Scene ScaledPixels D).applyAll operations = .ok scene)
    (horder : ∀ x ∈ scene.drawn, x.order < u32Max) : DrawsInOrder operations scene :=
  drawsInOrder_of_same (sameArithmetic hk) hsnapped hbuild horder

/-- A quad inside a layer, and one outside that meets the layer. -/
def layeredQuads : List (PaintOperation ScaledPixels Unit) :=
  let quad := fun bounds => PaintOperation.primitive
    (Primitive.mk .quad 0 0 bounds bounds ⟨0, 0, 0, ⟨⟨0, 0⟩, ⟨0, 0⟩⟩⟩ ())
  let square := fun corner side => Bounds.mk ⟨px corner, px corner⟩ ⟨px side, px side⟩
  [.startLayer (square 0 20), quad (square 0 10), .endLayer, quad (square 15 10)]

/-- The quads do not meet, but the second one meets the layer. -/
theorem draws_in_order_layered : ∃ scene drawn,
    ({} : Scene ScaledPixels Unit).applyAll layeredQuads = .ok scene ∧
    drawScene scene.finish = .ok drawn ∧ ∃ x y, scene.paintOperations[1]? = some x.operation ∧
      scene.paintOperations[3]? = some y.operation ∧
      x.clippedBounds.intersects y.clippedBounds = false ∧ Before drawn x y := by
  have hrun : ((({} : Scene ScaledPixels Unit).applyAll layeredQuads).toOption.any fun scene =>
      (scene.paintOperations[1]? >>= PaintOperation.drawn).any fun x =>
        (scene.paintOperations[3]? >>= PaintOperation.drawn).any fun y =>
          (scene.drawn.all fun z => z.order < u32Max) &&
            !x.clippedBounds.intersects y.clippedBounds &&
            decide ((anchor scene.paintOperations 1 x).1 < (anchor scene.paintOperations 3 y).1) &&
            (anchor scene.paintOperations 1 x).2.intersects (anchor scene.paintOperations 3 y).2) =
      true := by decide +kernel
  cases hbuild : ({} : Scene ScaledPixels Unit).applyAll layeredQuads with
  | error e =>
    rw [hbuild] at hrun
    cases hrun
  | ok scene =>
    rw [hbuild, Except.toOption, Option.any_some] at hrun
    obtain ⟨x, hx, hrun⟩ := (Option.any_eq_true _ _).mp hrun
    obtain ⟨y, hy, hrun⟩ := (Option.any_eq_true _ _).mp hrun
    simp only [Bool.and_eq_true, List.all_eq_true, decide_eq_true_eq, Bool.not_eq_true'] at hrun
    obtain ⟨⟨⟨horder, hapart⟩, hlt⟩, hmeets⟩ := hrun
    have hget {k : ℕ} {z : Drawn ScaledPixels Unit}
        (hz : scene.paintOperations[k]? >>= PaintOperation.drawn = some z) :
        scene.paintOperations[k]? = some z.operation := by
      obtain ⟨op, hop, hdrawn⟩ := Option.bind_eq_some_iff.mp hz
      rw [hop, Drawn.eq_operation_of_drawn hdrawn]
    have hsnapped : ∀ op ∈ layeredQuads, op.Within (SnappedBounds 0) := by
      intro op hop
      simp only [layeredQuads, List.mem_cons, List.not_mem_nil, or_false] at hop
      have hsquare := fun corner side => @snapped_square corner side
      rcases hop with rfl | rfl | rfl | rfl
      · exact hsquare 0 20 (by norm_num)
      · exact ⟨hsquare 0 10 (by norm_num), hsquare 0 10 (by norm_num)⟩
      · trivial
      · exact ⟨hsquare 15 10 (by norm_num), hsquare 15 10 (by norm_num)⟩
    obtain ⟨-, drawn, hdraw, -, hbefore⟩ := draws_in_order (Nat.zero_le _) hsnapped hbuild horder
    exact ⟨scene, drawn, rfl, hdraw, x, y, hget hx, hget hy, hapart,
      hbefore 1 3 x y (hget hx) (hget hy) hlt hmeets⟩

end

end DrawOrder

end Zui
