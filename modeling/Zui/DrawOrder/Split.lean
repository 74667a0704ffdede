/-
A base and an overlay of a scene.

The window is drawn in two planes where native views lie between them: the first operations of its
scene are replayed into one scene and the others into another one.  The second one numbers its
orders anew, each at most what it was, so it draws at least what the whole scene draws of its
operations.

Main statements:

* `Records.of_applyAll` — a scene is what its own operations build;
* `Follows.step` — replaying into a fresh scene follows the whole one with lesser orders;
* `draw_layered_keeps_order` — the two planes have all that the whole scene has, and draw what meets
  outside layers in the same order.
-/
import Zui.DrawOrder.Orders

namespace Zui

open Gpui (Bounds BoundsTree Result u32Max maxIntersecting maxIntersecting_le_iff)

namespace DrawOrder

variable {U D : Type}

/-- The planes of `draw_layered`. -/
inductive Plane
  | base
  | overlay
  deriving DecidableEq

/-- Without its order, and for a path without its number. -/
def Drawn.erase (x : Drawn U D) : Drawn U D := x.numbered 0 0

/-- The same operation with an order that is at most what it was. -/
inductive Renumbered : PaintOperation U D → PaintOperation U D → Prop
  | drawn (x : Drawn U D) (order id : ℕ) : order ≤ x.order →
      Renumbered x.operation (x.numbered order id).operation
  | startLayer (bounds : Bounds U) : Renumbered (.startLayer bounds) (.startLayer bounds)
  | endLayer : Renumbered .endLayer .endLayer

/-- One stands in a list, and never behind the other. -/
def Before {α : Type} (xs : List α) (x y : α) : Prop := x ∈ xs ∧ y ∈ xs ∧ ¬ [y, x].Sublist xs

section

variable [AddCommGroup U] [LinearOrder U]

/-- `draw_layered` with an overlay. -/
def drawLayered (scene : Scene U D) (overlayStart : ℕ) : Result (List (Plane × Drawn U D)) := do
  let split := min overlayStart scene.paintOperations.length
  if split = scene.paintOperations.length then
    let drawn ← drawScene scene
    .ok (drawn.map (Prod.mk .base))
  else
    let base ← ({} : Scene U D).replay (0, split) scene
    let overlay ← ({} : Scene U D).replay (split, scene.paintOperations.length) scene
    let drawnBase ← drawScene base.finish
    let drawnOverlay ← drawScene overlay.finish
    .ok (drawnBase.map (Prod.mk .base) ++ drawnOverlay.map (Prod.mk .overlay))

/-! ### Replaying -/

/-- Operations that are recorded one by one. -/
inductive Records : Scene U D → List (PaintOperation U D) → Scene U D → Prop
  | nil (scene : Scene U D) : Records scene [] scene
  | cons {scene next scene' : Scene U D} {op : PaintOperation U D}
      {operations : List (PaintOperation U D)} : scene.apply op = .ok next →
      next.paintOperations = scene.paintOperations ++ [op] → Records next operations scene' →
      Records scene (op :: operations) scene'

namespace Records

variable {scene scene' : Scene U D} {operations : List (PaintOperation U D)}

theorem paintOperations (h : Records scene operations scene') :
    scene'.paintOperations = scene.paintOperations ++ operations := by
  induction h with
  | nil scene => exact (List.append_nil _).symm
  | cons happly hrecord hrest ih => rw [ih, hrecord, List.append_assoc, List.singleton_append]

theorem applyAll (h : Records scene operations scene') :
    scene.applyAll operations = .ok scene' := by
  induction h with
  | nil scene => rfl
  | cons happly hrecord hrest ih =>
    rw [Scene.applyAll, List.foldlM_cons, happly]
    exact ih

theorem split {front back : List (PaintOperation U D)} (h : Records scene (front ++ back) scene') :
    ∃ middle, Records scene front middle ∧ Records middle back scene' := by
  induction front generalizing scene with
  | nil => exact ⟨scene, .nil scene, h⟩
  | cons op front ih =>
    cases h with
    | cons happly hrecord hrest =>
      obtain ⟨middle, hfront, hback⟩ := ih hrest
      exact ⟨middle, .cons happly hrecord hfront, hback⟩

/-- An operation is recorded with its order, which it would get again. -/
theorem of_apply {op : PaintOperation U D} (happly : scene.apply op = .ok scene') :
    scene' = scene ∨ ∃ op', scene.apply op' = .ok scene' ∧
      scene'.paintOperations = scene.paintOperations ++ [op'] := by
  cases Scene.apply_iff.mp happly with
  | skip x hempty => exact Or.inl rfl
  | push bounds tree order hinsert => exact Or.inr ⟨_, happly, rfl⟩
  | pop => exact Or.inr ⟨_, happly, rfl⟩
  | record x tree order hempty horder =>
    refine Or.inr ⟨_, Scene.apply_iff.mpr ?_, Scene.record_paintOperations _ _ _⟩
    have happlies : (x.numbered order
      (scene.primitives .path).length).clippedBounds.isEmpty = false →
        scene.nextOrder (x.numbered order (scene.primitives .path).length).clippedBounds =
          .ok (tree, order) → Scene.Applies scene _ _ := .record _ tree order
    rw [Drawn.clippedBounds_numbered, Drawn.numbered_numbered] at happlies
    exact happlies hempty horder

/-- A scene is what its own operations build. -/
theorem of_applyAll {calls : List (PaintOperation U D)} (hrun : scene.applyAll calls = .ok scene') :
    ∃ operations, Records scene operations scene' := by
  induction calls generalizing scene with
  | nil =>
    obtain rfl := Except.ok.inj hrun
    exact ⟨[], .nil scene⟩
  | cons op calls ih =>
    obtain ⟨next, happly, hrest⟩ := Scene.applyAll_cons hrun
    obtain ⟨operations, hrecords⟩ := ih hrest
    rcases of_apply happly with rfl | ⟨op', happly', hpaint⟩
    · exact ⟨operations, hrecords⟩
    · exact ⟨op' :: operations, .cons happly' hpaint hrecords⟩

end Records

/-! ### Following the whole scene -/

/-- The overlay is built from the operations that the whole scene records behind some first ones,
with orders that are at most those of the whole scene. -/
structure Follows (start : List (PaintOperation U D)) (before : List (Bounds U × ℕ))
    (whole overlay : Scene U D) (since since' : List (Bounds U × ℕ)) : Prop where
  built : Built whole (since ++ before)
  built' : Built overlay since'
  bounds : List.Forall₂ (fun e e' => e'.1 = e.1 ∧ e'.2 ≤ e.2) since since'
  stack : List.Forall₂ (fun order order' => order' ≤ order) whole.layerStack overlay.layerStack
  operations : ∃ operations, whole.paintOperations = start ++ operations ∧
    List.Forall₂ Renumbered operations overlay.paintOperations

namespace Follows

variable {start : List (PaintOperation U D)} {before since since' : List (Bounds U × ℕ)}
  {whole overlay whole' : Scene U D}

/-- The bounds tree of the overlay answers with at most the order of the whole one. -/
theorem insert (h : Follows start before whole overlay since since') {bounds : Bounds U}
    {tree : BoundsTree U} {order : ℕ}
    (hinsert : whole.primitiveBounds.insert bounds = .ok (tree, order)) :
    ∃ tree' order', overlay.primitiveBounds.insert bounds = .ok (tree', order') ∧
      order' ≤ order := by
  obtain ⟨hmax, hle, -⟩ := h.built.insert hinsert
  have hmeets : maxIntersecting bounds since' ≤ maxIntersecting bounds (since ++ before) := by
    rw [maxIntersecting_le_iff]
    intro e' he' hbounds
    obtain ⟨i, hi, rfl⟩ := List.getElem_of_mem he'
    have hi' : i < since.length := by rwa [h.bounds.length_eq]
    obtain ⟨hfst, hsnd⟩ := List.Forall₂.get h.bounds hi' hi
    rw [List.get_eq_getElem, List.get_eq_getElem] at hfst hsnd
    rw [hfst] at hbounds
    have hge := maxIntersecting_le_iff.mp le_rfl since[i]
      (List.mem_append_left before (List.getElem_mem hi')) hbounds
    exact hsnd.trans hge
  obtain ⟨tree', hrun, -⟩ := h.built'.represents.insert bounds (by omega)
  exact ⟨tree', _, hrun, by omega⟩

theorem nextOrder (h : Follows start before whole overlay since since') {bounds : Bounds U}
    {tree : BoundsTree U} {order : ℕ} (horder : whole.nextOrder bounds = .ok (tree, order)) :
    ∃ tree' order', overlay.nextOrder bounds = .ok (tree', order') ∧ order' ≤ order ∧
      List.Forall₂ (fun e e' => e'.1 = e.1 ∧ e'.2 ≤ e.2) (whole.placed bounds order)
        (overlay.placed bounds order') := by
  have hstack := h.stack
  rw [Scene.nextOrder] at horder
  cases hwhole : whole.layerStack with
  | nil =>
    rw [hwhole] at horder hstack
    have hnil := List.forall₂_nil_left_iff.mp hstack
    obtain ⟨tree', order', hrun, hle⟩ := h.insert horder
    refine ⟨tree', order', ?_, hle, ?_⟩
    · rw [Scene.nextOrder, hnil]
      exact hrun
    · rw [Scene.placed_of_nil hwhole, Scene.placed_of_nil hnil]
      exact .cons ⟨rfl, hle⟩ .nil
  | cons top orders =>
    rw [hwhole] at horder hstack
    obtain ⟨-, rfl⟩ := Prod.mk.inj (Except.ok.inj horder)
    obtain ⟨top', orders', hle, -, hoverlay⟩ := List.forall₂_cons_left_iff.mp hstack
    refine ⟨overlay.primitiveBounds, top', ?_, hle, ?_⟩
    · rw [Scene.nextOrder, hoverlay]
    · rw [Scene.placed_of_cons hwhole, Scene.placed_of_cons hoverlay]
      exact .nil

/-- The overlay follows the whole scene through an operation. -/
theorem step (h : Follows start before whole overlay since since') {op : PaintOperation U D}
    (happly : whole.apply op = .ok whole') :
    ∃ overlay' since₁ since₁', overlay.apply op = .ok overlay' ∧
      Follows start before whole' overlay' since₁ since₁' := by
  obtain ⟨operations, hoperations, hrenumbered⟩ := h.operations
  cases Scene.apply_iff.mp happly with
  | skip x hempty => exact ⟨overlay, since, since', Scene.apply_iff.mpr (.skip x hempty), h⟩
  | record x tree order hempty horder =>
    obtain ⟨tree', order', horder', hle, hplaced⟩ := h.nextOrder horder
    refine ⟨_, whole.placed x.clippedBounds order ++ since,
      overlay.placed x.clippedBounds order' ++ since',
      Scene.apply_iff.mpr (.record x tree' order' hempty horder'), ?_, ?_, ?_, ?_, ?_⟩
    · rw [List.append_assoc]
      exact h.built.recordNumbered _ hempty horder
    · exact h.built'.recordNumbered _ hempty horder'
    · exact List.rel_append hplaced h.bounds
    · rw [Scene.record_layerStack, Scene.record_layerStack]
      exact h.stack
    · refine ⟨operations ++ [(x.numbered order (whole.primitives .path).length).operation], ?_, ?_⟩
      · rw [Scene.record_paintOperations, hoperations, List.append_assoc]
      · rw [Scene.record_paintOperations]
        refine List.rel_append hrenumbered (.cons ?_ .nil)
        have hdrawn := Renumbered.drawn (x.numbered order (whole.primitives .path).length) order'
          (overlay.primitives .path).length
        rw [Drawn.order_numbered, Drawn.numbered_numbered] at hdrawn
        exact hdrawn hle
  | push bounds tree order hinsert =>
    obtain ⟨tree', order', hinsert', hle⟩ := h.insert hinsert
    refine ⟨_, (bounds, order) :: since, (bounds, order') :: since',
      Scene.apply_iff.mpr (.push bounds tree' order' hinsert'), h.built.push hinsert,
      h.built'.push hinsert', .cons ⟨rfl, hle⟩ h.bounds, .cons hle h.stack,
      operations ++ [.startLayer bounds], ?_, ?_⟩
    · show whole.paintOperations ++ _ = _
      rw [hoperations, List.append_assoc]
    · exact List.rel_append hrenumbered (.cons (.startLayer bounds) .nil)
  | pop =>
    refine ⟨_, since, since', Scene.apply_iff.mpr .pop, h.built.pop, h.built'.pop, h.bounds, ?_,
      operations ++ [.endLayer], ?_, ?_⟩
    · show List.Forall₂ _ whole.layerStack.tail overlay.layerStack.tail
      rw [← List.drop_one, ← List.drop_one]
      exact List.forall₂_drop 1 h.stack
    · show whole.paintOperations ++ _ = _
      rw [hoperations, List.append_assoc]
    · exact List.rel_append hrenumbered (.cons .endLayer .nil)

theorem records (h : Follows start before whole overlay since since')
    {operations : List (PaintOperation U D)} (hrecords : Records whole operations whole') :
    ∃ overlay' since₁ since₁', overlay.applyAll operations = .ok overlay' ∧
      Follows start before whole' overlay' since₁ since₁' := by
  induction hrecords generalizing overlay since since' with
  | nil scene => exact ⟨overlay, since, since', rfl, h⟩
  | cons happly hrecord hrest ih =>
    obtain ⟨next, since₁, since₁', hnext, hfollows⟩ := h.step happly
    obtain ⟨overlay', since₂, since₂', hrun, hlast⟩ := ih hfollows
    refine ⟨overlay', since₂, since₂', ?_, hlast⟩
    rw [Scene.applyAll, List.foldlM_cons, hnext]
    exact hrun

end Follows

/-! ### The operations of both planes -/

omit [AddCommGroup U] [LinearOrder U] in
theorem depth_append {start operations : List (PaintOperation U D)} (h : depth start = 0) :
    depth (start ++ operations) = depth operations := by
  rw [depth, List.foldl_append]
  show operations.foldl _ (depth start) = _
  rw [h, depth]

omit [AddCommGroup U] [LinearOrder U] in
theorem depth_renumbered {operations operations' : List (PaintOperation U D)}
    (h : List.Forall₂ Renumbered operations operations') :
      depth operations = depth operations' := by
  have hfold : ∀ n, operations.foldl PaintOperation.depthAfter n =
      operations'.foldl PaintOperation.depthAfter n := by
    induction h with
    | nil => exact fun n => rfl
    | cons hop _ ih =>
      intro n
      rw [List.foldl_cons, List.foldl_cons]
      cases hop with
      | drawn x order id hle => rw [depthAfter_operation, depthAfter_operation, ih]
      | startLayer bounds => exact ih _
      | endLayer => exact ih _
  exact hfold 0

omit [AddCommGroup U] [LinearOrder U] in
theorem FreeAt.take {start operations : List (PaintOperation U D)} {i : ℕ} {x : Drawn U D}
    (h : FreeAt (start ++ operations) i x) (hi : i < start.length) : FreeAt start i x := by
  obtain ⟨hget, hdepth⟩ := h
  rw [List.getElem?_append_left hi] at hget
  rw [List.take_append_of_le_length hi.le] at hdepth
  exact ⟨hget, hdepth⟩

omit [AddCommGroup U] [LinearOrder U] in
theorem FreeAt.drop {start operations : List (PaintOperation U D)} {i : ℕ} {x : Drawn U D}
    (h : FreeAt (start ++ operations) i x) (hstart : depth start = 0) (hi : start.length ≤ i) :
    FreeAt operations (i - start.length) x := by
  obtain ⟨hget, hdepth⟩ := h
  rw [List.getElem?_append_right hi] at hget
  rw [List.take_append, List.take_of_length_le hi, depth_append hstart] at hdepth
  exact ⟨hget, hdepth⟩

omit [AddCommGroup U] [LinearOrder U] in
theorem FreeAt.renumbered {operations operations' : List (PaintOperation U D)}
    (h : List.Forall₂ Renumbered operations operations') {i : ℕ} {x : Drawn U D}
    (hfree : FreeAt operations i x) :
    ∃ order id, order ≤ x.order ∧ FreeAt operations' i (x.numbered order id) := by
  obtain ⟨hget, hdepth⟩ := hfree
  obtain ⟨hi, hop⟩ := List.getElem?_eq_some_iff.mp hget
  have hi' : i < operations'.length := by rwa [← h.length_eq]
  have hrenumbered := List.Forall₂.get h hi hi'
  rw [List.get_eq_getElem, List.get_eq_getElem, hop] at hrenumbered
  have hdepth' := depth_renumbered (List.forall₂_take i h)
  rw [hdepth] at hdepth'
  generalize hop' : operations'[i] = op' at hrenumbered
  generalize hx : x.operation = op at hrenumbered
  cases hrenumbered with
  | startLayer bounds => cases x <;> cases hx
  | endLayer => cases x <;> cases hx
  | drawn y order id hle =>
    have heq := congrArg PaintOperation.drawn hx
    rw [Drawn.drawn_operation, Drawn.drawn_operation] at heq
    obtain rfl := Option.some.inj heq
    exact ⟨order, id, hle, List.getElem?_eq_some_iff.mpr ⟨hi', hop'⟩, hdepth'.symm⟩

omit [AddCommGroup U] [LinearOrder U] in
theorem drawn_renumbered {operations operations' : List (PaintOperation U D)}
    (h : List.Forall₂ Renumbered operations operations') (slot : Option PrimitiveKind) :
    ((operations.filterMap PaintOperation.drawn).filter fun x => x.slot = slot).map Drawn.erase =
      ((operations'.filterMap PaintOperation.drawn).filter fun x => x.slot = slot).map
        Drawn.erase := by
  induction h with
  | nil => rfl
  | cons hop _ ih =>
    cases hop with
    | startLayer bounds => exact ih
    | endLayer => exact ih
    | drawn x order id hle =>
      rw [List.filterMap_cons_some (Drawn.drawn_operation _),
        List.filterMap_cons_some (Drawn.drawn_operation _), List.filter_cons, List.filter_cons,
        Drawn.slot_numbered]
      split_ifs
      · rw [List.map_cons, List.map_cons, ih, Drawn.erase, Drawn.erase, Drawn.numbered_numbered]
      · exact ih

/-! ### Drawing both planes -/

/-- The order of what the planes draw. -/
def PlaneLe (a b : Plane × Drawn U D) : Prop :=
  a.1 = .base ∧ b.1 = .overlay ∨ a.1 = b.1 ∧ Drawn.Le a.2 b.2

omit [AddCommGroup U] [LinearOrder U] in
theorem planes_pairwise {drawnBase drawnOverlay : List (Drawn U D)}
    (hbase : drawnBase.Pairwise Drawn.Le) (hoverlay : drawnOverlay.Pairwise Drawn.Le) :
    (drawnBase.map (Prod.mk Plane.base) ++ drawnOverlay.map (Prod.mk Plane.overlay)).Pairwise
      PlaneLe := by
  refine List.pairwise_append.mpr ⟨?_, ?_, ?_⟩
  · exact List.pairwise_map.mpr (hbase.imp fun hle => Or.inr ⟨rfl, hle⟩)
  · exact List.pairwise_map.mpr (hoverlay.imp fun hle => Or.inr ⟨rfl, hle⟩)
  · intro a ha b hb
    obtain ⟨x, -, rfl⟩ := List.mem_map.mp ha
    obtain ⟨y, -, rfl⟩ := List.mem_map.mp hb
    exact Or.inl ⟨rfl, rfl⟩

theorem before_of_pairwise {α : Type} {r : α → α → Prop} {xs : List α} (h : xs.Pairwise r) {x y : α}
    (hx : x ∈ xs) (hy : y ∈ xs) (hnot : ¬ r y x) : Before xs x y :=
  ⟨hx, hy, fun hsub => hnot (List.pairwise_pair.mp (h.sublist hsub))⟩

omit [AddCommGroup U] [LinearOrder U] in
theorem FreeAt.mem_drawn {scene : Scene U D} {i : ℕ} {x : Drawn U D}
    (h : FreeAt scene.paintOperations i x) : x ∈ scene.drawn :=
  List.mem_filterMap.mpr ⟨x.operation, List.mem_of_getElem? h.1, Drawn.drawn_operation x⟩

/-- Drawing what operations build draws what is shown of it, sorted. -/
theorem Built.drawScene {scene : Scene U D} {earlier : List (Bounds U × ℕ)}
    (h : Built scene earlier) :
    ∃ out, drawScene scene.finish = .ok out ∧ out.Pairwise Drawn.Le ∧
      ∀ x, x ∈ out ↔ x.Shown ∧ x ∈ scene.drawn := by
  obtain ⟨out, hdraw, hsorted, hmem⟩ := h.wellFormed.drawScene_spec
  refine ⟨out, hdraw, hsorted, fun x => (hmem x).trans (and_congr_right fun _ => ?_)⟩
  constructor
  · rintro ⟨k, hk⟩
    rw [h.vectors] at hk
    exact (List.mem_filter.mp hk).1
  · intro hx
    refine ⟨x.slot, ?_⟩
    rw [h.vectors]
    exact List.mem_filter.mpr ⟨hx, by simp⟩

omit [AddCommGroup U] [LinearOrder U] in
theorem shown_numbered {x : Drawn U D} (h : x.Shown) {order : ℕ} (id : ℕ) (hle : order ≤ x.order) :
    (x.numbered order id).Shown := by
  rcases h with h | h
  · left
    rw [Drawn.order_numbered]
    exact hle.trans_lt h
  · right
    rw [Drawn.slot_numbered]
    exact h

/-- A scene that is split outside all layers: the operations of its base, and those of its overlay
with lesser orders. -/
theorem exists_split {calls : List (PaintOperation U D)} {whole : Scene U D}
    (hbuild : ({} : Scene U D).applyAll calls = .ok whole) {split : ℕ}
    (hsplit : split ≤ whole.paintOperations.length)
    (hdepth : depth (whole.paintOperations.take split) = 0) :
    ∃ base overlay earlier earlier', ({} : Scene U D).replay (0, split) whole = .ok base ∧
      ({} : Scene U D).replay (split, whole.paintOperations.length) whole = .ok overlay ∧
      Built base earlier ∧ Built overlay earlier' ∧
      base.paintOperations = whole.paintOperations.take split ∧
      List.Forall₂ Renumbered (whole.paintOperations.drop split) overlay.paintOperations ∧
      (split = whole.paintOperations.length → base = whole ∧ overlay = {}) := by
  obtain ⟨operations, hrecords⟩ := Records.of_applyAll hbuild
  obtain rfl : whole.paintOperations = operations := hrecords.paintOperations
  have hall := hrecords.applyAll
  rw [← List.take_append_drop split whole.paintOperations] at hrecords
  obtain ⟨base, hfront, hback⟩ := hrecords.split
  have hbase : base.paintOperations = whole.paintOperations.take split := hfront.paintOperations
  obtain ⟨earlier, hbuilt⟩ := built_empty.applyAll hfront.applyAll
  have hstack : base.layerStack = [] := by
    rw [← hbase, hbuilt.depth] at hdepth
    exact List.eq_nil_of_length_eq_zero hdepth
  have hstart : Follows base.paintOperations ([] ++ (earlier ++ [])) base ({} : Scene U D) [] [] :=
    ⟨hbuilt, built_empty, .nil, by rw [hstack]; exact .nil, [], (List.append_nil _).symm, .nil⟩
  obtain ⟨overlay, since, since', hoverlay, hfollows⟩ := hstart.records hback
  obtain ⟨rest, hrest, hrenumbered⟩ := hfollows.operations
  have hdrop : whole.paintOperations.drop split = rest := by
    rw [hbase] at hrest
    have hlength : (whole.paintOperations.take split).length = split := by
      rw [List.length_take, min_eq_left hsplit]
    rw [hrest, List.drop_left' hlength]
  refine ⟨base, overlay, _, since', ?_, ?_, hbuilt, hfollows.built', hbase, hdrop ▸ hrenumbered, ?_⟩
  · rw [Scene.replay, List.drop_zero]
    exact hfront.applyAll
  · rw [Scene.replay, List.take_length]
    exact hoverlay
  · intro heq
    have hfront := hfront.applyAll
    rw [heq, List.take_length] at hfront
    rw [heq, List.drop_length] at hoverlay
    exact ⟨Except.ok.inj (hfront.symm.trans hall), (Except.ok.inj hoverlay).symm⟩

/-- The operations of both planes. -/
def planeOperations (base overlay : Scene U D) : List (Plane × PaintOperation U D) :=
  base.paintOperations.map (Prod.mk .base) ++ overlay.paintOperations.map (Prod.mk .overlay)

omit [AddCommGroup U] [LinearOrder U] in
/-- What is outside layers is so in its plane. -/
theorem exists_copy {base overlay : Scene U D} {rest : List (PaintOperation U D)}
    (hdepth : depth base.paintOperations = 0)
    (hrest : List.Forall₂ Renumbered rest overlay.paintOperations) {i : ℕ} {x : Drawn U D}
    (h : FreeAt (base.paintOperations ++ rest) i x) :
    ∃ x' : Plane × Drawn U D,
      (planeOperations base overlay)[i]? = some (x'.1, x'.2.operation) ∧ x'.2.erase = x.erase ∧
      (x.Shown → x'.2.Shown) ∧
      (x' = (.base, x) ∧ FreeAt base.paintOperations i x ∨
        x'.1 = .overlay ∧ base.paintOperations.length ≤ i ∧
          FreeAt overlay.paintOperations (i - base.paintOperations.length) x'.2) := by
  by_cases hi : i < base.paintOperations.length
  · have hfree := h.take hi
    refine ⟨(.base, x), ?_, rfl, id, Or.inl ⟨rfl, hfree⟩⟩
    rw [planeOperations, List.getElem?_append_left (by rwa [List.length_map]), List.getElem?_map,
      hfree.1]
    rfl
  · have hi := not_lt.mp hi
    obtain ⟨order, id, hle, hfree⟩ := FreeAt.renumbered hrest (h.drop hdepth hi)
    refine ⟨(.overlay, x.numbered order id), ?_, Drawn.numbered_numbered 0 0 order id x,
      fun hx => shown_numbered hx id hle, Or.inr ⟨rfl, hi, hfree⟩⟩
    rw [planeOperations, List.getElem?_append_right (by rwa [List.length_map]), List.length_map,
      List.getElem?_map, hfree.1]
    rfl

/-- A split outside all layers keeps what a scene has, up to the orders and the numbers of paths,
and draws what meets outside all layers in the order in which the whole scene draws it. -/
theorem draw_layered_keeps_order {calls : List (PaintOperation U D)} {whole : Scene U D}
    (hbuild : ({} : Scene U D).applyAll calls = .ok whole) {split : ℕ}
    (hsplit : split ≤ whole.paintOperations.length)
    (hdepth : depth (whole.paintOperations.take split) = 0) :
    ∃ base overlay drawn drawnBase drawnOverlay,
      ({} : Scene U D).replay (0, split) whole = .ok base ∧
      ({} : Scene U D).replay (split, whole.paintOperations.length) whole = .ok overlay ∧
      (∀ slot, ((base.finish.vectors slot ++ overlay.finish.vectors slot).map Drawn.erase).Perm
        ((whole.finish.vectors slot).map Drawn.erase)) ∧
      drawScene whole.finish = .ok drawn ∧ drawScene base.finish = .ok drawnBase ∧
      drawScene overlay.finish = .ok drawnOverlay ∧
      drawLayered whole.finish split =
        .ok (drawnBase.map (Prod.mk .base) ++ drawnOverlay.map (Prod.mk .overlay)) ∧
      ∀ i j x y, i < j → FreeAt whole.paintOperations i x → FreeAt whole.paintOperations j y →
        x.clippedBounds.intersects y.clippedBounds = true → x ∈ drawn → y ∈ drawn →
        Before drawn x y ∧ ∃ x' y',
          (planeOperations base overlay)[i]? = some (x'.1, x'.2.operation) ∧
          (planeOperations base overlay)[j]? = some (y'.1, y'.2.operation) ∧
          x'.2.erase = x.erase ∧ y'.2.erase = y.erase ∧
          Before (drawnBase.map (Prod.mk .base) ++ drawnOverlay.map (Prod.mk .overlay)) x' y' := by
  obtain ⟨base, overlay, earlier, earlier', hreplay, hreplay', hbuilt, hbuilt', hbase,
    hrest, hend⟩ :=
    exists_split hbuild hsplit hdepth
  obtain ⟨all, hwhole⟩ := built_empty.applyAll hbuild
  obtain ⟨drawn, hdrawn, hsorted, hmem⟩ := hwhole.drawScene
  obtain ⟨drawnBase, hdrawnBase, hsortedBase, hmemBase⟩ := hbuilt.drawScene
  obtain ⟨drawnOverlay, hdrawnOverlay, hsortedOverlay, hmemOverlay⟩ := hbuilt'.drawScene
  have hsum : whole.paintOperations = base.paintOperations ++ whole.paintOperations.drop split := by
    rw [hbase, List.take_append_drop]
  refine ⟨base, overlay, drawn, drawnBase, drawnOverlay, hreplay, hreplay', ?_, hdrawn, hdrawnBase,
    hdrawnOverlay, ?_, ?_⟩
  · intro slot
    have hperm := ((base.finish_vectors_perm slot).append (overlay.finish_vectors_perm slot)).map
      Drawn.erase
    refine hperm.trans (List.Perm.trans ?_ ((whole.finish_vectors_perm slot).map _).symm)
    rw [hbuilt.vectors, hbuilt'.vectors, hwhole.vectors, List.map_append, Scene.drawn, Scene.drawn,
      Scene.drawn, ← drawn_renumbered hrest slot, hsum, List.filterMap_append, List.filter_append,
      List.map_append]
    rw [hbase, List.take_append_drop]
  · have hreplay₁ : ({} : Scene U D).replay (0, split) whole.finish = .ok base := hreplay
    have hreplay₂ : ({} : Scene U D).replay (split, whole.paintOperations.length) whole.finish =
        .ok overlay := hreplay'
    have hpaint : whole.finish.paintOperations = whole.paintOperations := rfl
    rw [drawLayered, hpaint, min_eq_left hsplit]
    by_cases heq : split = whole.paintOperations.length
    · -- the whole scene is the base
      obtain ⟨rfl, rfl⟩ := hend heq
      obtain rfl := Except.ok.inj (hdrawn.symm.trans hdrawnBase)
      obtain rfl : [] = drawnOverlay := Except.ok.inj hdrawnOverlay
      rw [if_pos heq, hdrawn]
      show Except.ok _ = _
      rw [List.map_nil, List.append_nil]
    · rw [if_neg heq, hreplay₁, hreplay₂]
      simp only [ok_bind, hdrawnBase, hdrawnOverlay]
  · intro i j x y hij hi hj hmeets hx hy
    have hxy := hwhole.free_lt i j x y hij hi hj hmeets
    refine ⟨before_of_pairwise hsorted hx hy fun hle => ?_, ?_⟩
    · have hle := Drawn.order_le_of_le hle
      omega
    rw [hsum] at hi hj
    have hdepth' : depth base.paintOperations = 0 := hbase ▸ hdepth
    obtain ⟨x', hgetx, herasex, hshownx, hcasex⟩ := exists_copy hdepth' hrest hi
    obtain ⟨y', hgety, herasey, hshowny, hcasey⟩ := exists_copy hdepth' hrest hj
    refine ⟨x', y', hgetx, hgety, herasex, herasey, ?_⟩
    -- both are drawn in their planes, where they are shown as well
    have hplane : ∀ (k : ℕ) (z : Drawn U D) (z' : Plane × Drawn U D), z'.2.Shown →
        (z' = (.base, z) ∧ FreeAt base.paintOperations k z ∨
          z'.1 = .overlay ∧ base.paintOperations.length ≤ k ∧
            FreeAt overlay.paintOperations (k - base.paintOperations.length) z'.2) →
        z' ∈ drawnBase.map (Prod.mk .base) ++ drawnOverlay.map (Prod.mk .overlay) := by
      intro k z z' hshown hcase
      rcases hcase with ⟨rfl, hfree⟩ | ⟨hplane, -, hfree⟩
      · exact List.mem_append_left _
          (List.mem_map_of_mem ((hmemBase z).mpr ⟨hshown, hfree.mem_drawn⟩))
      · refine List.mem_append_right _ (List.mem_map.mpr ⟨z'.2, ?_, Prod.ext hplane.symm rfl⟩)
        exact (hmemOverlay _).mpr ⟨hshown, hfree.mem_drawn⟩
    refine before_of_pairwise (planes_pairwise hsortedBase hsortedOverlay)
      (hplane i x x' (hshownx ((hmem x).mp hx).1) hcasex)
      (hplane j y y' (hshowny ((hmem y).mp hy).1) hcasey) ?_
    have hbounds : ∀ {z z' : Drawn U D}, z'.erase = z.erase →
      z'.clippedBounds = z.clippedBounds := by
      intro z z' herase
      have hclipped := congrArg Drawn.clippedBounds herase
      rwa [Drawn.erase, Drawn.erase, Drawn.clippedBounds_numbered,
        Drawn.clippedBounds_numbered] at hclipped
    rintro (⟨hbase', hoverlay'⟩ | ⟨hsame, hle⟩)
    · -- the base has the earlier one
      rcases hcasex with ⟨rfl, -⟩ | ⟨-, hi', -⟩
      · cases hoverlay'
      · rcases hcasey with ⟨rfl, hfree⟩ | ⟨hplane', -, -⟩
        · have hlt := hfree.lt_length
          omega
        · rw [hplane'] at hbase'
          cases hbase'
    · have hle := Drawn.order_le_of_le hle
      rcases hcasex with ⟨rfl, hfree⟩ | ⟨hplanex, hi', hfree⟩
      · rcases hcasey with ⟨rfl, hfree'⟩ | ⟨hplaney, -, -⟩
        · dsimp only at hle
          omega
        · rw [hplaney] at hsame
          cases hsame
      · rcases hcasey with ⟨rfl, hfree'⟩ | ⟨hplaney, -, hfree'⟩
        · rw [hplanex] at hsame
          cases hsame
        · have hlt := hbuilt'.free_lt _ _ x'.2 y'.2 (by omega) hfree hfree'
            (by rwa [hbounds herasex, hbounds herasey])
          omega

end

/-- Two paths that overlap. -/
def twoPaths : List (PaintOperation ℚ Unit) :=
  [.primitive ⟨.path, 0, 0, ⟨⟨0, 0⟩, ⟨10, 10⟩⟩, ⟨⟨0, 0⟩, ⟨100, 100⟩⟩,
    ⟨0, 0, 0, ⟨⟨0, 0⟩, ⟨0, 0⟩⟩⟩, ()⟩,
    .primitive ⟨.path, 0, 0, ⟨⟨5, 0⟩, ⟨10, 10⟩⟩, ⟨⟨0, 0⟩, ⟨100, 100⟩⟩,
      ⟨0, 0, 0, ⟨⟨0, 0⟩, ⟨0, 0⟩⟩⟩, ()⟩]

/-- The first path is drawn before the second one, also when it is on another plane. -/
theorem draw_layered_keeps_order_paths : ∃ whole,
    ({} : Scene ℚ Unit).applyAll twoPaths = .ok whole ∧
    ∃ base overlay drawn layered, ({} : Scene ℚ Unit).replay (0, 1) whole = .ok base ∧
      ({} : Scene ℚ Unit).replay (1, whole.paintOperations.length) whole = .ok overlay ∧
      (∀ slot, ((base.finish.vectors slot ++ overlay.finish.vectors slot).map Drawn.erase).Perm
        ((whole.finish.vectors slot).map Drawn.erase)) ∧
      drawScene whole.finish = .ok drawn ∧ drawLayered whole.finish 1 = .ok layered ∧
      ∃ x y x' y', FreeAt whole.paintOperations 0 x ∧ FreeAt whole.paintOperations 1 y ∧
        Before drawn x y ∧ x'.2.erase = x.erase ∧ y'.2.erase = y.erase ∧ Before layered x' y' := by
  have hrun : (({} : Scene ℚ Unit).applyAll twoPaths).toOption.any (fun whole =>
      (drawScene whole.finish).toOption.any fun drawn =>
        (whole.paintOperations[0]? >>= PaintOperation.drawn).any fun x =>
          (whole.paintOperations[1]? >>= PaintOperation.drawn).any fun y =>
            decide (1 ≤ whole.paintOperations.length) &&
              decide (depth (whole.paintOperations.take 1) = 0) &&
              x.clippedBounds.intersects y.clippedBounds && decide (x ∈ drawn) &&
              decide (y ∈ drawn)) = true := by decide +kernel
  have hget {whole : Scene ℚ Unit} {k : ℕ} {z : Drawn ℚ Unit}
      (hz : whole.paintOperations[k]? >>= PaintOperation.drawn = some z) :
      whole.paintOperations[k]? = some z.operation := by
    obtain ⟨op, hop, hdrawn⟩ := Option.bind_eq_some_iff.mp hz
    rw [hop, Drawn.eq_operation_of_drawn hdrawn]
  cases hbuild : ({} : Scene ℚ Unit).applyAll twoPaths with
  | error e =>
    rw [hbuild] at hrun
    cases hrun
  | ok whole =>
    rw [hbuild, Except.toOption, Option.any_some] at hrun
    obtain ⟨drawn, hdrawn, hrun⟩ := (Option.any_eq_true _ _).mp hrun
    obtain ⟨x, hx, hrun⟩ := (Option.any_eq_true _ _).mp hrun
    obtain ⟨y, hy, hrun⟩ := (Option.any_eq_true _ _).mp hrun
    simp only [Bool.and_eq_true, decide_eq_true_eq] at hrun
    obtain ⟨⟨⟨⟨hlength, hdepth⟩, hmeets⟩, hxdrawn⟩, hydrawn⟩ := hrun
    obtain ⟨base, overlay, drawn', _, _, hbase, hoverlay, hperm, hdraw, -, -, hlayered, hbefore⟩ :=
      draw_layered_keeps_order hbuild hlength hdepth
    rw [hdraw, Except.toOption, Option.some.injEq] at hdrawn
    subst hdrawn
    have hfreex : FreeAt whole.paintOperations 0 x := ⟨hget hx, rfl⟩
    have hfreey : FreeAt whole.paintOperations 1 y := ⟨hget hy, hdepth⟩
    obtain ⟨hfirst, x', y', -, -, hx', hy', hfirst'⟩ :=
      hbefore 0 1 x y one_pos hfreex hfreey hmeets hxdrawn hydrawn
    exact ⟨whole, rfl, base, overlay, drawn', _, hbase, hoverlay, hperm, hdraw, hlayered, x, y, x',
      y', hfreex, hfreey, hfirst, hx', hy', hfirst'⟩

/-- The scene is split behind its first operation, and draws other paths. -/
def renumbers (operations : List (PaintOperation ℚ Unit)) : Bool :=
  match ({} : Scene ℚ Unit).applyAll operations with
  | .error _ => false
  | .ok whole =>
    match ({} : Scene ℚ Unit).replay (0, 1) whole,
        ({} : Scene ℚ Unit).replay (1, whole.paintOperations.length) whole with
    | .ok base, .ok overlay => decide (depth (whole.paintOperations.take 1) = 0) &&
        !decide (((base.finish.primitives .path ++ overlay.finish.primitives .path).map
          fun p => { p with order := 0 }).Perm
            ((whole.finish.primitives .path).map fun p => { p with order := 0 }))
    | _, _ => false

/-- The paths of the overlay are numbered anew. -/
theorem split_renumbers_paths : ∃ whole base overlay,
    ({} : Scene ℚ Unit).applyAll twoPaths = .ok whole ∧ depth (whole.paintOperations.take 1) = 0 ∧
      ({} : Scene ℚ Unit).replay (0, 1) whole = .ok base ∧
      ({} : Scene ℚ Unit).replay (1, whole.paintOperations.length) whole = .ok overlay ∧
      ¬ ((base.finish.primitives .path ++ overlay.finish.primitives .path).map
        fun p => { p with order := 0 }).Perm
          ((whole.finish.primitives .path).map fun p => { p with order := 0 }) := by
  have hrun : renumbers twoPaths = true := by decide +kernel
  rw [renumbers] at hrun
  cases hbuild : ({} : Scene ℚ Unit).applyAll twoPaths with
  | error e =>
    rw [hbuild] at hrun
    cases hrun
  | ok whole =>
    rw [hbuild] at hrun
    dsimp only at hrun
    split at hrun
    · rename_i base overlay hbase hoverlay
      simp only [Bool.and_eq_true, decide_eq_true_eq, Bool.not_eq_true',
        decide_eq_false_iff_not] at hrun
      exact ⟨whole, base, overlay, rfl, hrun.1, hbase, hoverlay, hrun.2⟩
    · cases hrun

end DrawOrder

end Zui
