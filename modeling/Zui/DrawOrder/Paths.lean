/-
Copying a batch of paths from the intermediate texture.

The paths of a batch are drawn to an intermediate texture, and then copied: where the first and the
last path have one order each path by itself, else one rectangle around all of them.

Main statements:

* `Built.order_lt_or_lt` — paths that meet outside all layers have different orders;
* `path_sprites_once_iff` — when each pixel is copied once;
* `layer_paths_copied_twice` — two paths of a layer that are not, and two whose bounds are rounded.
-/
import Zui.DrawOrder.Rounded

namespace Zui

open Gpui (Bounds BoundsTree Point Result)

namespace DrawOrder

section Copying

variable {U D : Type} [Add U] [Sub U] [Zero U] [LinearOrder U]

/-! ### Sprites -/

/-- The sprites of `draw_paths_from_intermediate`. -/
def pathSprites : List (Primitive U D) → List (Bounds U)
  | [] => []
  | firstPath :: rest =>
    let paths := firstPath :: rest
    if paths.getLast?.map Primitive.order = some firstPath.order then
      paths.map Primitive.clippedBounds
    else
      [rest.foldl (fun bounds path => bounds.union path.clippedBounds) firstPath.clippedBounds]

/-- A pixel is copied by a sprite. -/
def copies (sprite : Bounds U) (pixel : Point U) : Bool :=
  sprite.origin.x ≤ pixel.x && pixel.x < sprite.bottomRight.x &&
    (sprite.origin.y ≤ pixel.y && pixel.y < sprite.bottomRight.y)

/-- Each pixel is copied at most once: by disjoint sprites of paths with one order, or by a single
sprite. -/
structure CopiedOnce (paths : List (Primitive U D)) : Prop where
  once : ∀ pixel, (pathSprites paths).countP (copies · pixel) ≤ 1
  disjoint : (∀ p ∈ paths, ∀ q ∈ paths, p.order = q.order) →
    pathSprites paths = paths.map Primitive.clippedBounds ∧
      (pathSprites paths).Pairwise fun a b => a.intersects b = false
  single : ¬ (∀ p ∈ paths, ∀ q ∈ paths, p.order = q.order) → (pathSprites paths).length = 1

omit [Sub U] [Zero U] in
theorem intersects_of_copies {a b : Bounds U} {pixel : Point U} (ha : copies a pixel = true)
    (hb : copies b pixel = true) : a.intersects b = true := by
  simp only [copies, Bool.and_eq_true, decide_eq_true_eq] at ha hb
  obtain ⟨⟨hax, hax'⟩, hay, hay'⟩ := ha
  obtain ⟨⟨hbx, hbx'⟩, hby, hby'⟩ := hb
  simp only [Bounds.intersects, Bool.and_eq_true, decide_eq_true_eq]
  exact ⟨⟨⟨hax.trans_lt hbx', hbx.trans_lt hax'⟩, hay.trans_lt hby'⟩, hby.trans_lt hay'⟩

omit [Sub U] [Zero U] in
theorem countP_copies_le_one {sprites : List (Bounds U)}
    (h : sprites.Pairwise fun a b => a.intersects b = false) (pixel : Point U) :
    sprites.countP (copies · pixel) ≤ 1 := by
  induction h with
  | nil => simp
  | @cons a sprites ha _ ih =>
    rw [List.countP_cons]
    split_ifs with hpixel
    · -- no other sprite has the pixel
      have hzero : sprites.countP (copies · pixel) = 0 := by
        rw [List.countP_eq_zero]
        intro b hb hcopies
        have hmeets := intersects_of_copies hpixel hcopies
        rw [ha b hb] at hmeets
        cases hmeets
      omega
    · exact ih

omit [Add U] [Sub U] [Zero U] [LinearOrder U] in
/-- In a sorted batch the test of the code is whether all orders are equal. -/
theorem getLast_order_iff {first : Primitive U D} {rest : List (Primitive U D)}
    (hsorted : (first :: rest).Pairwise fun p q => p.order ≤ q.order) :
    (first :: rest).getLast?.map Primitive.order = some first.order ↔
      ∀ p ∈ first :: rest, ∀ q ∈ first :: rest, p.order = q.order := by
  have hfirst : ∀ p ∈ first :: rest, first.order ≤ p.order := by
    intro p hp
    rcases List.mem_cons.mp hp with rfl | hp
    · exact le_rfl
    · exact (List.pairwise_cons.mp hsorted).1 p hp
  have hlast : ∀ p ∈ first :: rest,
    p.order ≤ ((first :: rest).getLast (List.cons_ne_nil _ _)).order := by
    intro p hp
    rw [← List.dropLast_append_getLast (List.cons_ne_nil first rest)] at hsorted hp
    rcases List.mem_append.mp hp with hp | hp
    · exact (List.pairwise_append.mp hsorted).2.2 p hp _ (List.mem_singleton_self _)
    · rw [List.mem_singleton.mp hp]
  rw [List.getLast?_eq_some_getLast (List.cons_ne_nil _ _), Option.map_some, Option.some_inj]
  constructor
  · intro heq p hp q hq
    have hpl := hlast p hp
    have hql := hlast q hq
    have hpf := hfirst p hp
    have hqf := hfirst q hq
    omega
  · exact fun hall => hall _ (List.getLast_mem _) first List.mem_cons_self

/-! ### Paths of a scene -/

/-- Something was drawn outside all layers. -/
def Outside (scene : Scene U D) (x : Drawn U D) : Prop := ∃ i, FreeAt scene.paintOperations i x

theorem pathIds_step {scene scene' : Scene U D} {op : PaintOperation U D}
    (h : (scene.primitives .path).map Primitive.id = List.range (scene.primitives .path).length)
    (happly : scene.apply op = .ok scene') :
    (scene'.primitives .path).map Primitive.id = List.range (scene'.primitives .path).length := by
  cases Scene.apply_iff.mp happly with
  | skip x hempty => exact h
  | push bounds tree order hinsert => exact h
  | pop => exact h
  | record x tree order hempty horder =>
    cases x with
    | backdropBlur b => exact h
    | primitive p =>
      by_cases hkind : p.kind = .path
      · simp only [Scene.record, Drawn.numbered, hkind, if_true, List.map_append,
          List.length_append,
          List.length_singleton, List.range_succ, h, List.map_singleton]
      · have hne : PrimitiveKind.path ≠ p.kind := fun heq => hkind heq.symm
        simp only [Scene.record, Drawn.numbered, if_neg hne]
        exact h

theorem pathIds {operations : List (PaintOperation U D)} {scene scene' : Scene U D}
    (h : (scene.primitives .path).map Primitive.id = List.range (scene.primitives .path).length)
    (hrun : scene.applyAll operations = .ok scene') :
    (scene'.primitives .path).map Primitive.id = List.range (scene'.primitives .path).length := by
  induction operations generalizing scene with
  | nil =>
    obtain rfl := Except.ok.inj hrun
    exact h
  | cons op operations ih =>
    obtain ⟨next, happly, hrest⟩ := Scene.applyAll_cons hrun
    exact ih (pathIds_step h happly) hrest

/-- If what meets outside all layers has different orders, a batch copies each pixel once exactly if
it has not one order with two paths that meet and of which one was painted inside a layer. -/
theorem copiedOnce_iff {operations : List (PaintOperation U D)} {scene : Scene U D}
    (hbuild : ({} : Scene U D).applyAll operations = .ok scene)
    (hfree : ∀ {x y : Drawn U D}, Outside scene x → Outside scene y → x ≠ y →
      x.clippedBounds.intersects y.clippedBounds = true → x.order ≠ y.order) :
    ∀ batch ∈ scene.finish.batches, batch.kind = .path →
      (CopiedOnce (batch.primitives scene.finish) ↔
        ((∀ p ∈ batch.primitives scene.finish, ∀ q ∈ batch.primitives scene.finish,
            p.order = q.order) →
          (batch.primitives scene.finish).Pairwise fun p q =>
            p.clippedBounds.intersects q.clippedBounds = true →
              Outside scene (.primitive p) ∧ Outside scene (.primitive q))) := by
  intro batch _ hkind
  have hsub : (batch.primitives scene.finish).Sublist (scene.finish.primitives .path) := by
    rw [PrimitiveBatch.primitives, hkind]
    exact (List.drop_sublist _ _).trans (List.take_sublist _ _)
  have hsorted := (scene.finish_primitives_pairwise .path).sublist hsub
  have hnodup : (batch.primitives scene.finish).Nodup := by
    have hids : ((scene.primitives .path).map Primitive.id).Nodup := by
      rw [pathIds rfl hbuild]
      exact List.nodup_range
    have hperm := scene.finish_primitives_perm .path
    exact (hperm.nodup_iff.mpr (List.Nodup.of_map _ hids)).sublist hsub
  constructor
  · -- the sprites of one order are disjoint, so no two paths meet
    intro h horders
    obtain ⟨hsprites, hdisjoint⟩ := h.disjoint horders
    rw [hsprites, List.pairwise_map] at hdisjoint
    refine hdisjoint.imp fun {p q} hnot hmeets => ?_
    rw [hnot] at hmeets
    cases hmeets
  · intro h
    -- two paths that meet outside layers have different orders
    have hdisjoint : (∀ p ∈ batch.primitives scene.finish, ∀ q ∈ batch.primitives scene.finish,
        p.order = q.order) → (batch.primitives scene.finish).Pairwise fun p q =>
          p.clippedBounds.intersects q.clippedBounds = false := by
      intro horders
      refine (hnodup.and (h horders)).imp_of_mem fun {p q} hp hq hpq => ?_
      obtain ⟨hne, houtside⟩ := hpq
      by_contra hmeets
      rw [Bool.not_eq_false] at hmeets
      obtain ⟨hpo, hqo⟩ := houtside hmeets
      exact hfree hpo hqo (fun heq => hne (Drawn.primitive.inj heq)) hmeets (horders p hp q hq)
    generalize batch.primitives scene.finish = paths at hsorted hdisjoint
    cases paths with
    | nil => exact ⟨fun _ =>
        by simp [pathSprites], fun _ => ⟨rfl, .nil⟩, fun hne => absurd (by simp) hne⟩
    | cons first rest =>
      have htest := getLast_order_iff hsorted
      by_cases horders : ∀ p ∈ first :: rest, ∀ q ∈ first :: rest, p.order = q.order
      · have hsprites : pathSprites (first :: rest) =
          (first :: rest).map Primitive.clippedBounds := by
          rw [pathSprites]
          exact if_pos (htest.mpr horders)
        have hpairwise : (pathSprites (first :: rest)).Pairwise fun a b =>
          a.intersects b = false := by
          rw [hsprites]
          exact List.pairwise_map.mpr (hdisjoint horders)
        exact ⟨countP_copies_le_one hpairwise, fun _ => ⟨hsprites, hpairwise⟩,
          fun hne => absurd horders hne⟩
      · have hsprites : (pathSprites (first :: rest)).length = 1 := by
          rw [pathSprites, if_neg fun heq => horders (htest.mp heq)]
          rfl
        refine ⟨fun pixel => ?_, fun hall => absurd hall horders, fun _ => hsprites⟩
        rw [← hsprites]
        exact List.countP_le_length

end Copying

/-! ### Single precision -/

/-- Of two things that meet outside all layers one has the lesser order. -/
theorem Built.order_lt_or_lt {U D : Type} [AddCommGroup U] [LinearOrder U] {scene : Scene U D}
    {earlier : List (Bounds U × ℕ)} (h : Built scene earlier) {x y : Drawn U D}
    (hx : Outside scene x) (hy : Outside scene y)
    (hne : x ≠ y) (hmeets : x.clippedBounds.intersects y.clippedBounds = true) :
    x.order < y.order ∨ y.order < x.order := by
  obtain ⟨i, hi⟩ := hx
  obtain ⟨j, hj⟩ := hy
  rcases lt_trichotomy i j with hij | rfl | hij
  · exact Or.inl (h.free_lt i j x y hij hi hj hmeets)
  · refine absurd ?_ hne
    have heq := congrArg PaintOperation.drawn (Option.some.inj (hi.1.symm.trans hj.1))
    rw [Drawn.drawn_operation, Drawn.drawn_operation] at heq
    exact Option.some.inj heq
  · exact Or.inr (h.free_lt j i y x hij hj hi (by rwa [Bounds.intersects_comm]))

/-- What meets outside all layers has different orders if its bounds are as in a group. -/
theorem order_ne_of_same {U D : Type} {group : AddCommGroup U} [Add U] [Sub U] [Zero U]
    [LinearOrder U] {Fits : Bounds U → Prop}
    (h : Gpui.SameArithmetic group.toAdd group.toSub group.toZero Fits)
    {operations : List (PaintOperation U D)} (hoperations : ∀ op ∈ operations, op.Within Fits)
    {scene : Scene U D} (hbuild : ({} : Scene U D).applyAll operations = .ok scene)
    {x y : Drawn U D} (hx : Outside scene x) (hy : Outside scene y) (hne : x ≠ y)
    (hmeets : x.clippedBounds.intersects y.clippedBounds = true) : x.order ≠ y.order := by
  have hagrees := @Scene.applyAll_agrees U D _ _ _ _ _ _ _ _ h {} _ hoperations ⟨nofun, nofun⟩
  have hwithin := hagrees.post scene hbuild
  -- in the group the operations build the same scene
  obtain ⟨earlier, hbuilt⟩ := (@built_empty U D group _).applyAll (hagrees.eq.trans hbuild)
  have hfits : ∀ {x : Drawn U D}, Outside scene x →
      @Drawn.clippedBounds U D group.toAdd group.toSub _ x = x.clippedBounds ∧
        Fits x.clippedBounds := by
    rintro x ⟨i, hi⟩
    exact x.clippedBounds_eq h (hwithin.operations _ (List.mem_of_getElem? hi.1))
  obtain ⟨hclippedx, hfitsx⟩ := hfits hx
  obtain ⟨hclippedy, hfitsy⟩ := hfits hy
  rw [← h.intersects hfitsx hfitsy, ← hclippedx, ← hclippedy] at hmeets
  have hlt := hbuilt.order_lt_or_lt hx hy hne hmeets
  omega

/-- A path over a square, unclipped. -/
def squarePath (corner : ℕ) : Primitive ScaledPixels Unit :=
  ⟨.path, 0, 0, ⟨⟨px corner, px corner⟩, ⟨px 10, px 10⟩⟩, ⟨⟨px 0, px 0⟩, ⟨px 100, px 100⟩⟩,
    ⟨0, 0, 0, ⟨⟨0, 0⟩, ⟨0, 0⟩⟩⟩, ()⟩

/-- Two overlapping paths inside a layer. -/
def layerPaths : List (PaintOperation ScaledPixels Unit) :=
  [.startLayer ⟨⟨px 0, px 0⟩, ⟨px 20, px 20⟩⟩, .primitive (squarePath 0), .primitive (squarePath 5),
    .endLayer]

/-- Two overlapping paths outside all layers. -/
def freePaths : List (PaintOperation ScaledPixels Unit) :=
  [.primitive (squarePath 0), .primitive (squarePath 5)]

/-- A primitive from `x` on, 10 pixels high. -/
def wide (kind : PrimitiveKind) (x width : ℚ) : PaintOperation ScaledPixels Unit :=
  .primitive ⟨kind, 0, 0, ⟨⟨binary32 x, px 0⟩, ⟨binary32 width, px 10⟩⟩,
    ⟨⟨px 0, px 0⟩, ⟨px 1000, px 100⟩⟩, ⟨0, 0, 0, ⟨⟨0, 0⟩, ⟨0, 0⟩⟩⟩, ()⟩

/-- Two paths that overlap by less than the union of the first one with a quad is rounded by. -/
def roundedPaths : List (PaintOperation ScaledPixels Unit) :=
  [wide .path (873 / 10) (324 / 10), wide .quad (377 / 10) 67, wide .path (1197 / 10) 20]

/-- A batch of paths copies a pixel twice. -/
def copiesTwice (operations : List (PaintOperation ScaledPixels Unit))
    (pixel : Point ScaledPixels) :
    Bool :=
  match ({} : Scene ScaledPixels Unit).applyAll operations with
  | .ok scene => scene.finish.batches.any fun batch => batch.kind = .path &&
      1 < (pathSprites (batch.primitives scene.finish)).countP (copies · pixel)
  | .error _ => false

theorem exists_not_copiedOnce {operations : List (PaintOperation ScaledPixels Unit)}
    {pixel : Point ScaledPixels} (h : copiesTwice operations pixel = true) :
    ∃ scene, ({} : Scene ScaledPixels Unit).applyAll operations = .ok scene ∧
      ∃ batch ∈ scene.finish.batches, batch.kind = .path ∧
        ¬ CopiedOnce (batch.primitives scene.finish) := by
  rw [copiesTwice] at h
  split at h
  · next scene hbuild =>
    obtain ⟨batch, hbatch, htwice⟩ := List.any_eq_true.mp h
    simp only [Bool.and_eq_true, decide_eq_true_eq] at htwice
    exact ⟨scene, hbuild, batch, hbatch, htwice.1, fun hone =>
      absurd (hone.once pixel) (not_le.mpr htwice.2)⟩
  · cases h

end DrawOrder

end Zui
