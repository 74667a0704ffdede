/-
The draw orders of a scene.

Outside layers the order of a primitive or of a blur comes from the bounds tree, and so is above the
orders of all that it meets and that came in before.

Main statements:

* `Scene.apply_iff` — the four things that an operation can do;
* `Built.step`, `Built.applyAll` — the invariant of the scenes that operations build;
* `Built.wellFormed` — such a scene can be finished and drawn.
-/
import Zui.DrawOrder.Batches

namespace Zui

open Gpui (Bounds BoundsTree Result u32Max maxIntersecting maxIntersecting_le_iff)

namespace DrawOrder

variable {U D : Type}

/-! ### Primitives and blurs alike -/

/-- What an operation draws. -/
def PaintOperation.drawn : PaintOperation U D → Option (Drawn U D)
  | .primitive p => some (.primitive p)
  | .backdropBlur b => some (.backdropBlur b)
  | .startLayer _ => none
  | .endLayer => none

namespace Drawn

/-- The operation that draws it. -/
def operation : Drawn U D → PaintOperation U D
  | .primitive p => .primitive p
  | .backdropBlur b => .backdropBlur b

@[simp] theorem drawn_operation (x : Drawn U D) : x.operation.drawn = some x := by
  cases x <;> rfl

theorem eq_operation_of_drawn {op : PaintOperation U D} {x : Drawn U D} (h : op.drawn = some x) :
    op = x.operation := by
  cases op <;> cases h <;> rfl

/-- With an order, and for a path with a number. -/
def numbered (order id : ℕ) : Drawn U D → Drawn U D
  | .primitive p => .primitive { p with order, id := if p.kind = .path then id else p.id }
  | .backdropBlur b => .backdropBlur { b with order }

@[simp] theorem order_numbered (order id : ℕ) (x : Drawn U D) :
    (x.numbered order id).order = order := by
  cases x <;> rfl

@[simp] theorem slot_numbered (order id : ℕ) (x : Drawn U D) :
    (x.numbered order id).slot = x.slot := by
  cases x <;> rfl

theorem numbered_numbered (order id order' id' : ℕ) (x : Drawn U D) :
    (x.numbered order' id').numbered order id = x.numbered order id := by
  cases x with
  | backdropBlur b => rfl
  | primitive p =>
    simp only [numbered]
    split_ifs <;> rfl

section

variable [Add U] [Sub U] [LinearOrder U]

/-- The bounds inside the content mask. -/
def clippedBounds : Drawn U D → Bounds U
  | .primitive p => p.clippedBounds
  | .backdropBlur b => b.clippedBounds

@[simp] theorem clippedBounds_numbered (order id : ℕ) (x : Drawn U D) :
    (x.numbered order id).clippedBounds = x.clippedBounds := by
  cases x <;> rfl

end

end Drawn

/-! ### Layers -/

/-- The number of open layers behind an operation. -/
def PaintOperation.depthAfter (depth : ℕ) : PaintOperation U D → ℕ
  | .startLayer _ => depth + 1
  | .endLayer => depth - 1
  | .primitive _ => depth
  | .backdropBlur _ => depth

/-- The number of open layers behind operations. -/
def depth (operations : List (PaintOperation U D)) : ℕ :=
  operations.foldl PaintOperation.depthAfter 0

theorem depth_concat (operations : List (PaintOperation U D)) (op : PaintOperation U D) :
    depth (operations ++ [op]) = op.depthAfter (depth operations) := by
  rw [depth, List.foldl_append]
  rfl

theorem depthAfter_operation (n : ℕ) (x : Drawn U D) : x.operation.depthAfter n = n := by
  cases x <;> rfl

/-- An operation draws something outside all layers. -/
def FreeAt (operations : List (PaintOperation U D)) (i : ℕ) (x : Drawn U D) : Prop :=
  operations[i]? = some x.operation ∧ depth (operations.take i) = 0

theorem FreeAt.lt_length {operations : List (PaintOperation U D)} {i : ℕ} {x : Drawn U D}
    (h : FreeAt operations i x) : i < operations.length :=
  (List.getElem?_eq_some_iff.mp h.1).1

theorem freeAt_concat {operations : List (PaintOperation U D)} {op : PaintOperation U D} {i : ℕ}
    {x : Drawn U D} : FreeAt (operations ++ [op]) i x ↔ FreeAt operations i x ∨
      i = operations.length ∧ op = x.operation ∧ depth operations = 0 := by
  constructor
  · intro h
    have hlt := h.lt_length
    rw [List.length_append, List.length_singleton] at hlt
    rcases Nat.lt_succ_iff_lt_or_eq.mp hlt with hi | rfl
    · left
      obtain ⟨hget, hdepth⟩ := h
      rw [List.getElem?_append_left hi] at hget
      rw [List.take_append_of_le_length hi.le] at hdepth
      exact ⟨hget, hdepth⟩
    · right
      obtain ⟨hget, hdepth⟩ := h
      rw [List.getElem?_concat_length] at hget
      rw [List.take_left] at hdepth
      exact ⟨rfl, Option.some.inj hget, hdepth⟩
  · rintro (h | ⟨rfl, rfl, hdepth⟩)
    · have hi := h.lt_length
      exact ⟨(List.getElem?_append_left hi).trans h.1,
        by rw [List.take_append_of_le_length hi.le]; exact h.2⟩
    · exact ⟨List.getElem?_concat_length .., by rw [List.take_left]; exact hdepth⟩

/-! ### Operations -/

namespace Scene

/-- What a scene has to draw, in the order of the operations. -/
def drawn (self : Scene U D) : List (Drawn U D) :=
  self.paintOperations.filterMap PaintOperation.drawn

/-- Recording something with its order. -/
def record (self : Scene U D) (primitiveBounds : BoundsTree U) : Drawn U D → Scene U D
  | .primitive p =>
    { self with
      primitiveBounds
      primitives := fun kind => if kind = p.kind then self.primitives kind ++ [p]
        else self.primitives kind
      paintOperations := self.paintOperations ++ [.primitive p] }
  | .backdropBlur b =>
    { self with
      primitiveBounds
      backdropBlurs := self.backdropBlurs ++ [b]
      paintOperations := self.paintOperations ++ [.backdropBlur b] }

@[simp] theorem record_paintOperations (scene : Scene U D) (tree : BoundsTree U) (x : Drawn U D) :
    (scene.record tree x).paintOperations = scene.paintOperations ++ [x.operation] := by
  cases x <;> rfl

@[simp] theorem record_primitiveBounds (scene : Scene U D) (tree : BoundsTree U) (x : Drawn U D) :
    (scene.record tree x).primitiveBounds = tree := by
  cases x <;> rfl

@[simp] theorem record_layerStack (scene : Scene U D) (tree : BoundsTree U) (x : Drawn U D) :
    (scene.record tree x).layerStack = scene.layerStack := by
  cases x <;> rfl

theorem record_drawn (scene : Scene U D) (tree : BoundsTree U) (x : Drawn U D) :
    (scene.record tree x).drawn = scene.drawn ++ [x] := by
  rw [drawn, record_paintOperations, List.filterMap_append]
  simp [drawn]

theorem record_vectors (scene : Scene U D) (tree : BoundsTree U) (x : Drawn U D)
    (k : Option PrimitiveKind) : (scene.record tree x).vectors k =
      scene.vectors k ++ [x].filter fun y => y.slot = k := by
  cases x with
  | primitive p =>
    cases k with
    | none => exact (List.append_nil _).symm
    | some kind =>
      show ((if kind = p.kind then scene.primitives kind ++ [p] else scene.primitives kind).map
        Drawn.primitive) = (scene.primitives kind).map Drawn.primitive ++ _
      split_ifs with hkind
      · subst hkind
        simp [Drawn.slot]
      · simp [Drawn.slot, Ne.symm hkind]
  | backdropBlur b =>
    cases k with
    | none =>
      show (scene.backdropBlurs ++ [b]).map Drawn.backdropBlur = _
      rw [List.map_append]
      rfl
    | some kind => exact (List.append_nil _).symm

section

variable [Add U] [Sub U] [Zero U] [LinearOrder U]

theorem apply_operation (scene : Scene U D) (x : Drawn U D) :
    scene.apply x.operation = if x.clippedBounds.isEmpty then .ok scene else (do
      let (tree, order) ← scene.nextOrder x.clippedBounds
      .ok (scene.record tree (x.numbered order (scene.primitives .path).length))) := by
  cases x <;> rfl

/-- The four things that an operation can do. -/
inductive Applies (scene : Scene U D) : PaintOperation U D → Scene U D → Prop
  | skip (x : Drawn U D) : x.clippedBounds.isEmpty = true → Applies scene x.operation scene
  | record (x : Drawn U D) (tree : BoundsTree U) (order : ℕ) : x.clippedBounds.isEmpty = false →
      scene.nextOrder x.clippedBounds = .ok (tree, order) →
      Applies scene x.operation
        (scene.record tree (x.numbered order (scene.primitives .path).length))
  | push (bounds : Bounds U) (tree : BoundsTree U) (order : ℕ) :
      scene.primitiveBounds.insert bounds = .ok (tree, order) →
      Applies scene (.startLayer bounds)
        { scene with
          primitiveBounds := tree
          layerStack := order :: scene.layerStack
          paintOperations := scene.paintOperations ++ [.startLayer bounds] }
  | pop : Applies scene .endLayer
      { scene with
        layerStack := scene.layerStack.tail
        paintOperations := scene.paintOperations ++ [.endLayer] }

theorem applies_operation {scene scene' : Scene U D} {x : Drawn U D}
    (h : scene.apply x.operation = .ok scene') : Applies scene x.operation scene' := by
  rw [apply_operation] at h
  split_ifs at h with hempty
  · obtain rfl := Except.ok.inj h
    exact .skip x hempty
  · cases horder : scene.nextOrder x.clippedBounds with
    | error e =>
      rw [horder] at h
      cases h
    | ok next =>
      rw [horder] at h
      obtain rfl := Except.ok.inj h
      exact .record x next.1 next.2 (by simpa using hempty) horder

theorem applyAll_cons {scene scene' : Scene U D} {op : PaintOperation U D}
    {operations : List (PaintOperation U D)} (h : scene.applyAll (op :: operations) = .ok scene') :
    ∃ next, scene.apply op = .ok next ∧ next.applyAll operations = .ok scene' := by
  rw [applyAll, List.foldlM_cons] at h
  cases happly : scene.apply op with
  | error e =>
    rw [happly] at h
    cases h
  | ok next =>
    rw [happly] at h
    exact ⟨next, rfl, h⟩

theorem apply_iff {scene scene' : Scene U D} {op : PaintOperation U D} :
    scene.apply op = .ok scene' ↔ Applies scene op scene' := by
  constructor
  · intro h
    cases op with
    | primitive p => exact applies_operation (x := .primitive p) h
    | backdropBlur b => exact applies_operation (x := .backdropBlur b) h
    | startLayer bounds =>
      rw [apply, pushLayer] at h
      cases hinsert : scene.primitiveBounds.insert bounds with
      | error e =>
        rw [hinsert] at h
        cases h
      | ok next =>
        rw [hinsert] at h
        obtain rfl := Except.ok.inj h
        exact .push bounds next.1 next.2 hinsert
    | endLayer =>
      obtain rfl := Except.ok.inj h
      exact .pop
  · intro h
    cases h with
    | skip x hempty => rw [apply_operation, if_pos hempty]
    | record x tree order hempty horder =>
      rw [apply_operation, if_neg (by simp [hempty]), horder]
      rfl
    | push bounds tree order hinsert =>
      rw [apply, pushLayer, hinsert]
      rfl
    | pop => rfl

end

end Scene

/-! ### The scenes that operations build -/

/-- What the bounds tree gets with an order: outside layers the bounds. -/
def Scene.placed (self : Scene U D) (bounds : Bounds U) (order : ℕ) : List (Bounds U × ℕ) :=
  match self.layerStack with
  | [] => [(bounds, order)]
  | _ :: _ => []

theorem Scene.placed_of_nil {scene : Scene U D} (h : scene.layerStack = []) (bounds : Bounds U)
    (order : ℕ) : scene.placed bounds order = [(bounds, order)] := by
  rw [placed, h]

theorem Scene.placed_of_cons {scene : Scene U D} {top : ℕ} {orders : List ℕ}
    (h : scene.layerStack = top :: orders) (bounds : Bounds U) (order : ℕ) :
    scene.placed bounds order = [] := by
  rw [placed, h]

theorem Scene.eq_of_mem_placed {scene : Scene U D} {bounds : Bounds U} {order : ℕ}
    {e : Bounds U × ℕ} (h : e ∈ scene.placed bounds order) : e = (bounds, order) := by
  rw [placed] at h
  split at h
  · exact List.mem_singleton.mp h
  · cases h

section

variable [AddCommGroup U] [LinearOrder U]

/-- What holds of a scene that operations build, whose bounds tree holds some bounds. -/
structure Built (scene : Scene U D) (earlier : List (Bounds U × ℕ)) : Prop where
  represents : scene.primitiveBounds.Represents earlier
  earlier_le : ∀ e ∈ earlier, e.2 ≤ u32Max
  stack_le : ∀ order ∈ scene.layerStack, order ≤ u32Max
  depth : depth scene.paintOperations = scene.layerStack.length
  vectors : ∀ k, scene.vectors k = scene.drawn.filter fun x => x.slot = k
  drawn_le : ∀ x ∈ scene.drawn, x.order ≤ u32Max
  nonempty : ∀ x ∈ scene.drawn, x.clippedBounds.isEmpty = false
  free_mem : ∀ i x, FreeAt scene.paintOperations i x → (x.clippedBounds, x.order) ∈ earlier
  free_lt : ∀ i j x y, i < j → FreeAt scene.paintOperations i x → FreeAt scene.paintOperations j y →
    x.clippedBounds.intersects y.clippedBounds = true → x.order < y.order

theorem built_empty : Built ({} : Scene U D) [] where
  represents := BoundsTree.represents_empty
  earlier_le := by simp
  stack_le := by simp
  depth := rfl
  vectors k := by cases k <;> rfl
  drawn_le := by simp [Scene.drawn]
  nonempty := by simp [Scene.drawn]
  free_mem i x h := absurd h.lt_length (Nat.not_lt_zero i)
  free_lt i j x y _ h := absurd h.lt_length (Nat.not_lt_zero i)

namespace Built

variable {scene scene' : Scene U D} {earlier : List (Bounds U × ℕ)}

theorem insert (h : Built scene earlier) {bounds : Bounds U} {tree : BoundsTree U} {order : ℕ}
    (hinsert : scene.primitiveBounds.insert bounds = .ok (tree, order)) :
    order = maxIntersecting bounds earlier + 1 ∧ order ≤ u32Max ∧
      tree.Represents ((bounds, order) :: earlier) := by
  by_cases hlt : maxIntersecting bounds earlier < u32Max
  · obtain ⟨tree', hrun, htree'⟩ := h.represents.insert bounds hlt
    obtain ⟨rfl, rfl⟩ := Prod.mk.inj (Except.ok.inj (hinsert.symm.trans hrun))
    exact ⟨rfl, hlt, htree'⟩
  · rw [h.represents.insert_overflow bounds (not_lt.mp hlt)] at hinsert
    cases hinsert

/-- The order of the next primitive or blur: that of the layer, or one above all that it meets. -/
theorem nextOrder (h : Built scene earlier) {bounds : Bounds U} {tree : BoundsTree U} {order : ℕ}
    (horder : scene.nextOrder bounds = .ok (tree, order)) :
    order ≤ u32Max ∧ tree.Represents (scene.placed bounds order ++ earlier) ∧
      (scene.layerStack = [] → ∀ e ∈ earlier, e.1.intersects bounds = true → e.2 < order) := by
  rw [Scene.nextOrder] at horder
  cases hstack : scene.layerStack with
  | cons top orders =>
    rw [hstack] at horder
    obtain ⟨rfl, rfl⟩ := Prod.mk.inj (Except.ok.inj horder)
    rw [Scene.placed_of_cons hstack]
    exact ⟨h.stack_le top (hstack ▸ List.mem_cons_self), h.represents,
      fun hnil => absurd hnil (List.cons_ne_nil _ _)⟩
  | nil =>
    rw [hstack] at horder
    obtain ⟨hmax, hle, htree⟩ := h.insert horder
    rw [Scene.placed_of_nil hstack]
    refine ⟨hle, htree, fun _ e he hmeets => ?_⟩
    have hge := maxIntersecting_le_iff.mp le_rfl e he (by rwa [Bounds.intersects_comm])
    omega

/-- Layers that open or close draw nothing. -/
theorem layer (h : Built scene earlier) {op : PaintOperation U D} (earlier' : List (Bounds U × ℕ))
    (hop : op.drawn = none) (hpaint : scene'.paintOperations = scene.paintOperations ++ [op])
    (hvectors : scene'.vectors = scene.vectors)
    (hrepresents : scene'.primitiveBounds.Represents (earlier' ++ earlier))
    (hearlier : ∀ e ∈ earlier', e.2 ≤ u32Max) (hstack : ∀ order ∈ scene'.layerStack, order ≤ u32Max)
    (hdepth : op.depthAfter scene.layerStack.length = scene'.layerStack.length) :
    Built scene' (earlier' ++ earlier) := by
  have hdrawn : scene'.drawn = scene.drawn := by
    rw [Scene.drawn, hpaint, List.filterMap_append, List.filterMap_cons, hop, List.filterMap_nil,
      List.append_nil, Scene.drawn]
  have hfree : ∀ i x, FreeAt scene'.paintOperations i x → FreeAt scene.paintOperations i x := by
    intro i x hi
    rw [hpaint] at hi
    rcases freeAt_concat.mp hi with hi | ⟨-, rfl, -⟩
    · exact hi
    · rw [Drawn.drawn_operation] at hop
      cases hop
  refine ⟨hrepresents, ?_, hstack, ?_, ?_, ?_, ?_, ?_, ?_⟩
  · intro e he
    rcases List.mem_append.mp he with he | he
    · exact hearlier e he
    · exact h.earlier_le e he
  · rw [hpaint, depth_concat, h.depth, hdepth]
  · rw [hvectors, hdrawn]
    exact h.vectors
  · rw [hdrawn]
    exact h.drawn_le
  · rw [hdrawn]
    exact h.nonempty
  · exact fun i x hi => List.mem_append_right _ (h.free_mem i x (hfree i x hi))
  · exact fun i j x y hij hi hj => h.free_lt i j x y hij (hfree i x hi) (hfree j y hj)

/-- Recording with an order, which outside layers is above those of all that it meets. -/
theorem record (h : Built scene earlier) (x : Drawn U D) (tree : BoundsTree U)
    (hempty : x.clippedBounds.isEmpty = false) (hle : x.order ≤ u32Max)
    (hrepresents : tree.Represents (scene.placed x.clippedBounds x.order ++ earlier))
    (hfree : scene.layerStack = [] →
      ∀ e ∈ earlier, e.1.intersects x.clippedBounds = true → e.2 < x.order) :
    Built (scene.record tree x) (scene.placed x.clippedBounds x.order ++ earlier) := by
  have hdrawn : ∀ y ∈ (scene.record tree x).drawn, y ∈ scene.drawn ∨ y = x := by
    intro y hy
    rw [Scene.record_drawn] at hy
    exact (List.mem_append.mp hy).imp_right List.mem_singleton.mp
  -- what is outside layers was so before, or is new
  have hcases : ∀ i y, FreeAt (scene.record tree x).paintOperations i y →
      FreeAt scene.paintOperations i y ∨
        i = scene.paintOperations.length ∧ y = x ∧ scene.layerStack = [] := by
    intro i y hi
    rw [Scene.record_paintOperations] at hi
    rcases freeAt_concat.mp hi with hi | ⟨hlast, hop, hdepth⟩
    · exact Or.inl hi
    · have hxy : y = x := by
        have hop := congrArg PaintOperation.drawn hop
        rw [Drawn.drawn_operation, Drawn.drawn_operation] at hop
        exact (Option.some.inj hop).symm
      rw [h.depth] at hdepth
      exact Or.inr ⟨hlast, hxy, List.eq_nil_of_length_eq_zero hdepth⟩
  refine ⟨?_, ?_, ?_, ?_, ?_, ?_, ?_, ?_, ?_⟩
  · rw [Scene.record_primitiveBounds]
    exact hrepresents
  · intro e he
    rcases List.mem_append.mp he with he | he
    · rw [Scene.eq_of_mem_placed he]
      exact hle
    · exact h.earlier_le e he
  · rw [Scene.record_layerStack]
    exact h.stack_le
  · rw [Scene.record_paintOperations, Scene.record_layerStack, depth_concat, depthAfter_operation,
      h.depth]
  · intro k
    rw [Scene.record_vectors, Scene.record_drawn, List.filter_append, h.vectors]
  · intro y hy
    rcases hdrawn y hy with hy | rfl
    · exact h.drawn_le y hy
    · exact hle
  · intro y hy
    rcases hdrawn y hy with hy | rfl
    · exact h.nonempty y hy
    · exact hempty
  · intro i y hi
    rcases hcases i y hi with hi | ⟨-, rfl, hnil⟩
    · exact List.mem_append_right _ (h.free_mem i y hi)
    · rw [Scene.placed_of_nil hnil]
      exact List.mem_cons_self
  · intro i j y z hij hi hj hmeets
    rcases hcases j z hj with hj | ⟨rfl, rfl, hnil⟩
    · rcases hcases i y hi with hi | ⟨rfl, -, -⟩
      · exact h.free_lt i j y z hij hi hj hmeets
      · exact absurd hj.lt_length (by omega)
    · rcases hcases i y hi with hi | ⟨rfl, -, -⟩
      · exact hfree hnil _ (h.free_mem i y hi) hmeets
      · exact absurd hij (lt_irrefl _)

theorem push (h : Built scene earlier) {bounds : Bounds U} {tree : BoundsTree U} {order : ℕ}
    (hinsert : scene.primitiveBounds.insert bounds = .ok (tree, order)) :
    Built
      { scene with
        primitiveBounds := tree
        layerStack := order :: scene.layerStack
        paintOperations := scene.paintOperations ++ [.startLayer bounds] }
      ((bounds, order) :: earlier) := by
  obtain ⟨-, hle, htree⟩ := h.insert hinsert
  refine h.layer [(bounds, order)] rfl rfl ?_ htree (by simpa using hle) ?_ rfl
  · funext k
    cases k <;> rfl
  · intro order' horder'
    rcases List.mem_cons.mp horder' with rfl | horder'
    · exact hle
    · exact h.stack_le order' horder'

theorem pop (h : Built scene earlier) :
    Built
      { scene with
        layerStack := scene.layerStack.tail
        paintOperations := scene.paintOperations ++ [.endLayer] }
      earlier := by
  refine h.layer [] rfl rfl ?_ h.represents (by simp) ?_ ?_
  · funext k
    cases k <;> rfl
  · exact fun order horder => h.stack_le order (List.mem_of_mem_tail horder)
  · exact (List.length_tail).symm

theorem recordNumbered (h : Built scene earlier) {x : Drawn U D} {tree : BoundsTree U} {order : ℕ}
    (id : ℕ) (hempty : x.clippedBounds.isEmpty = false)
    (horder : scene.nextOrder x.clippedBounds = .ok (tree, order)) :
    Built (scene.record tree (x.numbered order id))
      (scene.placed x.clippedBounds order ++ earlier) := by
  obtain ⟨hle, htree, hfree⟩ := h.nextOrder horder
  have hrecord := h.record (x.numbered order id) tree
  simp only [Drawn.clippedBounds_numbered, Drawn.order_numbered] at hrecord
  exact hrecord hempty hle htree hfree

/-- An operation keeps the invariant. -/
theorem step (h : Built scene earlier) {op : PaintOperation U D}
    (happly : scene.apply op = .ok scene') : ∃ earlier', Built scene' (earlier' ++ earlier) := by
  cases Scene.apply_iff.mp happly with
  | skip x hempty => exact ⟨[], h⟩
  | record x tree order hempty horder => exact ⟨_, h.recordNumbered _ hempty horder⟩
  | push bounds tree order hinsert => exact ⟨[(bounds, order)], h.push hinsert⟩
  | pop => exact ⟨[], h.pop⟩

/-- Operations keep the invariant. -/
theorem applyAll (h : Built scene earlier) {operations : List (PaintOperation U D)}
    (hrun : scene.applyAll operations = .ok scene') :
    ∃ earlier', Built scene' (earlier' ++ earlier) := by
  induction operations generalizing scene earlier with
  | nil =>
    obtain rfl := Except.ok.inj hrun
    exact ⟨[], h⟩
  | cons op operations ih =>
    obtain ⟨next, happly, hrest⟩ := Scene.applyAll_cons hrun
    obtain ⟨earlier', hnext⟩ := h.step happly
    obtain ⟨earlier'', hscene'⟩ := ih hnext hrest
    exact ⟨earlier'' ++ earlier', by rwa [List.append_assoc]⟩

theorem mem_primitives (h : Built scene earlier) {kind : PrimitiveKind} {p : Primitive U D}
    (hp : p ∈ scene.primitives kind) : .primitive p ∈ scene.drawn ∧ p.kind = kind := by
  have hmem : Drawn.primitive p ∈ scene.vectors (some kind) := List.mem_map_of_mem hp
  rw [h.vectors, List.mem_filter] at hmem
  exact ⟨hmem.1, by simpa [Drawn.slot] using hmem.2⟩

theorem mem_backdropBlurs (h : Built scene earlier) {b : BackdropBlur U D}
    (hb : b ∈ scene.backdropBlurs) : .backdropBlur b ∈ scene.drawn := by
  have hmem : Drawn.backdropBlur b ∈ scene.vectors none := List.mem_map_of_mem hb
  rw [h.vectors, List.mem_filter] at hmem
  exact hmem.1

/-- What operations build can be finished and drawn. -/
theorem wellFormed (h : Built scene earlier) : scene.WellFormed where
  kinds _ _ hp := (h.mem_primitives hp).2
  order_le _ _ hp := h.drawn_le _ (h.mem_primitives hp).1
  blurs_le _ hb := h.drawn_le _ (h.mem_backdropBlurs hb)

end Built

end

end DrawOrder

end Zui
