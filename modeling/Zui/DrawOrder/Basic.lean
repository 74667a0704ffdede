/-
Scenes with their draw orders.

A scene gives every primitive and every backdrop blur a draw order as it comes in, from a bounds
tree or, inside a layer, the order of the layer.  Once it is finished, its vectors are sorted by the
orders, and the renderer draws it in batches of one kind, with the blurs at their orders.

Design notes:

* the coordinates are added and subtracted in any way: what is proved of a group is so of numbers of
  single precision where none of them is rounded (`Rounded`);
* the eight vectors of primitives are one function of the kind, and a primitive has its kind as a
  field; `tile` is read of sprites alone, and `id` is the number of a path among the paths;
* `data` is the rest of a primitive or of a blur, which nothing here reads;
* the top of `layer_stack` is the head of its list;
* an order past `u32::MAX` is an error, as in `Gpui.succOrder`.
-/
import Zui.Gpui.Insertion
import Zui.Paint.Scene

namespace Zui

open Gpui (Bounds BoundsTree AtlasTile Result u32Max index)

namespace DrawOrder

/-- `PrimitiveKind`. -/
inductive PrimitiveKind
  | shadow
  | quad
  | path
  | underline
  | monochromeSprite
  | subpixelSprite
  | polychromeSprite
  | surface
  deriving DecidableEq, Repr

namespace PrimitiveKind

/-- The place of a kind in the order that is derived for them. -/
def rank : PrimitiveKind → ℕ
  | shadow => 0
  | quad => 1
  | path => 2
  | underline => 3
  | monochromeSprite => 4
  | subpixelSprite => 5
  | polychromeSprite => 6
  | surface => 7

/-- The kinds with a tile of the sprite atlas. -/
def isSprite : PrimitiveKind → Bool
  | monochromeSprite | subpixelSprite | polychromeSprite => true
  | _ => false

/-- Every kind. -/
def all : List PrimitiveKind :=
  [shadow, quad, path, underline, monochromeSprite, subpixelSprite, polychromeSprite, surface]

end PrimitiveKind

/-- `Primitive`. -/
structure Primitive (U D : Type) where
  kind : PrimitiveKind
  order : ℕ
  id : ℕ
  bounds : Bounds U
  contentMask : Bounds U
  tile : AtlasTile
  data : D
  deriving DecidableEq

/-- `BackdropBlur`. -/
structure BackdropBlur (U D : Type) where
  order : ℕ
  bounds : Bounds U
  contentMask : Bounds U
  data : D
  deriving DecidableEq

/-- `PaintOperation`. -/
inductive PaintOperation (U D : Type)
  | primitive (primitive : Primitive U D)
  | backdropBlur (blur : BackdropBlur U D)
  | startLayer (bounds : Bounds U)
  | endLayer
  deriving DecidableEq

/-- `Scene`. -/
structure Scene (U D : Type) where
  paintOperations : List (PaintOperation U D) := []
  primitiveBounds : BoundsTree U := .empty
  layerStack : List ℕ := []
  primitives : PrimitiveKind → List (Primitive U D) := fun _ => []
  backdropBlurs : List (BackdropBlur U D) := []

section Operations

variable {U D : Type} [Add U] [Sub U] [Zero U] [LinearOrder U]

/-- The bounds of a primitive inside its content mask. -/
def Primitive.clippedBounds (self : Primitive U D) : Bounds U :=
  self.bounds.intersect self.contentMask

/-- The bounds of a blur inside its content mask. -/
def BackdropBlur.clippedBounds (self : BackdropBlur U D) : Bounds U :=
  self.bounds.intersect self.contentMask

namespace Scene

/-- The order of the layer, or the one that the bounds tree gives to the bounds. -/
def nextOrder (self : Scene U D) (clippedBounds : Bounds U) : Result (BoundsTree U × ℕ) :=
  match self.layerStack with
  | order :: _ => .ok (self.primitiveBounds, order)
  | [] => self.primitiveBounds.insert clippedBounds

/-- `push_layer`. -/
def pushLayer (self : Scene U D) (bounds : Bounds U) : Result (Scene U D) := do
  let (primitiveBounds, order) ← self.primitiveBounds.insert bounds
  .ok
    { self with
      primitiveBounds
      layerStack := order :: self.layerStack
      paintOperations := self.paintOperations ++ [.startLayer bounds] }

/-- `pop_layer`. -/
def popLayer (self : Scene U D) : Result (Scene U D) :=
  .ok
    { self with
      layerStack := self.layerStack.tail
      paintOperations := self.paintOperations ++ [.endLayer] }

/-- `insert_backdrop_blur`. -/
def insertBackdropBlur (self : Scene U D) (blur : BackdropBlur U D) : Result (Scene U D) :=
  if blur.clippedBounds.isEmpty then .ok self
  else do
    let (primitiveBounds, order) ← self.nextOrder blur.clippedBounds
    let blur := { blur with order }
    .ok
      { self with
        primitiveBounds
        backdropBlurs := self.backdropBlurs ++ [blur]
        paintOperations := self.paintOperations ++ [.backdropBlur blur] }

/-- `insert_primitive`. -/
def insertPrimitive (self : Scene U D) (primitive : Primitive U D) : Result (Scene U D) :=
  if primitive.clippedBounds.isEmpty then .ok self
  else do
    let (primitiveBounds, order) ← self.nextOrder primitive.clippedBounds
    let primitive :=
      { primitive with
        order
        id := if primitive.kind = .path then (self.primitives .path).length else primitive.id }
    .ok
      { self with
        primitiveBounds
        primitives := fun kind => if kind = primitive.kind then self.primitives kind ++ [primitive]
          else self.primitives kind
        paintOperations := self.paintOperations ++ [.primitive primitive] }

/-- The body of the loop of `replay`. -/
def apply (self : Scene U D) : PaintOperation U D → Result (Scene U D)
  | .primitive primitive => self.insertPrimitive primitive
  | .backdropBlur blur => self.insertBackdropBlur blur
  | .startLayer bounds => self.pushLayer bounds
  | .endLayer => self.popLayer

/-- The operations of a list, one after another. -/
def applyAll (self : Scene U D) (operations : List (PaintOperation U D)) : Result (Scene U D) :=
  operations.foldlM apply self

/-- `replay`. -/
def replay (self : Scene U D) (range : ℕ × ℕ) (prevScene : Scene U D) : Result (Scene U D) :=
  self.applyAll ((prevScene.paintOperations.take range.2).drop range.1)

/-! ### Finishing -/

/-- The key that the primitives of a kind are sorted by. -/
def sortKey (primitive : Primitive U D) : ℕ × ℕ :=
  (primitive.order, if primitive.kind.isSprite then primitive.tile.tileId else 0)

/-- The order of the sort keys. -/
def keyLe (a b : ℕ × ℕ) : Prop := a.1 < b.1 ∨ a.1 = b.1 ∧ a.2 ≤ b.2

instance (a b : ℕ × ℕ) : Decidable (keyLe a b) := inferInstanceAs (Decidable (_ ∨ _))

/-- `finish`. -/
def finish (self : Scene U D) : Scene U D :=
  { self with
    primitives := fun kind => (self.primitives kind).insertionSort fun a b =>
      keyLe (sortKey a) (sortKey b)
    backdropBlurs := self.backdropBlurs.insertionSort fun a b => a.order ≤ b.order }

end Scene

end Operations

/-! ### Batches -/

/-- `PrimitiveBatch`: the kind, the texture of sprites, and the range. -/
structure PrimitiveBatch where
  kind : PrimitiveKind
  textureId : Option ℕ
  start : ℕ
  stop : ℕ
  deriving DecidableEq

/-- `BatchIterator`. -/
structure BatchIterator (U D : Type) where
  starts : PrimitiveKind → ℕ
  iters : PrimitiveKind → List (Primitive U D)
  backdropBlursIter : List (BackdropBlur U D)

/-- An order and a kind come before others. -/
def OrderAndKindLt (a b : ℕ × PrimitiveKind) : Prop :=
  a.1 < b.1 ∨ a.1 = b.1 ∧ a.2.rank < b.2.rank

instance (a b : ℕ × PrimitiveKind) : Decidable (OrderAndKindLt a b) :=
  inferInstanceAs (Decidable (_ ∨ _))

section Batches

variable {U D : Type}

/-- The lesser of two orders with kinds. -/
def minOrderAndKind (a b : ℕ × PrimitiveKind) : ℕ × PrimitiveKind :=
  if OrderAndKindLt b a then b else a

namespace BatchIterator

/-- `orders_and_kinds`, sorted; an iterator at its end has no order. -/
def ordersAndKinds (self : BatchIterator U D) : List (Option ℕ × PrimitiveKind) :=
  (PrimitiveKind.all.map fun kind =>
    ((self.iters kind).head?.map Primitive.order, kind)).insertionSort
    fun a b => ¬ OrderAndKindLt (b.1.getD u32Max, b.2) (a.1.getD u32Max, a.2)

/-- `max_order_and_kind`: the second entry, or the next blur. -/
def maxOrderAndKind (second : Option ℕ × PrimitiveKind) :
    List (BackdropBlur U D) → ℕ × PrimitiveKind
  | blur :: _ => minOrderAndKind (second.1.getD u32Max, second.2) (blur.order, .shadow)
  | [] => (second.1.getD u32Max, second.2)

/-- The primitives of a batch after its first one. -/
def follows (batchKind : PrimitiveKind) (maxOrderAndKind : ℕ × PrimitiveKind)
    (textureId : Option ℕ) (primitive : Primitive U D) : Bool :=
  OrderAndKindLt (primitive.order, batchKind) maxOrderAndKind &&
    (textureId.isNone || textureId = some primitive.tile.textureId)

/-- `next`. -/
def next (self : BatchIterator U D) : Option (PrimitiveBatch × BatchIterator U D) :=
  match self.ordersAndKinds with
  | (some firstOrder, batchKind) :: second :: _ =>
    let backdropBlursIter := self.backdropBlursIter.dropWhile fun blur => blur.order ≤ firstOrder
    match self.iters batchKind with
    | [] => none
    | first :: rest =>
      let textureId := if batchKind.isSprite then some first.tile.textureId else none
      let follow := follows batchKind (maxOrderAndKind second backdropBlursIter) textureId
      let start := self.starts batchKind
      let stop := start + 1 + (rest.takeWhile follow).length
      some
        (⟨batchKind, textureId, start, stop⟩,
          { starts := Function.update self.starts batchKind stop
            iters := Function.update self.iters batchKind (rest.dropWhile follow)
            backdropBlursIter })
  | _ => none

/-- The batches of an iterator, at most so many. -/
def collect : ℕ → BatchIterator U D → List PrimitiveBatch
  | 0, _ => []
  | fuel + 1, self =>
    match self.next with
    | some (batch, rest) => batch :: collect fuel rest
    | none => []

end BatchIterator

namespace Scene

/-- The number of primitives. -/
def primitiveCount (self : Scene U D) : ℕ :=
  (PrimitiveKind.all.map fun kind => (self.primitives kind).length).sum

/-- The iterator of `batches`. -/
def batchIterator (self : Scene U D) : BatchIterator U D where
  starts := fun _ => 0
  iters := self.primitives
  backdropBlursIter := self.backdropBlurs

/-- `batches`: every batch has a primitive. -/
def batches (self : Scene U D) : List PrimitiveBatch :=
  self.batchIterator.collect self.primitiveCount

end Scene

/-- `scene.…[range]`. -/
def PrimitiveBatch.primitives (self : PrimitiveBatch) (scene : Scene U D) : List (Primitive U D) :=
  ((scene.primitives self.kind).take self.stop).drop self.start

/-- `first_order`. -/
def PrimitiveBatch.firstOrder (self : PrimitiveBatch) (scene : Scene U D) : Result ℕ := do
  let first ← index (scene.primitives self.kind) self.start
  .ok first.order

/-! ### Drawing -/

/-- What is drawn. -/
inductive Drawn (U D : Type)
  | primitive (primitive : Primitive U D)
  | backdropBlur (blur : BackdropBlur U D)
  deriving DecidableEq

/-- The loop of `draw_scene` over the batches, with the blurs that are left. -/
def drawBatches (scene : Scene U D) :
    List PrimitiveBatch → List (BackdropBlur U D) → Result (List (Drawn U D))
  | [], blurs => .ok (blurs.map .backdropBlur)
  | batch :: batches, blurs => do
    let order ← batch.firstOrder scene
    let rest ← drawBatches scene batches (blurs.dropWhile fun blur => blur.order ≤ order)
    .ok ((blurs.takeWhile fun blur => blur.order ≤ order).map .backdropBlur ++
      (batch.primitives scene).map .primitive ++ rest)

/-- `draw_scene`. -/
def drawScene (scene : Scene U D) : Result (List (Drawn U D)) :=
  drawBatches scene scene.batches scene.backdropBlurs

end Batches

end DrawOrder

end Zui
