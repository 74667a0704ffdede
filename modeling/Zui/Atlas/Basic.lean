/-
The sprite atlas of the wgpu renderer.

A `WgpuAtlasState` has a list of texture slots for each kind of texture, a tile for each key and
the uploads that `before_frame` writes into the textures.  A tile is a rectangle of a texture
that the texture's allocator handed out.

Design notes:

* the rectangle allocator is not part of the repository: a `RectangleAllocator` is one with what
  its documentation promises, in terms of the size of an allocator and of the rectangles that it
  has handed out and not got back;
* a texture has the bytes of its texels.  `queue.write_texture` is the error `Panic.validation`
  where the device refuses the copy: bounds that leave the texture, or too few bytes;
* the keys are of any type, with `AtlasKey::texture_kind` a parameter;
* an empty `Option` in a list of textures is a free slot; the numbers of slots and of the keys of
  a texture are natural numbers.
-/
import Zui.Gpui.Geometry
import Zui.Library.Loop

namespace Zui

open Gpui

namespace Atlas

/-- The ways in which the atlas panics. -/
inductive Panic
  /-- An index past the end. -/
  | indexOutOfBounds
  /-- A subtraction that leaves its integer type. -/
  | arithmeticOverflow
  /-- "texture must exist". -/
  | textureMustExist
  /-- The device refuses a copy. -/
  | validation
  deriving DecidableEq, Repr

/-- What a function that may panic returns. -/
abbrev Result (α : Type) : Type := Except Panic α

/-! ### Rectangles -/

/-- The texel at `(x, y)` is in the bounds. -/
def Covers (bounds : Bounds ℤ) (x y : ℤ) : Prop :=
  bounds.origin.x ≤ x ∧ x < bounds.origin.x + bounds.size.width ∧
    bounds.origin.y ≤ y ∧ y < bounds.origin.y + bounds.size.height

instance (bounds : Bounds ℤ) (x y : ℤ) : Decidable (Covers bounds x y) :=
  inferInstanceAs (Decidable (_ ∧ _ ∧ _ ∧ _))

/-- No texel is in both bounds. -/
def Apart (a b : Bounds ℤ) : Prop := ∀ x y, ¬ (Covers a x y ∧ Covers b x y)

/-- The bounds are inside a size. -/
def Within (bounds : Bounds ℤ) (size : Size ℤ) : Prop :=
  0 ≤ bounds.origin.x ∧ bounds.origin.x + bounds.size.width ≤ size.width ∧
    0 ≤ bounds.origin.y ∧ bounds.origin.y + bounds.size.height ≤ size.height

instance (bounds : Bounds ℤ) (size : Size ℤ) : Decidable (Within bounds size) :=
  inferInstanceAs (Decidable (_ ∧ _ ∧ _ ∧ _))

/-- What an allocator hands out. -/
structure Allocation where
  id : ℕ
  rectangle : Bounds ℤ

/-- What is promised of a rectangle that an allocator hands out. -/
structure Fits (size : Size ℤ) (allocated : ℕ → Option (Bounds ℤ)) (request : Size ℤ)
    (allocation : Allocation) : Prop where
  nonempty : 0 < request.width ∧ 0 < request.height
  width : request.width ≤ allocation.rectangle.size.width
  height : request.height ≤ allocation.rectangle.size.height
  inside : Within allocation.rectangle size
  fresh : allocated allocation.id = none
  apart : ∀ id rectangle, allocated id = some rectangle → Apart rectangle allocation.rectangle

/-- An allocator of rectangles, as `BucketedAtlasAllocator` is one.  For an empty size it returns
nothing; for another one nothing, or a rectangle that is inside its own size, is large enough and
is disjoint from those that it has handed out and not got back. -/
structure RectangleAllocator where
  Allocator : Type
  new : Size ℤ → Allocator
  allocate : Allocator → Size ℤ → Allocator × Option Allocation
  deallocate : Allocator → ℕ → Allocator
  size : Allocator → Size ℤ
  allocated : Allocator → ℕ → Option (Bounds ℤ)
  size_new : ∀ s, size (new s) = s
  allocated_new : ∀ s id, allocated (new s) id = none
  size_allocate : ∀ a request, size (allocate a request).1 = size a
  allocate_none : ∀ a request, (allocate a request).2 = none →
    allocated (allocate a request).1 = allocated a
  allocate_some : ∀ a request allocation, (allocate a request).2 = some allocation →
    Fits (size a) (allocated a) request allocation ∧
      allocated (allocate a request).1
        = Function.update (allocated a) allocation.id (some allocation.rectangle)
  deallocate_some : ∀ a id rectangle, allocated a id = some rectangle →
    size (deallocate a id) = size a ∧
      allocated (deallocate a id) = Function.update (allocated a) id none

/-! ### Textures -/

/-- `AtlasTextureKind`. -/
inductive AtlasTextureKind
  | monochrome
  | polychrome
  | subpixel
  deriving DecidableEq, Repr

/-- `AtlasTextureId`. -/
structure AtlasTextureId where
  index : ℕ
  kind : AtlasTextureKind
  deriving DecidableEq, Repr

/-- `AtlasTile`. -/
structure AtlasTile where
  textureId : AtlasTextureId
  tileId : ℕ
  padding : ℕ
  bounds : Bounds ℤ
  deriving DecidableEq

/-- `PendingUpload`. -/
structure PendingUpload where
  id : AtlasTextureId
  bounds : Bounds ℤ
  data : List UInt8

/-- `wgpu::TextureFormat`. -/
inductive TextureFormat
  | r8Unorm
  | bgra8Unorm
  | rgba8Unorm
  | other
  deriving DecidableEq, Repr

/-- `bytes_per_pixel`. -/
def TextureFormat.bytesPerPixel : TextureFormat → ℕ
  | r8Unorm => 1
  | bgra8Unorm | rgba8Unorm => 4
  | other => 4

/-- The pixels with their first and third bytes swapped. -/
def swapPixels : List UInt8 → List UInt8
  | a :: b :: c :: d :: bytes => c :: b :: a :: d :: swapPixels bytes
  | bytes => bytes

/-- `swizzle_upload_data`. -/
def swizzleUploadData (bytes : List UInt8) : TextureFormat → List UInt8
  | .rgba8Unorm => swapPixels bytes
  | _ => bytes

/-- The bytes of the pixel at `(x, y)` of an image. -/
def pixelAt (data : List UInt8) (width : ℤ) (bytesPerPixel : ℕ) (x y : ℤ) : List UInt8 :=
  (data.drop ((y * width + x).toNat * bytesPerPixel)).take bytesPerPixel

/-- `WgpuAtlasTexture`, with the size and the texels of its `wgpu::Texture`. -/
structure WgpuAtlasTexture (R : RectangleAllocator) where
  id : AtlasTextureId
  allocator : R.Allocator
  size : Size ℤ
  texels : ℤ → ℤ → List UInt8
  format : TextureFormat
  liveAtlasKeys : ℕ

namespace WgpuAtlasTexture

variable {R : RectangleAllocator}

/-- `allocate`. -/
def allocate (size : Size ℤ) (self : WgpuAtlasTexture R) :
    WgpuAtlasTexture R × Option AtlasTile :=
  let (allocator, allocation) := R.allocate self.allocator size
  match allocation with
  | none => ({ self with allocator }, none)
  | some allocation =>
    ({ self with allocator, liveAtlasKeys := self.liveAtlasKeys + 1 },
      some ⟨self.id, allocation.id, 0, ⟨allocation.rectangle.origin, size⟩⟩)

/-- `decrement_ref_count`. -/
def decrementRefCount (self : WgpuAtlasTexture R) : Result (WgpuAtlasTexture R) :=
  if self.liveAtlasKeys = 0 then .error .arithmeticOverflow
  else .ok { self with liveAtlasKeys := self.liveAtlasKeys - 1 }

/-- `is_unreferenced`. -/
def isUnreferenced (self : WgpuAtlasTexture R) : Bool := self.liveAtlasKeys = 0

/-- The texels with an upload written over them. -/
def write (upload : PendingUpload) (self : WgpuAtlasTexture R) : WgpuAtlasTexture R :=
  { self with
    texels := fun x y =>
      if Covers upload.bounds x y then
        pixelAt upload.data upload.bounds.size.width self.format.bytesPerPixel
          (x - upload.bounds.origin.x) (y - upload.bounds.origin.y)
      else self.texels x y }

/-- `queue.write_texture` of an upload. -/
def writeTexture (upload : PendingUpload) (self : WgpuAtlasTexture R) :
    Result (WgpuAtlasTexture R) :=
  if Within upload.bounds self.size ∧
      upload.bounds.size.width * upload.bounds.size.height * self.format.bytesPerPixel
        ≤ upload.data.length then
    .ok (self.write upload)
  else .error .validation

end WgpuAtlasTexture

/-- `AtlasTextureList`. -/
structure AtlasTextureList (R : RectangleAllocator) where
  textures : List (Option (WgpuAtlasTexture R))
  freeList : List ℕ

namespace AtlasTextureList

variable {R : RectangleAllocator}

/-- `default`. -/
def empty : AtlasTextureList R := ⟨[], []⟩

/-- The first tile that a texture has room for, from the last texture on. -/
def allocateIn (size : Size ℤ) : List (Option (WgpuAtlasTexture R)) →
    List (Option (WgpuAtlasTexture R)) × Option AtlasTile
  | [] => ([], none)
  | slot :: slots =>
    match allocateIn size slots with
    | (slots, some tile) => (slot :: slots, some tile)
    | (slots, none) =>
      match slot with
      | none => (none :: slots, none)
      | some texture =>
        let (texture, tile) := texture.allocate size
        (some texture :: slots, tile)

/-- A new texture in a slot, which is the last free one or a new one. -/
def place (texture : ℕ → WgpuAtlasTexture R) (self : AtlasTextureList R) :
    Result (AtlasTextureList R × ℕ) :=
  match self.freeList.getLast? with
  | some ix =>
    if ix < self.textures.length then
      .ok (⟨self.textures.set ix (some (texture ix)), self.freeList.dropLast⟩, ix)
    else .error .indexOutOfBounds
  | none =>
    let ix := self.textures.length
    .ok ({ self with textures := self.textures ++ [some (texture ix)] }, ix)

end AtlasTextureList

/-- What a build callback returns. -/
inductive Build
  | failed
  | nothing
  | built (size : Size ℤ) (bytes : List UInt8)

/-- What `get_or_insert_with` returns. -/
inductive Outcome
  | tile (tile : AtlasTile)
  | nothing
  | buildFailed
  | failedToAllocate

/-- `WgpuAtlasState`. -/
structure WgpuAtlasState (R : RectangleAllocator) (Key : Type) where
  maxTextureSize : ℤ
  colorTextureFormat : TextureFormat
  storage : AtlasTextureKind → AtlasTextureList R
  tilesByKey : List (Key × AtlasTile)
  pendingUploads : List PendingUpload

namespace WgpuAtlasState

variable {R : RectangleAllocator} {Key : Type} [DecidableEq Key]

/-- `WgpuAtlas::new`. -/
def new (maxTextureSize : ℤ) (colorTextureFormat : TextureFormat) : WgpuAtlasState R Key where
  maxTextureSize := maxTextureSize
  colorTextureFormat := colorTextureFormat
  storage _ := .empty
  tilesByKey := []
  pendingUploads := []

/-- The format of the textures of a kind. -/
def formatOf (self : WgpuAtlasState R Key) : AtlasTextureKind → TextureFormat
  | .monochrome => .r8Unorm
  | .subpixel | .polychrome => self.colorTextureFormat

/-- `WgpuAtlasStorage::get`. -/
def getTexture (id : AtlasTextureId) (self : WgpuAtlasState R Key) :
    Option (WgpuAtlasTexture R) :=
  ((self.storage id.kind).textures[id.index]?).join

/-- The textures of a kind replaced. -/
def setTextures (kind : AtlasTextureKind) (textures : AtlasTextureList R)
    (self : WgpuAtlasState R Key) : WgpuAtlasState R Key :=
  { self with storage := Function.update self.storage kind textures }

/-- A slot of a kind replaced. -/
def setSlot (id : AtlasTextureId) (slot : Option (WgpuAtlasTexture R))
    (self : WgpuAtlasState R Key) : WgpuAtlasState R Key :=
  self.setTextures id.kind { self.storage id.kind with
    textures := (self.storage id.kind).textures.set id.index slot }

/-- The size of a texture that `push_texture` makes. -/
def newSize (minSize : Size ℤ) (self : WgpuAtlasState R Key) : Size ℤ where
  width := max (min minSize.width self.maxTextureSize) 1024
  height := max (min minSize.height self.maxTextureSize) 1024

/-- `push_texture`, with the index of the new texture. -/
def pushTexture (minSize : Size ℤ) (kind : AtlasTextureKind) (self : WgpuAtlasState R Key) :
    Result (WgpuAtlasState R Key × ℕ) := do
  let size := self.newSize minSize
  let (textures, ix) ← (self.storage kind).place fun ix =>
    { id := ⟨ix, kind⟩
      allocator := R.new size
      size
      texels := fun _ _ => []
      format := self.formatOf kind
      liveAtlasKeys := 0 }
  .ok (self.setTextures kind textures, ix)

/-- `allocate`. -/
def allocate (size : Size ℤ) (kind : AtlasTextureKind) (self : WgpuAtlasState R Key) :
    Result (WgpuAtlasState R Key × Option AtlasTile) :=
  match AtlasTextureList.allocateIn size (self.storage kind).textures with
  | (textures, some tile) =>
    .ok (self.setTextures kind { self.storage kind with textures }, some tile)
  | (textures, none) => do
    let self := self.setTextures kind { self.storage kind with textures }
    let (self, ix) ← self.pushTexture size kind
    match self.getTexture ⟨ix, kind⟩ with
    | none => .error .textureMustExist
    | some texture =>
      let (texture, tile) := texture.allocate size
      .ok (self.setSlot ⟨ix, kind⟩ (some texture), tile)

/-- `upload_texture`. -/
def uploadTexture (id : AtlasTextureId) (bounds : Bounds ℤ) (bytes : List UInt8)
    (self : WgpuAtlasState R Key) : WgpuAtlasState R Key :=
  let data := match self.getTexture id with
    | some texture => swizzleUploadData bytes texture.format
    | none => bytes
  { self with pendingUploads := self.pendingUploads ++ [⟨id, bounds, data⟩] }

/-- `get_or_insert_with`. -/
def getOrInsertWith (textureKind : Key → AtlasTextureKind) (key : Key) (build : Build)
    (self : WgpuAtlasState R Key) : Result (WgpuAtlasState R Key × Outcome) :=
  match self.tilesByKey.lookup key with
  | some tile => .ok (self, .tile tile)
  | none =>
    match build with
    | .failed => .ok (self, .buildFailed)
    | .nothing => .ok (self, .nothing)
    | .built size bytes => do
      let (self, tile) ← self.allocate size (textureKind key)
      match tile with
      | none => .ok (self, .failedToAllocate)
      | some tile =>
        let self := self.uploadTexture tile.textureId tile.bounds bytes
        .ok ({ self with tilesByKey := self.tilesByKey ++ [(key, tile)] }, .tile tile)

/-- `remove`. -/
def remove (key : Key) (self : WgpuAtlasState R Key) : Result (WgpuAtlasState R Key) :=
  match self.tilesByKey.lookup key with
  | none => .ok self
  | some tile =>
    let id := tile.textureId
    let self := { self with tilesByKey := self.tilesByKey.filter fun entry => entry.1 ≠ key }
    match self.getTexture id with
    | none => .ok self
    | some texture => do
      let texture := { texture with allocator := R.deallocate texture.allocator tile.tileId }
      let texture ← texture.decrementRefCount
      if texture.isUnreferenced then
        let self := self.setSlot id none
        let textures := self.storage id.kind
        .ok { self.setTextures id.kind
                { textures with freeList := textures.freeList ++ [texture.id.index] } with
              pendingUploads := self.pendingUploads.filter fun upload => upload.id ≠ texture.id }
      else .ok (self.setSlot id (some texture))

/-- The body of the loop of `flush_uploads`. -/
def flushUpload (self : WgpuAtlasState R Key) (upload : PendingUpload) :
    Result (WgpuAtlasState R Key) :=
  match self.getTexture upload.id with
  | none => .ok self
  | some texture => do
    let texture ← texture.writeTexture upload
    .ok (self.setSlot upload.id (some texture))

/-- `before_frame`, which is `flush_uploads`. -/
def beforeFrame (self : WgpuAtlasState R Key) : Result (WgpuAtlasState R Key) :=
  self.pendingUploads.foldlM flushUpload { self with pendingUploads := [] }

/-- `clear`. -/
def clear (self : WgpuAtlasState R Key) : WgpuAtlasState R Key :=
  { self with storage := fun _ => .empty, tilesByKey := [], pendingUploads := [] }

end WgpuAtlasState

end Atlas

end Zui
