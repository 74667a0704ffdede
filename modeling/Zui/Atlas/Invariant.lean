/-
The invariant of the atlas.

What the invariant asks of a texture is its `TextureView`: the allocator counts only with the
rectangles that it has handed out.  `Holds` is about the views of the slots, the free slots, the
tiles, the pending uploads and the images that were built for the keys.  A tile shows its image once
the pending uploads are written, so that their order and what they write over is accounted for.

* `Holds.push` — a new texture;
* `Holds.insert` — a new tile, with its upload;
* `Holds.drop`, `Holds.release` — a tile that goes, and the last tile of a texture;
* `Holds.flush` — the pending uploads written.
-/
import Mathlib
import Zui.Atlas.Basic

namespace Zui

open Gpui

namespace Atlas

/-! ### Rectangles and bytes -/

theorem covers_of_le {a b : Bounds ℤ} {x y : ℤ} (horigin : a.origin = b.origin)
    (hwidth : a.size.width ≤ b.size.width) (hheight : a.size.height ≤ b.size.height)
    (h : Covers a x y) : Covers b x y := by
  obtain ⟨h₁, h₂, h₃, h₄⟩ := h
  rw [horigin] at h₁ h₂ h₃ h₄
  exact ⟨h₁, by omega, h₃, by omega⟩

theorem within_of_le {a b : Bounds ℤ} {size : Size ℤ} (horigin : a.origin = b.origin)
    (hwidth : a.size.width ≤ b.size.width) (hheight : a.size.height ≤ b.size.height)
    (h : Within b size) : Within a size := by
  obtain ⟨h₁, h₂, h₃, h₄⟩ := h
  rw [← horigin] at h₁ h₂ h₃ h₄
  exact ⟨h₁, by omega, h₃, by omega⟩

theorem Fits.covers {size : Size ℤ} {allocated : ℕ → Option (Bounds ℤ)} {request : Size ℤ}
    {allocation : Allocation} (h : Fits size allocated request allocation) {x y : ℤ}
    (hxy : Covers ⟨allocation.rectangle.origin, request⟩ x y) : Covers allocation.rectangle x y :=
  covers_of_le (a := ⟨allocation.rectangle.origin, request⟩) rfl h.width h.height hxy

theorem Fits.within {size : Size ℤ} {allocated : ℕ → Option (Bounds ℤ)} {request : Size ℤ}
    {allocation : Allocation} (h : Fits size allocated request allocation) :
    Within ⟨allocation.rectangle.origin, request⟩ size :=
  within_of_le (a := ⟨allocation.rectangle.origin, request⟩) (b := allocation.rectangle) rfl
    h.width h.height h.inside

theorem length_swapPixels : ∀ bytes : List UInt8, (swapPixels bytes).length = bytes.length
  | [] | [_] | [_, _] | [_, _, _] => rfl
  | _ :: _ :: _ :: _ :: bytes => by simp [swapPixels, length_swapPixels bytes]

theorem length_swizzleUploadData (bytes : List UInt8) (format : TextureFormat) :
    (swizzleUploadData bytes format).length = bytes.length := by
  cases format <;> first | rfl | exact length_swapPixels bytes

/-! ### Views -/

/-- A texture as the invariant sees it. -/
@[ext] structure TextureView where
  id : AtlasTextureId
  room : Size ℤ
  size : Size ℤ
  allocated : ℕ → Option (Bounds ℤ)
  texels : ℤ → ℤ → List UInt8
  format : TextureFormat
  live : ℕ

/-- The slots of all kinds. -/
abbrev Views : Type := AtlasTextureId → Option (Option TextureView)

namespace TextureView

/-- The texels with an upload written over them. -/
def write (self : TextureView) (upload : PendingUpload) : TextureView :=
  { self with
    texels := fun x y =>
      if Covers upload.bounds x y then
        pixelAt upload.data upload.bounds.size.width self.format.bytesPerPixel
          (x - upload.bounds.origin.x) (y - upload.bounds.origin.y)
      else self.texels x y }

/-- The texture with the uploads written that are for it. -/
def flushed (id : AtlasTextureId) (pending : List PendingUpload) (self : TextureView) :
    TextureView :=
  (pending.filter fun upload => upload.id = id).foldl write self

/-- The texture with an allocation more. -/
def allocate (allocation : Allocation) (self : TextureView) : TextureView :=
  { self with
    allocated := Function.update self.allocated allocation.id (some allocation.rectangle)
    live := self.live + 1 }

/-- The texture with an allocation given back. -/
def deallocate (tileId : ℕ) (self : TextureView) : TextureView :=
  { self with
    allocated := Function.update self.allocated tileId none
    live := self.live - 1 }

variable {self : TextureView} {id : AtlasTextureId} {pending : List PendingUpload}

theorem allocated_allocate (allocation : Allocation) :
    (self.allocate allocation).allocated
      = Function.update self.allocated allocation.id (some allocation.rectangle) := rfl

theorem allocated_deallocate (tileId : ℕ) :
    (self.deallocate tileId).allocated = Function.update self.allocated tileId none := rfl

theorem allocated_of_deallocate {tileId i : ℕ} {rectangle : Bounds ℤ}
    (h : (self.deallocate tileId).allocated i = some rectangle) :
    self.allocated i = some rectangle := by
  rw [allocated_deallocate] at h
  by_cases heq : i = tileId
  · simp [heq] at h
  · rwa [Function.update_of_ne heq] at h

@[simp] theorem flushed_nil : self.flushed id [] = self := rfl

theorem flushed_snoc_self {upload : PendingUpload} (h : upload.id = id) :
    self.flushed id (pending ++ [upload]) = (self.flushed id pending).write upload := by
  simp [flushed, h]

theorem flushed_snoc_of_ne {upload : PendingUpload} (h : upload.id ≠ id) :
    self.flushed id (pending ++ [upload]) = self.flushed id pending := by
  simp [flushed, h]

theorem flushed_filter {other : AtlasTextureId} (hne : id ≠ other) :
    self.flushed id (pending.filter fun upload => upload.id ≠ other) = self.flushed id pending := by
  rw [flushed, flushed, List.filter_filter]
  congr 1
  refine List.filter_congr fun upload _ => ?_
  by_cases h : upload.id = id <;> simp [h, hne]

theorem foldl_write (uploads : List PendingUpload) :
    uploads.foldl write self = { self with texels := (uploads.foldl write self).texels } := by
  induction uploads generalizing self with
  | nil => rfl
  | cons upload uploads ih =>
    rw [List.foldl_cons, ih]
    rfl

theorem flushed_eq :
    self.flushed id pending = { self with texels := (self.flushed id pending).texels } :=
  foldl_write _

theorem texels_foldl_write {other : TextureView} (hformat : self.format = other.format)
    (htexels : self.texels = other.texels) (uploads : List PendingUpload) :
    (uploads.foldl write self).texels = (uploads.foldl write other).texels := by
  induction uploads generalizing self other with
  | nil => exact htexels
  | cons upload uploads ih =>
    refine ih hformat ?_
    funext x y
    simp only [write, hformat, htexels]

theorem texels_flushed {other : TextureView} (hformat : self.format = other.format)
    (htexels : self.texels = other.texels) :
    (self.flushed id pending).texels = (other.flushed id pending).texels :=
  texels_foldl_write hformat htexels _

end TextureView

open TextureView

/-! ### The invariant -/

section Invariant

variable {Key : Type}

/-- What holds of a slot with a texture. -/
structure SlotHolds (format : TextureFormat) (tiles : List (Key × AtlasTile))
    (id : AtlasTextureId) (v : TextureView) : Prop where
  id_eq : v.id = id
  format_eq : v.format = format
  room_eq : v.room = v.size
  live_eq : v.live = tiles.countP fun entry => entry.2.textureId = id
  inside : ∀ i rectangle, v.allocated i = some rectangle → Within rectangle v.size
  apart : ∀ i j a b, v.allocated i = some a → v.allocated j = some b → i ≠ j → Apart a b

/-- An image that a build callback returned. -/
structure Image where
  size : Size ℤ
  bytes : List UInt8

/-- What holds of a tile of a texture, for the image that was built for it. -/
structure TileHolds (pending : List PendingUpload) (image : Image) (tile : AtlasTile)
    (v : TextureView) : Prop where
  size_eq : tile.bounds.size = image.size
  placed : ∃ rectangle, v.allocated tile.tileId = some rectangle ∧
    tile.bounds.origin = rectangle.origin ∧ tile.bounds.size.width ≤ rectangle.size.width ∧
    tile.bounds.size.height ≤ rectangle.size.height
  shown : ∀ x y, Covers tile.bounds x y → (v.flushed tile.textureId pending).texels x y =
    pixelAt (swizzleUploadData image.bytes v.format) tile.bounds.size.width v.format.bytesPerPixel
      (x - tile.bounds.origin.x) (y - tile.bounds.origin.y)

/-- The device accepts an upload. -/
structure UploadHolds (upload : PendingUpload) (v : TextureView) : Prop where
  within : Within upload.bounds v.size
  enough : upload.bounds.size.width * upload.bounds.size.height * v.format.bytesPerPixel
    ≤ upload.data.length

/-- The invariant of the atlas. -/
structure Holds (textureKind : Key → AtlasTextureKind) (formatOf : AtlasTextureKind → TextureFormat)
    (views : Views) (free : AtlasTextureKind → List ℕ) (tiles : List (Key × AtlasTile))
    (pending : List PendingUpload) (built : Key → Image) : Prop where
  keysNodup : (tiles.map Prod.fst).Nodup
  slots : ∀ id v, views id = some (some v) → SlotHolds (formatOf id.kind) tiles id v
  freeNodup : ∀ kind, (free kind).Nodup
  mem_free : ∀ kind ix, ix ∈ free kind ↔ views ⟨ix, kind⟩ = some none
  located : ∀ entry ∈ tiles, entry.2.textureId.kind = textureKind entry.1 ∧
    ∃ v, views entry.2.textureId = some (some v) ∧
      TileHolds pending (built entry.1) entry.2 v
  distinct : tiles.Pairwise fun a b => a.2.textureId = b.2.textureId → a.2.tileId ≠ b.2.tileId
  accepted : ∀ upload ∈ pending, ∃ v, views upload.id = some (some v) ∧ UploadHolds upload v

variable {textureKind : Key → AtlasTextureKind} {formatOf : AtlasTextureKind → TextureFormat}
  {views : Views} {free : AtlasTextureKind → List ℕ} {tiles : List (Key × AtlasTile)}
  {pending : List PendingUpload} {built : Key → Image} {id : AtlasTextureId}
  {v : TextureView} {key : Key} {tile : AtlasTile}

theorem holds_empty : Holds textureKind formatOf (fun _ => none) (fun _ => []) [] [] built where
  keysNodup := List.nodup_nil
  slots _ _ h := absurd h (by simp)
  freeNodup _ := List.nodup_nil
  mem_free _ _ := by simp
  located _ h := absurd h List.not_mem_nil
  distinct := List.Pairwise.nil
  accepted _ h := absurd h List.not_mem_nil

/-! ### Allocations -/

theorem SlotHolds.inside_update {format : TextureFormat} (h : SlotHolds format tiles id v)
    {allocation : Allocation} (hinside : Within allocation.rectangle v.size) (i : ℕ)
    (rectangle : Bounds ℤ) (hr : (v.allocate allocation).allocated i = some rectangle) :
    Within rectangle v.size := by
  by_cases heq : i = allocation.id
  · obtain rfl : allocation.rectangle = rectangle := by
      simpa [allocated_allocate, heq] using hr
    exact hinside
  · rw [allocated_allocate, Function.update_of_ne heq] at hr
    exact h.inside i rectangle hr

theorem SlotHolds.apart_update {format : TextureFormat} (h : SlotHolds format tiles id v)
    {allocation : Allocation}
    (hapart : ∀ i rectangle, v.allocated i = some rectangle → Apart rectangle allocation.rectangle)
    (i j : ℕ) (a b : Bounds ℤ) (ha : (v.allocate allocation).allocated i = some a)
    (hb : (v.allocate allocation).allocated j = some b) (hne : i ≠ j) : Apart a b := by
  rw [allocated_allocate] at ha hb
  by_cases hi : i = allocation.id
  · subst hi
    rw [Function.update_of_ne (Ne.symm hne)] at hb
    obtain rfl : allocation.rectangle = a := by simpa using ha
    exact fun x y hxy => hapart j b hb x y hxy.symm
  · rw [Function.update_of_ne hi] at ha
    by_cases hj : j = allocation.id
    · subst hj
      obtain rfl : allocation.rectangle = b := by simpa using hb
      exact hapart i a ha
    · rw [Function.update_of_ne hj] at hb
      exact h.apart i j a b ha hb hne

theorem TileHolds.append_of_ne {image : Image} (h : TileHolds pending image tile v)
    {upload : PendingUpload} (hne : upload.id ≠ tile.textureId) :
    TileHolds (pending ++ [upload]) image tile v :=
  ⟨h.size_eq, h.placed, by rw [flushed_snoc_of_ne hne]; exact h.shown⟩

/-- A tile when its texture hands out another rectangle, with the upload for that one. -/
theorem TileHolds.allocate {image : Image} {data : List UInt8} (h : TileHolds pending image tile v)
    {allocation : Allocation} {request : Size ℤ} (hid : tile.textureId = id)
    (hfits : Fits v.room v.allocated request allocation) :
    TileHolds (pending ++ [⟨id, ⟨allocation.rectangle.origin, request⟩, data⟩]) image tile
      (v.allocate allocation) := by
  obtain ⟨rectangle, hr, horigin, hwidth, hheight⟩ := h.placed
  constructor
  · exact h.size_eq
  · refine ⟨rectangle, ?_, horigin, hwidth, hheight⟩
    rw [allocated_allocate, Function.update_of_ne, hr]
    rintro heq
    simp [heq, hfits.fresh] at hr
  · intro x y hxy
    have hout : ¬ Covers ⟨allocation.rectangle.origin, request⟩ x y := by
      intro hc
      have hold : Covers rectangle x y := covers_of_le horigin hwidth hheight hxy
      exact hfits.apart _ rectangle hr x y ⟨hold, hfits.covers hc⟩
    have hsame : ((v.allocate allocation).flushed tile.textureId pending).texels
        = (v.flushed tile.textureId pending).texels := texels_flushed rfl rfl
    rw [flushed_snoc_self hid.symm]
    simp only [write, if_neg hout, hsame]
    exact h.shown x y hxy

theorem TileHolds.allocated {bytes : List UInt8} {allocation : Allocation} {request : Size ℤ}
    (hfits : Fits v.room v.allocated request allocation) :
    TileHolds (pending ++ [⟨id, ⟨allocation.rectangle.origin, request⟩,
        swizzleUploadData bytes v.format⟩]) ⟨request, bytes⟩
      ⟨id, allocation.id, 0, ⟨allocation.rectangle.origin, request⟩⟩ (v.allocate allocation) := by
  constructor
  · rfl
  · exact ⟨allocation.rectangle, by simp [TextureView.allocate], rfl, hfits.width, hfits.height⟩
  · intro x y hxy
    have hsnoc : ∀ upload : PendingUpload, upload.id = id →
        (v.allocate allocation).flushed id (pending ++ [upload])
          = ((v.allocate allocation).flushed id pending).write upload :=
      fun upload => flushed_snoc_self
    dsimp only at hxy ⊢
    rw [hsnoc _ rfl, flushed_eq]
    simp only [write, if_pos hxy]
    rfl

theorem TileHolds.deallocate {image : Image} (h : TileHolds pending image tile v)
    {tileId : ℕ} (hne : tile.tileId ≠ tileId) :
    TileHolds pending image tile (v.deallocate tileId) := by
  constructor
  · exact h.size_eq
  · rw [allocated_deallocate, Function.update_of_ne hne]
    exact h.placed
  · have hsame : ((v.deallocate tileId).flushed tile.textureId pending).texels
        = (v.flushed tile.textureId pending).texels := texels_flushed rfl rfl
    rw [hsame]
    exact h.shown

namespace Holds

theorem tileId_ne {pre post : List (Key × AtlasTile)}
    (h : Holds textureKind formatOf views free (pre ++ (key, tile) :: post) pending built)
    {entry : Key × AtlasTile} (hentry : entry ∈ pre ++ post)
    (hid : entry.2.textureId = tile.textureId) : entry.2.tileId ≠ tile.tileId := by
  obtain ⟨-, hpost, hpre⟩ := List.pairwise_append.mp h.distinct
  rcases List.mem_append.mp hentry with hmem | hmem
  · exact hpre entry hmem _ List.mem_cons_self hid
  · exact ((List.pairwise_cons.mp hpost).1 entry hmem hid.symm).symm

theorem countP_eq_zero (h : Holds textureKind formatOf views free tiles pending built)
    (hid : ∀ v, views id ≠ some (some v)) :
    tiles.countP (fun entry => entry.2.textureId = id) = 0 := by
  rw [List.countP_eq_zero]
  intro entry hentry
  obtain ⟨-, v, hv, -⟩ := h.located entry hentry
  rw [decide_eq_true_eq]
  rintro rfl
  exact hid v hv

/-- A new texture in a slot that was free or not there. -/
theorem push (h : Holds textureKind formatOf views free tiles pending built)
    {free' : AtlasTextureKind → List ℕ} (hid : ∀ v, views id ≠ some (some v))
    (hv : v.id = id ∧ v.format = formatOf id.kind ∧ v.room = v.size ∧ v.live = 0 ∧
      ∀ i, v.allocated i = none)
    (hnodup : ∀ kind, (free' kind).Nodup)
    (hfree : ∀ kind ix, ix ∈ free' kind ↔ ix ∈ free kind ∧ (⟨ix, kind⟩ : AtlasTextureId) ≠ id) :
    Holds textureKind formatOf (Function.update views id (some (some v))) free' tiles pending
      built where
  keysNodup := h.keysNodup
  slots id' v' hv' := by
    by_cases heq : id' = id
    · subst heq
      obtain rfl : v = v' := by simpa using hv'
      obtain ⟨hvid, hformat, hroom, hlive, hnone⟩ := hv
      exact ⟨hvid, hformat, hroom, hlive.trans (h.countP_eq_zero hid).symm,
        fun i r hr => by simp [hnone] at hr, fun i j a b ha => by simp [hnone] at ha⟩
    · rw [Function.update_of_ne heq] at hv'
      exact h.slots id' v' hv'
  freeNodup := hnodup
  mem_free kind ix := by
    rw [hfree, h.mem_free]
    by_cases heq : (⟨ix, kind⟩ : AtlasTextureId) = id
    · rw [heq]
      simp
    · rw [Function.update_of_ne heq]
      simp [heq]
  located entry hentry := by
    obtain ⟨hkind, v', hv', htile⟩ := h.located entry hentry
    refine ⟨hkind, v', ?_, htile⟩
    rwa [Function.update_of_ne]
    rintro heq
    exact hid v' (heq ▸ hv')
  distinct := h.distinct
  accepted upload hupload := by
    obtain ⟨v', hv', hu⟩ := h.accepted upload hupload
    refine ⟨v', ?_, hu⟩
    rwa [Function.update_of_ne]
    rintro heq
    exact hid v' (heq ▸ hv')

/-- A new tile of a texture, with its upload. -/
theorem insert [DecidableEq Key]
    (h : Holds textureKind formatOf views free tiles pending built) {allocation : Allocation}
    {request : Size ℤ} {bytes : List UInt8} (hv : views id = some (some v))
    (hfits : Fits v.room v.allocated request allocation) (hkey : key ∉ tiles.map Prod.fst)
    (hkind : id.kind = textureKind key)
    (hbytes : request.width * request.height * v.format.bytesPerPixel = bytes.length) :
    Holds textureKind formatOf (Function.update views id (some (some (v.allocate allocation)))) free
      (tiles ++ [(key, ⟨id, allocation.id, 0, ⟨allocation.rectangle.origin, request⟩⟩)])
      (pending ++ [⟨id, ⟨allocation.rectangle.origin, request⟩,
        swizzleUploadData bytes v.format⟩])
      (Function.update built key ⟨request, bytes⟩) := by
  have hslot := h.slots id v hv
  have hwithin : Within ⟨allocation.rectangle.origin, request⟩ v.size :=
    hslot.room_eq ▸ hfits.within
  -- a slot with a texture is not free
  have hne : ∀ kind ix, ix ∈ free kind → (⟨ix, kind⟩ : AtlasTextureId) ≠ id := by
    rintro kind ix hmem rfl
    simp [(h.mem_free kind ix).mp hmem] at hv
  refine ⟨?_, ?_, h.freeNodup, ?_, ?_, ?_, ?_⟩
  · rw [List.map_append, List.nodup_append]
    refine ⟨h.keysNodup, by simp, fun a ha b hb => ?_⟩
    rintro rfl
    obtain rfl : a = key := by simpa using hb
    exact hkey ha
  · intro id' v' hv'
    by_cases heq : id' = id
    · subst heq
      obtain rfl : v.allocate allocation = v' := by simpa using hv'
      refine ⟨hslot.id_eq, hslot.format_eq, hslot.room_eq, ?_, ?_, ?_⟩
      · simp [allocate, hslot.live_eq]
      · exact hslot.inside_update (hslot.room_eq ▸ hfits.inside)
      · exact hslot.apart_update hfits.apart
    · -- the other textures are as before
      rw [Function.update_of_ne heq] at hv'
      have hold := h.slots id' v' hv'
      refine ⟨hold.id_eq, hold.format_eq, hold.room_eq, ?_, hold.inside, hold.apart⟩
      simp [hold.live_eq, Ne.symm heq]
  · intro kind ix
    rw [h.mem_free]
    by_cases heq : (⟨ix, kind⟩ : AtlasTextureId) = id
    · simp [heq, hv]
    · rw [Function.update_of_ne heq]
  · intro entry hentry
    rw [List.mem_append, List.mem_singleton] at hentry
    rcases hentry with hentry | rfl
    · obtain ⟨hk, v', hv', htile⟩ := h.located entry hentry
      -- an older tile keeps what was built for it, since the key is new
      have hother : entry.1 ≠ key := fun he => hkey (he ▸ List.mem_map_of_mem hentry)
      rw [Function.update_of_ne hother]
      refine ⟨hk, ?_⟩
      by_cases heq : entry.2.textureId = id
      · obtain rfl : v = v' := by simpa [heq, hv] using hv'
        refine ⟨v.allocate allocation, by simp [heq], htile.allocate heq hfits⟩
      · exact ⟨v', by rwa [Function.update_of_ne heq], htile.append_of_ne (Ne.symm heq)⟩
    · refine ⟨hkind, v.allocate allocation, by simp, ?_⟩
      rw [Function.update_self]
      exact .allocated hfits
  · rw [List.pairwise_append]
    -- no tile of the texture has the fresh id
    refine ⟨h.distinct, List.pairwise_singleton _ _, fun a ha b hb => ?_⟩
    obtain rfl := List.mem_singleton.mp hb
    rintro heq hid
    obtain ⟨-, v', hv', htile⟩ := h.located a ha
    obtain rfl : v = v' := by simpa [heq, hv] using hv'
    obtain ⟨rectangle, hr, -⟩ := htile.placed
    simp [hid, hfits.fresh] at hr
  · intro upload hupload
    rw [List.mem_append, List.mem_singleton] at hupload
    rcases hupload with hupload | rfl
    · obtain ⟨v', hv', hu⟩ := h.accepted upload hupload
      by_cases heq : upload.id = id
      · obtain rfl : v = v' := by simpa [heq, hv] using hv'
        exact ⟨v.allocate allocation, by simp [heq], hu.within, hu.enough⟩
      · exact ⟨v', by rwa [Function.update_of_ne heq], hu⟩
    · refine ⟨v.allocate allocation, by simp, hwithin, ?_⟩
      -- swizzling keeps the number of bytes
      rw [length_swizzleUploadData]
      exact hbytes.le

theorem mem_of_mem_remove {pre post : List (Key × AtlasTile)} {entry : Key × AtlasTile}
    (h : entry ∈ pre ++ post) : entry ∈ pre ++ (key, tile) :: post := by
  rw [List.mem_append] at h ⊢
  exact h.imp_right (List.mem_cons_of_mem _)

/-- A tile that goes. -/
theorem drop {pre post : List (Key × AtlasTile)}
    (h : Holds textureKind formatOf views free (pre ++ (key, tile) :: post) pending built)
    (hv : views tile.textureId = some (some v)) :
    Holds textureKind formatOf
      (Function.update views tile.textureId (some (some (v.deallocate tile.tileId)))) free
      (pre ++ post) pending built where
  keysNodup := by
    refine h.keysNodup.sublist (List.Sublist.map _ ?_)
    exact List.Sublist.append_left (List.sublist_cons_self _ _) _
  slots id' v' hv' := by
    by_cases heq : id' = tile.textureId
    · subst heq
      have hslot := h.slots _ v hv
      obtain rfl : v.deallocate tile.tileId = v' := by simpa using hv'
      refine ⟨hslot.id_eq, hslot.format_eq, hslot.room_eq, ?_, ?_, ?_⟩
      · simp [deallocate, hslot.live_eq, ← Nat.add_assoc]
      · exact fun i rectangle hr => hslot.inside i rectangle (allocated_of_deallocate hr)
      · exact fun i j a b ha hb =>
          hslot.apart i j a b (allocated_of_deallocate ha) (allocated_of_deallocate hb)
    · rw [Function.update_of_ne heq] at hv'
      have hold := h.slots id' v' hv'
      refine ⟨hold.id_eq, hold.format_eq, hold.room_eq, ?_, hold.inside, hold.apart⟩
      simp [hold.live_eq, Ne.symm heq]
  freeNodup := h.freeNodup
  mem_free kind ix := by
    rw [h.mem_free]
    by_cases heq : (⟨ix, kind⟩ : AtlasTextureId) = tile.textureId
    · simp [heq, hv]
    · rw [Function.update_of_ne heq]
  located entry hentry := by
    obtain ⟨hk, v', hv', htile⟩ := h.located entry (mem_of_mem_remove hentry)
    refine ⟨hk, ?_⟩
    by_cases heq : entry.2.textureId = tile.textureId
    · obtain rfl : v = v' := by simpa [heq, hv] using hv'
      exact ⟨v.deallocate tile.tileId, by simp [heq],
        htile.deallocate (h.tileId_ne hentry heq)⟩
    · exact ⟨v', by rwa [Function.update_of_ne heq], htile⟩
  distinct := h.distinct.sublist (List.Sublist.append_left (List.sublist_cons_self _ _) _)
  accepted upload hupload := by
    obtain ⟨v', hv', hu⟩ := h.accepted upload hupload
    by_cases heq : upload.id = tile.textureId
    · obtain rfl : v = v' := by simpa [heq, hv] using hv'
      exact ⟨v.deallocate tile.tileId, by simp [heq], hu.within, hu.enough⟩
    · exact ⟨v', by rwa [Function.update_of_ne heq], hu⟩

/-- A texture without tiles goes, and the uploads for it. -/
theorem release (h : Holds textureKind formatOf views free tiles pending built)
    {free' : AtlasTextureKind → List ℕ} (hv : views id = some (some v)) (hlive : v.live = 0)
    (hfree : free' = Function.update free id.kind (free id.kind ++ [id.index])) :
    Holds textureKind formatOf (Function.update views id (some none)) free' tiles
      (pending.filter fun upload => upload.id ≠ id) built where
  keysNodup := h.keysNodup
  slots id' v' hv' := by
    by_cases heq : id' = id
    · simp [heq] at hv'
    · rw [Function.update_of_ne heq] at hv'
      exact h.slots id' v' hv'
  freeNodup kind := by
    rw [hfree]
    by_cases heq : kind = id.kind
    · subst heq
      -- a slot with a texture was not free
      have hnot : id.index ∉ free id.kind := by
        rw [h.mem_free]
        simp [hv]
      rw [Function.update_self, List.nodup_append]
      refine ⟨h.freeNodup _, by simp, fun a ha b hb => ?_⟩
      rintro rfl
      obtain rfl := List.mem_singleton.mp hb
      exact hnot ha
    · rw [Function.update_of_ne heq]
      exact h.freeNodup kind
  mem_free kind ix := by
    rw [hfree]
    by_cases heq : (⟨ix, kind⟩ : AtlasTextureId) = id
    · subst heq
      simp
    · rw [Function.update_of_ne heq, ← h.mem_free]
      by_cases hkind : kind = id.kind
      · subst hkind
        have hix : ix ≠ id.index := fun hix => heq (by rw [hix])
        simp [hix]
      · rw [Function.update_of_ne hkind]
  located entry hentry := by
    obtain ⟨hk, v', hv', htile⟩ := h.located entry hentry
    -- the texture was given up without tiles
    have hne : entry.2.textureId ≠ id := by
      rintro heq
      have hcount := (h.slots id v hv).live_eq
      rw [hlive, eq_comm, List.countP_eq_zero] at hcount
      exact hcount entry hentry (by simpa using heq)
    refine ⟨hk, v', by rwa [Function.update_of_ne hne], htile.size_eq, htile.placed, ?_⟩
    rw [flushed_filter hne]
    exact htile.shown
  distinct := h.distinct
  accepted upload hupload := by
    obtain ⟨hmem, hne⟩ := List.mem_filter.mp hupload
    obtain ⟨v', hv', hu⟩ := h.accepted upload hmem
    exact ⟨v', by rwa [Function.update_of_ne (by simpa using hne)], hu⟩

/-- The pending uploads written. -/
theorem flush (h : Holds textureKind formatOf views free tiles pending built) :
    Holds textureKind formatOf (fun id => (views id).map (Option.map (flushed id pending))) free
      tiles [] built where
  keysNodup := h.keysNodup
  slots id v hv := by
    obtain ⟨v', hv', rfl⟩ : ∃ v', views id = some (some v') ∧ v'.flushed id pending = v := by
      simpa using hv
    have hslot := h.slots id v' hv'
    rw [flushed_eq]
    exact ⟨hslot.id_eq, hslot.format_eq, hslot.room_eq, hslot.live_eq, hslot.inside, hslot.apart⟩
  freeNodup := h.freeNodup
  mem_free kind ix := by
    rw [h.mem_free]
    cases hv : views ⟨ix, kind⟩ <;> simp
  located entry hentry := by
    obtain ⟨hk, v, hv, htile⟩ := h.located entry hentry
    refine ⟨hk, v.flushed entry.2.textureId pending, by simp [hv], ?_⟩
    constructor
    · exact htile.size_eq
    · rw [flushed_eq]
      exact htile.placed
    · rw [flushed_nil]
      have hformat : (v.flushed entry.2.textureId pending).format = v.format := by rw [flushed_eq]
      rw [hformat]
      exact htile.shown
  distinct := h.distinct
  accepted _ hupload := absurd hupload List.not_mem_nil

end Holds

end Invariant

end Atlas

end Zui
