/-
The operations of the atlas on the views of its textures.

* `Well` — the invariant, of a state;
* `getOrInsertWith_spec`, `remove_spec`, `beforeFrame_spec`, `clear_spec` — each operation returns,
  and keeps the invariant.
-/
import Mathlib
import Zui.Atlas.Invariant

namespace Zui

open Gpui

namespace Atlas

variable {R : RectangleAllocator} {Key : Type}

/-! ### Textures -/

namespace WgpuAtlasTexture

/-- A texture as the invariant sees it. -/
def view (self : WgpuAtlasTexture R) : TextureView where
  id := self.id
  room := R.size self.allocator
  size := self.size
  allocated := R.allocated self.allocator
  texels := self.texels
  format := self.format
  live := self.liveAtlasKeys

variable {self : WgpuAtlasTexture R} {size : Size ℤ}

theorem allocate_none (h : (self.allocate size).2 = none) :
    (self.allocate size).1.view = self.view := by
  have hnone : (R.allocate self.allocator size).2 = none := by
    rw [allocate] at h
    dsimp only at h
    split at h
    · assumption
    · simp at h
  have hsize := R.size_allocate self.allocator size
  have hallocated := R.allocate_none self.allocator size hnone
  simp [allocate, hnone, view, hsize, hallocated]

theorem allocate_some {tile : AtlasTile} (h : (self.allocate size).2 = some tile) :
    ∃ allocation, Fits (R.size self.allocator) (R.allocated self.allocator) size allocation ∧
      tile = ⟨self.id, allocation.id, 0, ⟨allocation.rectangle.origin, size⟩⟩ ∧
      (self.allocate size).1.view = self.view.allocate allocation := by
  cases hsome : (R.allocate self.allocator size).2 with
  | none => simp [allocate, hsome] at h
  | some allocation =>
    have hsize := R.size_allocate self.allocator size
    obtain ⟨hfits, hallocated⟩ := R.allocate_some self.allocator size allocation hsome
    refine ⟨allocation, hfits, ?_, ?_⟩
    · simpa [allocate, hsome, eq_comm] using h
    · simp [allocate, hsome, view, TextureView.allocate, hsize, hallocated]

theorem writeTexture_ok {upload : PendingUpload} (h : UploadHolds upload self.view) :
    self.writeTexture upload = .ok (self.write upload) :=
  if_pos ⟨h.within, h.enough⟩

theorem view_write (upload : PendingUpload) :
    (self.write upload).view = self.view.write upload := rfl

end WgpuAtlasTexture

/-- The slots of a list of textures as the invariant sees them. -/
def viewsOf (slots : List (Option (WgpuAtlasTexture R))) : List (Option TextureView) :=
  slots.map (Option.map WgpuAtlasTexture.view)

namespace AtlasTextureList

variable {size : Size ℤ} {slots slots' : List (Option (WgpuAtlasTexture R))}

theorem allocateIn_none (h : allocateIn size slots = (slots', none)) :
    viewsOf slots' = viewsOf slots := by
  induction slots generalizing slots' with
  | nil =>
    obtain rfl : [] = slots' := by simpa [allocateIn] using h
    rfl
  | cons slot slots ih =>
    rw [allocateIn] at h
    cases hrest : allocateIn size slots with
    | mk rest tile =>
      rw [hrest] at h
      cases tile with
      | some tile => simp at h
      | none =>
        have hih := ih hrest
        cases slot with
        | none =>
          obtain rfl : none :: rest = slots' := by simpa using h
          exact congrArg (none :: ·) hih
        | some texture =>
          obtain ⟨rfl, hnone⟩ : some (texture.allocate size).1 :: rest = slots' ∧
            (texture.allocate size).2 = none := by simpa using h
          rw [viewsOf, List.map_cons, Option.map_some, WgpuAtlasTexture.allocate_none hnone]
          exact congrArg (some texture.view :: ·) hih

theorem allocateIn_some {tile : AtlasTile} (h : allocateIn size slots = (slots', some tile)) :
    ∃ ix texture allocation, slots[ix]? = some (some texture) ∧
      Fits texture.view.room texture.view.allocated size allocation ∧
      tile = ⟨texture.id, allocation.id, 0, ⟨allocation.rectangle.origin, size⟩⟩ ∧
      viewsOf slots' = (viewsOf slots).set ix (some (texture.view.allocate allocation)) := by
  induction slots generalizing slots' with
  | nil => simp [allocateIn] at h
  | cons slot slots ih =>
    rw [allocateIn] at h
    cases hrest : allocateIn size slots with
    | mk rest found =>
      rw [hrest] at h
      cases found with
      | some found =>
        obtain ⟨rfl, rfl⟩ : slot :: rest = slots' ∧ found = tile := by simpa using h
        obtain ⟨ix, texture, allocation, hix, hfits, htile, hviews⟩ := ih hrest
        refine ⟨ix + 1, texture, allocation, by simpa using hix, hfits, htile, ?_⟩
        exact congrArg (slot.map WgpuAtlasTexture.view :: ·) hviews
      | none =>
        cases slot with
        | none => simp at h
        | some texture =>
          obtain ⟨rfl, hsome⟩ : some (texture.allocate size).1 :: rest = slots' ∧
            (texture.allocate size).2 = some tile := by simpa using h
          obtain ⟨allocation, hfits, htile, hview⟩ := WgpuAtlasTexture.allocate_some hsome
          refine ⟨0, texture, allocation, by simp, hfits, htile, ?_⟩
          have hkeep : viewsOf rest = viewsOf slots := allocateIn_none hrest
          rw [viewsOf, List.map_cons, Option.map_some, hview]
          exact congrArg (some (texture.view.allocate allocation) :: ·) hkeep

end AtlasTextureList

/-! ### States -/

namespace WgpuAtlasState

/-- The slots of a state as the invariant sees them. -/
def views (self : WgpuAtlasState R Key) : Views := fun id =>
  (viewsOf (self.storage id.kind).textures)[id.index]?

/-- The free slots of a state. -/
def free (self : WgpuAtlasState R Key) : AtlasTextureKind → List ℕ := fun kind =>
  (self.storage kind).freeList

/-- The invariant, for the images that were built for the keys. -/
def Well (textureKind : Key → AtlasTextureKind) (built : Key → Image)
    (self : WgpuAtlasState R Key) : Prop :=
  Holds textureKind self.formatOf self.views self.free self.tilesByKey self.pendingUploads built

variable {textureKind : Key → AtlasTextureKind} {built : Key → Image}
  {self : WgpuAtlasState R Key} {id : AtlasTextureId}

theorem formatOf_congr {self' : WgpuAtlasState R Key}
    (h : self'.colorTextureFormat = self.colorTextureFormat) : self'.formatOf = self.formatOf := by
  funext kind
  cases kind <;> simp [formatOf, h]

theorem views_eq (id : AtlasTextureId) :
    self.views id
      = ((self.storage id.kind).textures[id.index]?).map (Option.map WgpuAtlasTexture.view) := by
  simp [views, viewsOf]

theorem views_of_getTexture {texture : WgpuAtlasTexture R}
    (h : self.getTexture id = some texture) : self.views id = some (some texture.view) := by
  rw [getTexture, Option.join_eq_some_iff] at h
  simp [views_eq, h]

theorem getTexture_of_views {v : TextureView} (h : self.views id = some (some v)) :
    ∃ texture, self.getTexture id = some texture ∧ texture.view = v := by
  rw [views_eq] at h
  obtain ⟨slot, hslot, hv⟩ := Option.map_eq_some_iff.mp h
  obtain ⟨texture, rfl, rfl⟩ := Option.map_eq_some_iff.mp hv
  exact ⟨texture, by simp [getTexture, hslot], rfl⟩

/-- The textures of a kind replaced by a list that differs in one slot. -/
theorem views_setTextures (id : AtlasTextureId) (slot : Option TextureView)
    {textures : AtlasTextureList R}
    (h : ∀ ix, (viewsOf textures.textures)[ix]? = if ix = id.index then some slot
      else (viewsOf (self.storage id.kind).textures)[ix]?) :
    (self.setTextures id.kind textures).views = Function.update self.views id (some slot) := by
  funext id'
  by_cases heq : id' = id
  · subst heq
    simp [views, setTextures, h]
  · rw [Function.update_of_ne heq, views, setTextures]
    by_cases hkind : id'.kind = id.kind
    · have hindex : id'.index ≠ id.index := fun hix => heq (by cases id'; cases id; simp_all)
      simp [hkind, h, hindex, views]
    · simp [hkind, views]

theorem views_setSlot {slot : Option (WgpuAtlasTexture R)} {texture : WgpuAtlasTexture R}
    (h : self.getTexture id = some texture) :
    (self.setSlot id slot).views
      = Function.update self.views id (some (slot.map WgpuAtlasTexture.view)) := by
  refine views_setTextures id _ fun ix => ?_
  rw [getTexture, Option.join_eq_some_iff] at h
  obtain ⟨hlt, -⟩ := List.getElem?_eq_some_iff.mp h
  by_cases heq : ix = id.index
  · subst heq
    simp [viewsOf, hlt]
  · simp [viewsOf, heq, List.getElem?_set_ne (Ne.symm heq)]

theorem free_setTextures (kind : AtlasTextureKind) (textures : AtlasTextureList R) :
    (self.setTextures kind textures).free = Function.update self.free kind textures.freeList := by
  funext kind'
  by_cases heq : kind' = kind
  · subst heq
    simp [free, setTextures]
  · simp [free, setTextures, heq]

theorem free_setSlot (slot : Option (WgpuAtlasTexture R)) :
    (self.setSlot id slot).free = self.free := by
  rw [setSlot, free_setTextures]
  exact Function.update_eq_self id.kind self.free

theorem views_setFreeList (kind : AtlasTextureKind) (freeList : List ℕ) :
    (self.setTextures kind { self.storage kind with freeList }).views = self.views := by
  funext id
  by_cases heq : id.kind = kind <;> simp [views, setTextures, heq]

theorem mem_dropLast_iff {xs : List ℕ} {last : ℕ} (hlast : xs.getLast? = some last)
    (hnodup : xs.Nodup) (ix : ℕ) : ix ∈ xs.dropLast ↔ ix ∈ xs ∧ ix ≠ last := by
  obtain ⟨init, rfl⟩ := List.getLast?_eq_some_iff.mp hlast
  have hnot : last ∉ init := fun hmem =>
    (List.nodup_append.mp hnodup).2.2 last hmem last (List.mem_singleton_self last) rfl
  rw [List.dropLast_concat, List.mem_append, List.mem_singleton]
  constructor
  · rintro hmem
    exact ⟨.inl hmem, fun heq => hnot (heq ▸ hmem)⟩
  · rintro ⟨hmem | heq, hne⟩
    · exact hmem
    · exact absurd heq hne

/-- The texture that `push_texture` makes. -/
def fresh (self : WgpuAtlasState R Key) (minSize : Size ℤ) (kind : AtlasTextureKind) (ix : ℕ) :
    WgpuAtlasTexture R where
  id := ⟨ix, kind⟩
  allocator := R.new (self.newSize minSize)
  size := self.newSize minSize
  texels := fun _ _ => []
  format := self.formatOf kind
  liveAtlasKeys := 0

theorem view_fresh (minSize : Size ℤ) (kind : AtlasTextureKind) (ix : ℕ) :
    (self.fresh minSize kind ix).view.id = ⟨ix, kind⟩ ∧
      (self.fresh minSize kind ix).view.format = self.formatOf kind ∧
      (self.fresh minSize kind ix).view.room = (self.fresh minSize kind ix).view.size ∧
      (self.fresh minSize kind ix).view.live = 0 ∧
      ∀ i, (self.fresh minSize kind ix).view.allocated i = none :=
  ⟨rfl, rfl, R.size_new _, rfl, R.allocated_new _⟩

/-- `push_texture` into the last free slot. -/
theorem pushTexture_free (h : self.Well textureKind built) (minSize : Size ℤ)
    {kind : AtlasTextureKind} {ix : ℕ}
    (hlast : (self.storage kind).freeList.getLast? = some ix) :
    ∃ textures, self.pushTexture minSize kind = .ok (self.setTextures kind textures, ix) ∧
      (self.setTextures kind textures).Well textureKind built ∧
      (self.setTextures kind textures).getTexture ⟨ix, kind⟩
        = some (self.fresh minSize kind ix) := by
  have hmem : ix ∈ self.free kind := List.mem_of_getLast? hlast
  have hslot : self.views ⟨ix, kind⟩ = some none := (h.mem_free kind ix).mp hmem
  have hlt : ix < (self.storage kind).textures.length := by
    rw [views_eq] at hslot
    obtain ⟨slot, hslot, -⟩ := Option.map_eq_some_iff.mp hslot
    exact (List.getElem?_eq_some_iff.mp hslot).1
  refine ⟨⟨(self.storage kind).textures.set ix (some (self.fresh minSize kind ix)),
    (self.storage kind).freeList.dropLast⟩, ?_, ?_, ?_⟩
  · rw [pushTexture, AtlasTextureList.place, hlast]
    dsimp only
    rw [if_pos hlt]
    rfl
  · rw [Well, free_setTextures, views_setTextures ⟨ix, kind⟩
      (some (self.fresh minSize kind ix).view)]
    · refine h.push (by simp [hslot]) (view_fresh minSize kind ix) (fun kind' => ?_)
        fun kind' ix' => ?_
      · by_cases heq : kind' = kind
        · subst heq
          rw [Function.update_self]
          exact (h.freeNodup kind').sublist (List.dropLast_sublist _)
        · rw [Function.update_of_ne heq]
          exact h.freeNodup kind'
      · by_cases heq : kind' = kind
        · subst heq
          rw [Function.update_self]
          simpa [free] using mem_dropLast_iff hlast (h.freeNodup kind') ix'
        · rw [Function.update_of_ne heq]
          simp [heq]
    · intro ix'
      by_cases heq : ix' = ix
      · subst heq
        simp [viewsOf, hlt]
      · simp [viewsOf, heq, List.getElem?_set_ne (Ne.symm heq)]
  · simp [getTexture, setTextures, hlt]

theorem pushTexture_new (h : self.Well textureKind built) (minSize : Size ℤ)
    {kind : AtlasTextureKind} (hlast : (self.storage kind).freeList.getLast? = none) :
    ∃ ix textures, self.pushTexture minSize kind = .ok (self.setTextures kind textures, ix) ∧
      (self.setTextures kind textures).Well textureKind built ∧
      (self.setTextures kind textures).getTexture ⟨ix, kind⟩
        = some (self.fresh minSize kind ix) := by
  set ix := (self.storage kind).textures.length with hix
  have hout : self.views ⟨ix, kind⟩ = none := by simp [views_eq, hix]
  refine ⟨ix, { self.storage kind with
    textures := (self.storage kind).textures ++ [some (self.fresh minSize kind ix)] }, ?_, ?_, ?_⟩
  · rw [pushTexture, AtlasTextureList.place, hlast]
    rfl
  · have hsame : Function.update self.free kind (self.storage kind).freeList = self.free :=
      Function.update_eq_self kind self.free
    rw [Well, free_setTextures, hsame, views_setTextures ⟨ix, kind⟩
      (some (self.fresh minSize kind ix).view)]
    · refine h.push (by simp [hout]) (view_fresh minSize kind ix) h.freeNodup fun kind' ix' => ?_
      rw [h.mem_free, iff_self_and]
      rintro hmem heq
      simp [heq, hout] at hmem
    · intro ix'
      rcases lt_trichotomy ix' ix with hlt | rfl | hgt
      · simp [viewsOf, List.getElem?_append, ← hix, hlt, hlt.ne]
      · simp [viewsOf, ← hix]
      · have hover : ix' - ix ≠ 0 := by omega
        simp [viewsOf, List.getElem?_append, ← hix, hgt.not_gt, hgt.ne', hover]
  · simp [getTexture, setTextures, hix]

/-- `push_texture` returns, with a texture in a slot that was free or not there. -/
theorem pushTexture_spec (h : self.Well textureKind built) (minSize : Size ℤ)
    (kind : AtlasTextureKind) :
    ∃ ix textures, self.pushTexture minSize kind = .ok (self.setTextures kind textures, ix) ∧
      (self.setTextures kind textures).Well textureKind built ∧
      (self.setTextures kind textures).getTexture ⟨ix, kind⟩
        = some (self.fresh minSize kind ix) := by
  cases hlast : (self.storage kind).freeList.getLast? with
  | some ix => exact ⟨ix, pushTexture_free h minSize hlast⟩
  | none => exact pushTexture_new h minSize hlast

/-! ### Tiles -/

/-- What `allocate` leaves: nothing that the invariant sees, or a rectangle of a texture. -/
inductive Allocated (textureKind : Key → AtlasTextureKind) (built : Key → Image)
    (self : WgpuAtlasState R Key) (size : Size ℤ) (kind : AtlasTextureKind)
    (self' : WgpuAtlasState R Key) : Option AtlasTile → Prop
  | nothing (hwell : self'.Well textureKind built) :
      Allocated textureKind built self size kind self' none
  | tile (views : Views) (free : AtlasTextureKind → List ℕ) (id : AtlasTextureId) (v : TextureView)
      (allocation : Allocation)
      (hholds : Holds textureKind self.formatOf views free self.tilesByKey
        self.pendingUploads built)
      (hkind : id.kind = kind) (hslot : views id = some (some v))
      (hfits : Fits v.room v.allocated size allocation)
      (hviews : self'.views
        = Function.update views id (some (some (v.allocate allocation))))
      (hfree : self'.free = free) :
      Allocated textureKind built self size kind self'
        (some ⟨id, allocation.id, 0, ⟨allocation.rectangle.origin, size⟩⟩)

theorem allocate_spec (h : self.Well textureKind built) (size : Size ℤ) (kind : AtlasTextureKind) :
    ∃ self' tile, self.allocate size kind = .ok (self', tile) ∧
      self' = { self with storage := self'.storage } ∧
      Allocated textureKind built self size kind self' tile := by
  have hkeep : Function.update self.free kind (self.storage kind).freeList = self.free :=
    Function.update_eq_self kind self.free
  cases hin : AtlasTextureList.allocateIn size (self.storage kind).textures with
  | mk textures tile =>
    cases tile with
    | some tile =>
      -- a texture has room for the tile
      obtain ⟨ix, texture, allocation, hix, hfits, htile, hset⟩ :=
        AtlasTextureList.allocateIn_some hin
      have hslot : self.views ⟨ix, kind⟩ = some (some texture.view) := by simp [views_eq, hix]
      have hid : texture.id = ⟨ix, kind⟩ := (h.slots _ _ hslot).id_eq
      rw [hid] at htile
      subst htile
      refine ⟨_, _, by rw [allocate, hin], rfl, ?_⟩
      refine .tile self.views self.free ⟨ix, kind⟩ texture.view allocation h rfl hslot hfits ?_ ?_
      · refine views_setTextures ⟨ix, kind⟩ _ fun ix' => ?_
        rw [hset]
        by_cases heq : ix' = ix
        · subst heq
          obtain ⟨hlt, -⟩ := List.getElem?_eq_some_iff.mp hix
          simp [viewsOf, hlt]
        · simp [heq, List.getElem?_set_ne (Ne.symm heq)]
      · rw [free_setTextures]
        exact hkeep
    | none =>
      -- a new texture has room for the tile, or none has
      have hsame : viewsOf textures = viewsOf (self.storage kind).textures :=
        AtlasTextureList.allocateIn_none hin
      set before := self.setTextures kind { self.storage kind with textures } with hbefore
      have hviews : before.views = self.views := by
        funext id
        by_cases heq : id.kind = kind <;> simp [hbefore, views, setTextures, heq, hsame]
      have hfree : before.free = self.free := by
        rw [hbefore, free_setTextures]
        exact hkeep
      have hwell : before.Well textureKind built := by
        rw [Well, hviews, hfree]
        exact h
      obtain ⟨ix, pushed, hpush, hpushed, hget⟩ := pushTexture_spec hwell size kind
      have hslot := views_of_getTexture hget
      set after := before.setTextures kind pushed with hafter
      set texture := before.fresh size kind ix with htexture
      have hallocate : self.allocate size kind = .ok (after.setSlot ⟨ix, kind⟩
          (some (texture.allocate size).1), (texture.allocate size).2) := by
        rw [allocate, hin]
        dsimp only
        rw [← hbefore, hpush, ok_bind]
        dsimp only
        rw [hget]
      refine ⟨_, _, hallocate, rfl, ?_⟩
      cases htile : (texture.allocate size).2 with
      | none =>
        refine .nothing ?_
        rw [Well, views_setSlot hget, free_setSlot, Option.map_some,
          WgpuAtlasTexture.allocate_none htile, ← hslot, Function.update_eq_self]
        exact hpushed
      | some tile =>
        obtain ⟨allocation, hfits, rfl, hview⟩ := WgpuAtlasTexture.allocate_some htile
        refine .tile after.views after.free ⟨ix, kind⟩ texture.view allocation hpushed rfl hslot
          hfits ?_ (free_setSlot _)
        rw [views_setSlot hget, Option.map_some, hview]

/-- What a build callback promises: as many bytes as its size asks for. -/
def WellSized (format : TextureFormat) : Build → Prop
  | .built size bytes => size.width * size.height * format.bytesPerPixel = (bytes.length : ℤ)
  | _ => True

section Keys

variable [DecidableEq Key]

/-- The images that were built for the keys with a tile. -/
def recordBuild (self : WgpuAtlasState R Key) (key : Key) (build : Build) (outcome : Outcome)
    (built : Key → Image) : Key → Image :=
  match self.tilesByKey.lookup key, build, outcome with
  | none, .built size bytes, .tile _ => Function.update built key ⟨size, bytes⟩
  | _, _, _ => built

theorem not_mem_of_lookup {key : Key} (h : self.tilesByKey.lookup key = none) :
    key ∉ self.tilesByKey.map Prod.fst := by
  rw [List.lookup_eq_none_iff] at h
  rintro hmem
  obtain ⟨entry, hentry, rfl⟩ := List.mem_map.mp hmem
  simpa using h entry hentry

theorem getOrInsertWith_spec (h : self.Well textureKind built) (key : Key) {build : Build}
    (hbuild : WellSized (self.formatOf (textureKind key)) build) :
    ∃ self' outcome, self.getOrInsertWith textureKind key build = .ok (self', outcome) ∧
      self'.colorTextureFormat = self.colorTextureFormat ∧
      self'.Well textureKind (self.recordBuild key build outcome built) := by
  cases hlookup : self.tilesByKey.lookup key with
  | some tile =>
    refine ⟨self, .tile tile, by simp [getOrInsertWith, hlookup], rfl, ?_⟩
    simp only [recordBuild, hlookup]
    exact h
  | none =>
    cases build with
    -- without a built image the atlas stays as it is
    | failed =>
      refine ⟨self, .buildFailed, by simp [getOrInsertWith, hlookup], rfl, ?_⟩
      simp only [recordBuild, hlookup]
      exact h
    | nothing =>
      refine ⟨self, .nothing, by simp [getOrInsertWith, hlookup], rfl, ?_⟩
      simp only [recordBuild, hlookup]
      exact h
    | built size bytes =>
      obtain ⟨self', tile, hallocate, hrest, hspec⟩ := allocate_spec h size (textureKind key)
      cases hspec with
      | nothing hwell =>
        refine ⟨self', .failedToAllocate, ?_, by rw [hrest], ?_⟩
        · rw [getOrInsertWith, hlookup]
          dsimp only
          rw [hallocate]
          rfl
        · simp only [recordBuild, hlookup]
          exact hwell
      | tile views free id v allocation hholds hkind hslot hfits hviews hfree =>
        have hformat : v.format = self.formatOf id.kind := (hholds.slots id v hslot).format_eq
        -- the texture of the new tile is there, so the upload finds it
        have hget : ∃ texture, self'.getTexture id = some texture ∧
            texture.view = v.allocate allocation := getTexture_of_views (by simp [hviews])
        obtain ⟨texture, htexture, hview⟩ := hget
        have hswizzle : texture.format = v.format := congrArg TextureView.format hview
        have htiles : self'.tilesByKey = self.tilesByKey := by rw [hrest]
        have hpending : self'.pendingUploads = self.pendingUploads := by rw [hrest]
        have hcolor : self'.colorTextureFormat = self.colorTextureFormat := by rw [hrest]
        set bounds : Bounds ℤ := ⟨allocation.rectangle.origin, size⟩ with hbounds
        have hcall : self.getOrInsertWith textureKind key (.built size bytes)
            = .ok ({ self'.uploadTexture id bounds bytes with
                tilesByKey := self'.tilesByKey ++ [(key, ⟨id, allocation.id, 0, bounds⟩)] },
              .tile ⟨id, allocation.id, 0, bounds⟩) := by
          rw [getOrInsertWith, hlookup]
          dsimp only
          rw [hallocate]
          rfl
        refine ⟨_, _, hcall, hcolor, ?_⟩
        have hinsert := hholds.insert hslot hfits (not_mem_of_lookup hlookup) hkind
          (by rw [hformat, hkind]; exact hbuild)
        rw [← hviews, ← hfree, ← htiles, ← hpending] at hinsert
        simp only [recordBuild, hlookup, Well, uploadTexture, htexture, hswizzle]
        rw [← formatOf_congr hcolor] at hinsert
        exact hinsert

theorem split_of_lookup (h : self.Well textureKind built) {key : Key} {tile : AtlasTile}
    (hlookup : self.tilesByKey.lookup key = some tile) :
    ∃ pre post, self.tilesByKey = pre ++ (key, tile) :: post ∧
      self.tilesByKey.filter (fun entry => entry.1 ≠ key) = pre ++ post := by
  obtain ⟨pre, post, heq, hpre⟩ := List.lookup_eq_some_iff.mp hlookup
  refine ⟨pre, post, heq, ?_⟩
  have hnodup := h.keysNodup
  rw [heq, List.map_append, List.map_cons, List.nodup_append] at hnodup
  obtain ⟨-, hpost, hdisjoint⟩ := hnodup
  rw [heq, List.filter_append, List.filter_cons_of_neg (by simp)]
  congr 1
  · rw [List.filter_eq_self]
    intro entry hentry
    simpa using hdisjoint entry.1 (List.mem_map_of_mem hentry) key List.mem_cons_self
  · rw [List.filter_eq_self]
    intro entry hentry
    have hmem : entry.1 ∈ post.map Prod.fst := List.mem_map_of_mem hentry
    simpa using fun he : entry.1 = key => (List.nodup_cons.mp hpost).1 (he ▸ hmem)

theorem remove_spec (h : self.Well textureKind built) (key : Key) :
    ∃ self', self.remove key = .ok self' ∧
      self'.colorTextureFormat = self.colorTextureFormat ∧ self'.Well textureKind built := by
  cases hlookup : self.tilesByKey.lookup key with
  | none => exact ⟨self, by simp [remove, hlookup], rfl, h⟩
  | some tile =>
    obtain ⟨pre, post, htiles, hfilter⟩ := split_of_lookup h hlookup
    have hholds := h
    rw [Well, htiles] at hholds
    obtain ⟨-, v, hv, htile⟩ := hholds.located (key, tile) (by simp)
    obtain ⟨texture, hget, rfl⟩ := getTexture_of_views hv
    have hslot := hholds.slots _ _ hv
    have hid : texture.id = tile.textureId := hslot.id_eq
    -- the tile is one that the texture counts
    have hlive : texture.liveAtlasKeys ≠ 0 := by
      have hcount := hslot.live_eq
      rw [List.countP_append, List.countP_cons_of_pos (by simp)] at hcount
      change texture.liveAtlasKeys = _ at hcount
      omega
    set dropped : WgpuAtlasState R Key :=
      { self with tilesByKey := pre ++ post } with hdropped
    have hdget : dropped.getTexture tile.textureId = some texture := hget
    set texture' : WgpuAtlasTexture R :=
      { texture with
        allocator := R.deallocate texture.allocator tile.tileId
        liveAtlasKeys := texture.liveAtlasKeys - 1 } with htexture'
    -- what is seen of the texture is what its allocator has
    have hview : texture'.view = texture.view.deallocate tile.tileId := by
      obtain ⟨rectangle, hplaced, -⟩ := htile.placed
      obtain ⟨hsize, hallocated⟩ := R.deallocate_some texture.allocator tile.tileId
        rectangle hplaced
      simp [htexture', WgpuAtlasTexture.view, TextureView.deallocate, hsize, hallocated]
    have hdrop := hholds.drop hv
    rw [← hview] at hdrop
    by_cases hlast : texture.liveAtlasKeys - 1 = 0
    · -- the last tile of the texture
      set emptied := dropped.setSlot tile.textureId none with hemptied
      set freeList := (emptied.storage tile.textureId.kind).freeList ++ [tile.textureId.index]
        with hfreeList
      have hcall : self.remove key = .ok
          { emptied.setTextures tile.textureId.kind
              { emptied.storage tile.textureId.kind with freeList } with
            pendingUploads := emptied.pendingUploads.filter
              fun upload => upload.id ≠ tile.textureId } := by
        simp only [remove, hlookup, hfilter, ← hdropped, hdget]
        simp [WgpuAtlasTexture.decrementRefCount, WgpuAtlasTexture.isUnreferenced, hlive, hlast,
          hid, ← hemptied, hfreeList]
      refine ⟨_, hcall, rfl, ?_⟩
      have hkeep : emptied.free = self.free := free_setSlot none
      have hrelease := hdrop.release (v := texture'.view) (Function.update_self _ _ _) hlast rfl
      rw [Function.update_idem, ← hkeep] at hrelease
      have hviews : (emptied.setTextures tile.textureId.kind
          { emptied.storage tile.textureId.kind with freeList }).views
            = Function.update self.views tile.textureId (some none) := by
        rw [views_setFreeList, hemptied, views_setSlot hdget]
        rfl
      have hfree : (emptied.setTextures tile.textureId.kind
          { emptied.storage tile.textureId.kind with freeList }).free
            = Function.update emptied.free tile.textureId.kind
              (emptied.free tile.textureId.kind ++ [tile.textureId.index]) :=
        free_setTextures _ _
      rw [← hviews, ← hfree] at hrelease
      exact hrelease
    · -- other tiles keep the texture in its slot
      have hcall : self.remove key = .ok (dropped.setSlot tile.textureId (some texture')) := by
        simp only [remove, hlookup, hfilter, ← hdropped, hdget]
        simp [WgpuAtlasTexture.decrementRefCount, WgpuAtlasTexture.isUnreferenced, hlive, hlast,
          htexture']
      refine ⟨_, hcall, rfl, ?_⟩
      rw [Well, views_setSlot hdget, free_setSlot]
      exact hdrop

end Keys

/-! ### Uploads -/

/-- Pending uploads that the device accepts are written, in their order. -/
theorem foldlM_flushUpload (uploads : List PendingUpload) (self : WgpuAtlasState R Key)
    (h : ∀ upload ∈ uploads,
      ∃ v, self.views upload.id = some (some v) ∧ UploadHolds upload v) :
    ∃ self', uploads.foldlM flushUpload self = .ok self' ∧
      self' = { self with storage := self'.storage } ∧ self'.free = self.free ∧
      self'.views = fun id => (self.views id).map
        (Option.map (TextureView.flushed id uploads)) := by
  induction uploads generalizing self with
  | nil =>
    refine ⟨self, rfl, rfl, rfl, ?_⟩
    funext id
    have hid : TextureView.flushed id [] = fun v => v := by
      funext v
      exact TextureView.flushed_nil
    simp [hid]
  | cons upload uploads ih =>
    obtain ⟨v, hv, hupload⟩ := h upload List.mem_cons_self
    obtain ⟨texture, hget, rfl⟩ := getTexture_of_views hv
    have hstep : self.flushUpload upload
        = .ok (self.setSlot upload.id (some (texture.write upload))) := by
      rw [flushUpload, hget]
      dsimp only
      rw [WgpuAtlasTexture.writeTexture_ok hupload, ok_bind]
    have hviews : (self.setSlot upload.id (some (texture.write upload))).views
        = Function.update self.views upload.id (some (some (texture.write upload).view)) :=
      views_setSlot hget
    obtain ⟨self', hrun, hrest, hfree, hmap⟩ :=
      ih (self.setSlot upload.id (some (texture.write upload))) (by
        intro other hother
        obtain ⟨v, hv', hu⟩ := h other (List.mem_cons_of_mem _ hother)
        rw [hviews]
        by_cases heq : other.id = upload.id
        · rw [heq, hv] at hv'
          obtain rfl : texture.view = v := by simpa using hv'
          exact ⟨texture.view.write upload, by simp [heq, WgpuAtlasTexture.view_write],
            hu.within, hu.enough⟩
        · exact ⟨v, by rwa [Function.update_of_ne heq], hu⟩)
    refine ⟨self', by rw [List.foldlM_cons, hstep, ok_bind, hrun], hrest, ?_, ?_⟩
    · rw [hfree, free_setSlot]
    · rw [hmap, hviews]
      funext id
      by_cases heq : id = upload.id
      · subst heq
        simp [hv, TextureView.flushed, WgpuAtlasTexture.view_write]
      · rw [Function.update_of_ne heq]
        have hskip : TextureView.flushed id (upload :: uploads) =
          TextureView.flushed id uploads := by
          funext v
          simp [TextureView.flushed, Ne.symm heq]
        rw [hskip]

theorem beforeFrame_spec (h : self.Well textureKind built) :
    ∃ self', self.beforeFrame = .ok self' ∧
      self'.colorTextureFormat = self.colorTextureFormat ∧ self'.tilesByKey = self.tilesByKey ∧
      self'.pendingUploads = [] ∧ self'.Well textureKind built := by
  obtain ⟨self', hrun, hrest, hfree, hviews⟩ :=
    foldlM_flushUpload self.pendingUploads { self with pendingUploads := [] } h.accepted
  have hcolor : self'.colorTextureFormat = self.colorTextureFormat := by rw [hrest]
  have htiles : self'.tilesByKey = self.tilesByKey := by rw [hrest]
  have hpending : self'.pendingUploads = [] := by rw [hrest]
  refine ⟨self', hrun, hcolor, htiles, hpending, ?_⟩
  rw [Well, hviews, hfree, htiles, hpending, formatOf_congr hcolor]
  exact h.flush

/-! ### Clearing -/

theorem clear_spec : self.clear.colorTextureFormat = self.colorTextureFormat ∧
    self.clear.Well textureKind built :=
  ⟨rfl, holds_empty⟩

theorem new_spec (maxTextureSize : ℤ) (colorTextureFormat : TextureFormat) :
    (new maxTextureSize colorTextureFormat : WgpuAtlasState R Key).Well textureKind built :=
  holds_empty

end WgpuAtlasState

end Atlas

end Zui
