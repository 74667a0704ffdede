/-
Runs of the atlas.

A `Session` is an atlas with the image that was last built for each key.  In every run that starts
from `WgpuAtlas::new` and whose build callbacks return as many bytes as their sizes ask for, no
operation panics, the atlas is `Consistent`, and right after `before_frame` every tile is `Shown`.

* `run_well` — the invariant along a run;
* `atlas_sound` — what it says of the slots, the tiles, the uploads and the texels.
-/
import Mathlib
import Zui.Atlas.Steps

namespace Zui

open Gpui

namespace Atlas

/-- An operation on the atlas. -/
inductive Op (Key : Type)
  | getOrInsertWith (key : Key) (build : Build)
  | remove (key : Key)
  | beforeFrame
  | clear

/-- The build callback of an operation returns as many bytes as its size asks for. -/
def Op.WellSized {Key : Type} (textureKind : Key → AtlasTextureKind)
    (formatOf : AtlasTextureKind → TextureFormat) : Op Key → Prop
  | .getOrInsertWith key build => WgpuAtlasState.WellSized (formatOf (textureKind key)) build
  | _ => True

/-- The atlas, and the image that was last built for each key. -/
structure Session (R : RectangleAllocator) (Key : Type) where
  atlas : WgpuAtlasState R Key
  built : Key → Image

variable {R : RectangleAllocator} {Key : Type} [DecidableEq Key]

namespace Session

/-- The session of a new atlas. -/
def new (maxTextureSize : ℤ) (colorTextureFormat : TextureFormat) : Session R Key :=
  ⟨.new maxTextureSize colorTextureFormat, fun _ => ⟨⟨0, 0⟩, []⟩⟩

/-- An operation of a session. -/
def step (textureKind : Key → AtlasTextureKind) (self : Session R Key) :
    Op Key → Result (Session R Key)
  | .getOrInsertWith key build => do
    let (atlas, outcome) ← self.atlas.getOrInsertWith textureKind key build
    .ok ⟨atlas, self.atlas.recordBuild key build outcome self.built⟩
  | .remove key => do
    let atlas ← self.atlas.remove key
    .ok { self with atlas }
  | .beforeFrame => do
    let atlas ← self.atlas.beforeFrame
    .ok { self with atlas }
  | .clear => .ok { self with atlas := self.atlas.clear }

/-- A run of operations. -/
def run (textureKind : Key → AtlasTextureKind) (ops : List (Op Key)) (self : Session R Key) :
    Result (Session R Key) :=
  ops.foldlM (step textureKind) self

end Session

/-! ### The invariant along a run -/

variable {textureKind : Key → AtlasTextureKind} {s : Session R Key}

theorem step_well (h : s.atlas.Well textureKind s.built) {op : Op Key}
    (hop : op.WellSized textureKind s.atlas.formatOf) :
    ∃ s', s.step textureKind op = .ok s' ∧
      s'.atlas.colorTextureFormat = s.atlas.colorTextureFormat ∧
      s'.atlas.Well textureKind s'.built := by
  cases op with
  | getOrInsertWith key build =>
    obtain ⟨atlas, outcome, hcall, hcolor, hwell⟩ :=
      WgpuAtlasState.getOrInsertWith_spec h key hop
    exact ⟨_, by rw [Session.step, hcall, ok_bind], hcolor, hwell⟩
  | remove key =>
    obtain ⟨atlas, hcall, hcolor, hwell⟩ := WgpuAtlasState.remove_spec h key
    exact ⟨_, by rw [Session.step, hcall, ok_bind], hcolor, hwell⟩
  | beforeFrame =>
    obtain ⟨atlas, hcall, hcolor, -, -, hwell⟩ := WgpuAtlasState.beforeFrame_spec h
    exact ⟨_, by rw [Session.step, hcall, ok_bind], hcolor, hwell⟩
  | clear =>
    exact ⟨_, rfl, WgpuAtlasState.clear_spec⟩

/-- No operation of a run panics, and the run keeps the invariant. -/
theorem run_well (ops : List (Op Key)) (h : s.atlas.Well textureKind s.built)
    (hops : ∀ op ∈ ops, op.WellSized textureKind s.atlas.formatOf) :
    ∃ s', s.run textureKind ops = .ok s' ∧ s'.atlas.Well textureKind s'.built := by
  induction ops generalizing s with
  | nil => exact ⟨s, rfl, h⟩
  | cons op ops ih =>
    obtain ⟨s₁, hstep, hcolor, hwell⟩ := step_well h (hops op List.mem_cons_self)
    have hformat : s₁.atlas.formatOf = s.atlas.formatOf := WgpuAtlasState.formatOf_congr hcolor
    obtain ⟨s', hrun, hwell'⟩ := ih hwell fun op' hop' => by
      rw [hformat]
      exact hops op' (List.mem_cons_of_mem _ hop')
    refine ⟨s', ?_, hwell'⟩
    rw [Session.run, List.foldlM_cons, hstep, ok_bind]
    exact hrun

/-! ### What the invariant says -/

/-- The slots, the tiles, the free slots and the uploads of an atlas agree. -/
structure Consistent (textureKind : Key → AtlasTextureKind) (self : WgpuAtlasState R Key) :
    Prop where
  /-- The tile of a key is in an occupied slot of its kind, whose id is its position. -/
  occupied : ∀ key tile, self.tilesByKey.lookup key = some tile →
    tile.textureId.kind = textureKind key ∧
      ∃ texture, self.getTexture tile.textureId = some texture ∧ texture.id = tile.textureId
  keysNodup : (self.tilesByKey.map Prod.fst).Nodup
  /-- The live keys of a texture are those with a tile in it. -/
  live : ∀ id texture, self.getTexture id = some texture →
    texture.liveAtlasKeys = self.tilesByKey.countP fun entry => entry.2.textureId = id
  /-- The free list has the empty slots, each once. -/
  free : ∀ kind, (self.storage kind).freeList.Nodup ∧
    ∀ ix, ix ∈ (self.storage kind).freeList ↔ (self.storage kind).textures[ix]? = some none
  /-- The tiles of different keys in a texture have no texel in common. -/
  apart : ∀ key key' tile tile', self.tilesByKey.lookup key = some tile →
    self.tilesByKey.lookup key' = some tile' → key ≠ key' → tile.textureId = tile'.textureId →
      Apart tile.bounds tile'.bounds
  /-- The pending uploads are for occupied slots. -/
  uploads : ∀ upload ∈ self.pendingUploads, ∃ texture, self.getTexture upload.id = some texture

/-- The texels of each tile are those of the image that was built for its key. -/
def Shown (built : Key → Image) (self : WgpuAtlasState R Key) : Prop :=
  ∀ key tile texture, self.tilesByKey.lookup key = some tile →
    self.getTexture tile.textureId = some texture →
      tile.bounds.size = (built key).size ∧
        ∀ x y, Covers tile.bounds x y → texture.texels x y
          = pixelAt (swizzleUploadData (built key).bytes texture.format) (built key).size.width
            texture.format.bytesPerPixel (x - tile.bounds.origin.x) (y - tile.bounds.origin.y)

variable {self : WgpuAtlasState R Key} {built : Key → Image} {key key' : Key}
  {tile tile' : AtlasTile}

theorem mem_of_lookup (h : self.tilesByKey.lookup key = some tile) :
    (key, tile) ∈ self.tilesByKey := by
  obtain ⟨pre, post, heq, -⟩ := List.lookup_eq_some_iff.mp h
  simp [heq]

theorem apart_of_well (h : self.Well textureKind built)
    (hkey : self.tilesByKey.lookup key = some tile)
    (hkey' : self.tilesByKey.lookup key' = some tile') (hne : key ≠ key')
    (hid : tile.textureId = tile'.textureId) : Apart tile.bounds tile'.bounds := by
  obtain ⟨-, v, hv, htile⟩ := h.located _ (mem_of_lookup hkey)
  obtain ⟨-, v', hv', htile'⟩ := h.located _ (mem_of_lookup hkey')
  obtain rfl : v = v' := by simpa [← hid, hv] using hv'
  obtain ⟨a, ha, haorigin, hawidth, haheight⟩ := htile.placed
  obtain ⟨b, hb, hborigin, hbwidth, hbheight⟩ := htile'.placed
  have hsymm : Std.Symm fun a b : Key × AtlasTile =>
      a.2.textureId = b.2.textureId → a.2.tileId ≠ b.2.tileId :=
    ⟨fun a b hab heq => (hab heq.symm).symm⟩
  have hdistinct : tile.tileId ≠ tile'.tileId :=
    h.distinct.forall (mem_of_lookup hkey) (mem_of_lookup hkey') (by simp [hne]) hid
  rintro x y ⟨hx, hx'⟩
  exact (h.slots _ v hv).apart _ _ a b ha hb hdistinct x y
    ⟨covers_of_le haorigin hawidth haheight hx, covers_of_le hborigin hbwidth hbheight hx'⟩

theorem consistent_of_well (h : self.Well textureKind built) : Consistent textureKind self where
  occupied key tile hkey := by
    obtain ⟨hkind, v, hv, -⟩ := h.located _ (mem_of_lookup hkey)
    obtain ⟨texture, hget, rfl⟩ := WgpuAtlasState.getTexture_of_views hv
    exact ⟨hkind, texture, hget, (h.slots _ _ hv).id_eq⟩
  keysNodup := h.keysNodup
  live id texture hget := (h.slots id _ (WgpuAtlasState.views_of_getTexture hget)).live_eq
  free kind := by
    refine ⟨h.freeNodup kind, fun ix => (h.mem_free kind ix).trans ?_⟩
    rw [WgpuAtlasState.views_eq]
    cases hslot : (self.storage kind).textures[ix]? with
    | none => simp
    | some slot => cases slot <;> simp
  apart key key' tile tile' hkey hkey' hne hid := apart_of_well h hkey hkey' hne hid
  uploads upload hupload := by
    obtain ⟨v, hv, -⟩ := h.accepted upload hupload
    obtain ⟨texture, hget, -⟩ := WgpuAtlasState.getTexture_of_views hv
    exact ⟨texture, hget⟩

theorem shown_of_well (h : self.Well textureKind built) (hpending : self.pendingUploads = []) :
    Shown built self := by
  intro key tile texture hkey hget
  obtain ⟨-, v, hv, htile⟩ := h.located _ (mem_of_lookup hkey)
  obtain rfl : texture.view = v := by
    simpa [WgpuAtlasState.views_of_getTexture hget] using hv
  refine ⟨htile.size_eq, fun x y hxy => ?_⟩
  have hshown := htile.shown x y hxy
  rw [hpending, TextureView.flushed_nil, htile.size_eq] at hshown
  exact hshown

/-- In every run whose build callbacks return as many bytes as their sizes ask for, no operation
panics, the atlas is consistent, and `before_frame` returns an atlas whose tiles are shown. -/
theorem atlas_sound (textureKind : Key → AtlasTextureKind) (maxTextureSize : ℤ)
    (colorTextureFormat : TextureFormat) (ops : List (Op Key))
    (hops : ∀ op ∈ ops, op.WellSized textureKind
      (Session.new maxTextureSize colorTextureFormat : Session R Key).atlas.formatOf) :
    ∃ s : Session R Key,
      (Session.new maxTextureSize colorTextureFormat).run textureKind ops = .ok s ∧
      Consistent textureKind s.atlas ∧
      ∃ after, s.atlas.beforeFrame = .ok after ∧ after.tilesByKey = s.atlas.tilesByKey ∧
        Consistent textureKind after ∧ Shown s.built after := by
  set start : Session R Key := Session.new maxTextureSize colorTextureFormat
  have hnew : start.atlas.Well textureKind start.built :=
    WgpuAtlasState.new_spec maxTextureSize colorTextureFormat
  obtain ⟨s, hrun, hwell⟩ := run_well ops hnew hops
  obtain ⟨after, hflush, -, htiles, hpending, hafter⟩ := WgpuAtlasState.beforeFrame_spec hwell
  exact ⟨s, hrun, consistent_of_well hwell, after, hflush, htiles, consistent_of_well hafter,
    shown_of_well hafter hpending⟩

/-- An allocator with room for one rectangle at a time, at its origin. -/
def singleAllocator : RectangleAllocator where
  Allocator := Size ℤ × Option (Bounds ℤ)
  new size := (size, none)
  allocate a request :=
    if a.2 = none ∧ (0 < request.width ∧ 0 < request.height) ∧
        request.width ≤ a.1.width ∧ request.height ≤ a.1.height then
      ((a.1, some ⟨⟨0, 0⟩, request⟩), some ⟨0, ⟨⟨0, 0⟩, request⟩⟩)
    else (a, none)
  deallocate a _ := (a.1, none)
  size a := a.1
  allocated a id := if id = 0 then a.2 else none
  size_new _ := rfl
  allocated_new _ id := by simp
  size_allocate a request := by split <;> rfl
  allocate_none a request h := by
    split at h
    · simp at h
    · rename_i hno
      rw [if_neg hno]
  allocate_some a request allocation h := by
    split at h
    · rename_i hroom
      obtain ⟨hfree, hnonempty, hwidth, hheight⟩ := hroom
      obtain rfl : ⟨0, ⟨⟨0, 0⟩, request⟩⟩ = allocation := by simpa using h
      rw [if_pos ⟨hfree, hnonempty, hwidth, hheight⟩]
      refine ⟨⟨hnonempty, le_rfl, le_rfl, ⟨le_rfl, ?_, le_rfl, ?_⟩, ?_, ?_⟩, ?_⟩
      · simpa using hwidth
      · simpa using hheight
      · simp [hfree]
      · simp [hfree]
      · funext id
        by_cases hid : id = 0 <;> simp [hid]
    · simp at h
  deallocate_some a id rectangle h := by
    have hid : id = 0 := by
      by_contra hid
      simp [hid] at h
    refine ⟨rfl, ?_⟩
    funext other
    by_cases hother : other = 0 <;> simp [hid, hother]

/-- A tile, and one of another texture in the same slot before the first upload is written. -/
theorem atlas_sound_recycled :
    ∃ s : Session singleAllocator ℕ,
      (Session.new 2048 .rgba8Unorm).run (fun _ => .polychrome)
        [.getOrInsertWith 0 (.built ⟨2, 1⟩ [1, 2, 3, 4, 5, 6, 7, 8]), .remove 0,
          .getOrInsertWith 1 (.built ⟨1, 1⟩ [9, 10, 11, 12])] = .ok s ∧
      Consistent (fun _ => .polychrome) s.atlas ∧
      ∃ after, s.atlas.beforeFrame = .ok after ∧ after.tilesByKey = s.atlas.tilesByKey ∧
        Consistent (fun _ => .polychrome) after ∧ Shown s.built after :=
  atlas_sound (fun _ => .polychrome) 2048 .rgba8Unorm _ (by
    intro op hop
    simp only [List.mem_cons, List.not_mem_nil, or_false] at hop
    rcases hop with rfl | rfl | rfl <;>
      simp [Op.WellSized, WgpuAtlasState.WellSized, WgpuAtlasState.formatOf, Session.new,
        WgpuAtlasState.new, TextureFormat.bytesPerPixel])

end Atlas

end Zui
