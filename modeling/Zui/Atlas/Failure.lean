/-
Insertions that fail.

`allocate` makes a new texture when none of its kind has room, before it knows whether the new one
has.  When it has not, the texture stays in its slot, without a tile (`allocate_noRoom`), and the
next call for the key makes another one.

* `Indexed` — the textures know their slots, and the free slots are there, in every run;
* `HasRoom` — what decides whether an allocation succeeds;
* `Unchanged` — the part of an atlas that a failed call should leave as it is.
-/
import Mathlib
import Zui.Atlas.Runs

namespace Zui

open Gpui

namespace Atlas

variable {R : RectangleAllocator} {Key : Type} [DecidableEq Key]

/-! ### Slots -/

/-- The textures know their slots, and the free slots are there. -/
structure AtlasTextureList.Indexed (list : AtlasTextureList R) : Prop where
  index : ∀ (ix : ℕ) (texture : WgpuAtlasTexture R),
    list.textures[ix]? = some (some texture) → texture.id.index = ix
  free : ∀ ix ∈ list.freeList, ix < list.textures.length

/-- Slots that are not free. -/
def AtlasTextureList.taken (self : AtlasTextureList R) : ℤ :=
  self.textures.length - self.freeList.length

theorem WgpuAtlasTexture.allocate_id (size : Size ℤ) (texture : WgpuAtlasTexture R) :
    (texture.allocate size).1.id = texture.id := by
  rw [WgpuAtlasTexture.allocate]
  split
  split <;> rfl

theorem WgpuAtlasTexture.allocate_isSome (size : Size ℤ) (texture : WgpuAtlasTexture R) :
    (texture.allocate size).2.isSome = (R.allocate texture.allocator size).2.isSome := by
  cases hrun : R.allocate texture.allocator size with
  | mk allocator allocation => cases allocation <;> simp [allocate, hrun]

namespace AtlasTextureList

variable {self : AtlasTextureList R}

theorem allocateIn_ids (size : Size ℤ) (slots : List (Option (WgpuAtlasTexture R))) :
    (allocateIn size slots).1.map (Option.map WgpuAtlasTexture.id)
      = slots.map (Option.map WgpuAtlasTexture.id) := by
  induction slots with
  | nil => rfl
  | cons slot slots ih =>
    rw [allocateIn]
    cases hrest : allocateIn size slots with
    | mk rest tile =>
      rw [hrest] at ih
      cases tile with
      | some tile => exact congrArg (slot.map WgpuAtlasTexture.id :: ·) ih
      | none =>
        cases slot with
        | none => exact congrArg (none :: ·) ih
        | some texture =>
          show some (texture.allocate size).1.id :: _ = some texture.id :: _
          rw [WgpuAtlasTexture.allocate_id]
          exact congrArg (some texture.id :: ·) ih

/-- An allocation succeeds when one of the textures has room. -/
theorem allocateIn_isSome (size : Size ℤ) (slots : List (Option (WgpuAtlasTexture R))) :
    (allocateIn size slots).2.isSome ↔
      ∃ texture, some texture ∈ slots ∧ (R.allocate texture.allocator size).2.isSome := by
  induction slots with
  | nil => simp [allocateIn]
  | cons slot slots ih =>
    rw [allocateIn]
    cases hrest : allocateIn size slots with
    | mk rest tile =>
      rw [hrest] at ih
      cases tile with
      | some tile =>
        obtain ⟨texture, hmem, hroom⟩ := ih.mp rfl
        exact ⟨fun _ => ⟨texture, List.mem_cons_of_mem _ hmem, hroom⟩, fun _ => rfl⟩
      | none =>
        have hno : ∀ texture, some texture ∈ slots →
          ¬ (R.allocate texture.allocator size).2.isSome :=
          fun texture hmem hroom => absurd (ih.mpr ⟨texture, hmem, hroom⟩) (by simp)
        cases slot with
        | none =>
          constructor
          · intro h
            exact absurd h (by simp)
          · rintro ⟨texture, hmem, hroom⟩
            exact absurd hroom (hno texture (by simpa using hmem))
        | some texture =>
          show (texture.allocate size).2.isSome ↔ _
          rw [WgpuAtlasTexture.allocate_isSome]
          constructor
          · intro hroom
            exact ⟨texture, List.mem_cons_self, hroom⟩
          · rintro ⟨texture', hmem, hroom⟩
            rcases List.mem_cons.mp hmem with heq | hmem
            · obtain rfl : texture' = texture := by simpa using heq
              exact hroom
            · exact absurd hroom (hno texture' hmem)

theorem Indexed.of_ids {slots' : List (Option (WgpuAtlasTexture R))} (h : self.Indexed)
    (hids : slots'.map (Option.map WgpuAtlasTexture.id)
      = self.textures.map (Option.map WgpuAtlasTexture.id)) :
    ({ self with textures := slots' } : AtlasTextureList R).Indexed where
  index ix texture hix := by
    have hat := congrArg (fun slots => slots[ix]?) hids
    simp only [List.getElem?_map, hix, Option.map_some] at hat
    obtain ⟨slot, hslot, hmap⟩ := Option.map_eq_some_iff.mp hat.symm
    obtain ⟨texture', rfl, hid⟩ := Option.map_eq_some_iff.mp hmap
    rw [← hid]
    exact h.index ix texture' hslot
  free ix hix := by
    have hlength := congrArg List.length hids
    rw [List.length_map, List.length_map] at hlength
    rw [hlength]
    exact h.free ix hix

theorem Indexed.set (h : self.Indexed) {ix : ℕ} {slot : Option (WgpuAtlasTexture R)}
    (hslot : ∀ texture ∈ slot, texture.id.index = ix) :
    ({ self with textures := self.textures.set ix slot } : AtlasTextureList R).Indexed where
  index ix' texture hix' := by
    rw [List.getElem?_set] at hix'
    by_cases heq : ix = ix'
    · rw [if_pos heq] at hix'
      split at hix'
      · rw [← heq]
        exact hslot texture (Option.some_inj.mp hix')
      · exact absurd hix' (by simp)
    · rw [if_neg heq] at hix'
      exact h.index ix' texture hix'
  free ix' hix' := by
    rw [List.length_set]
    exact h.free ix' hix'

theorem place_spec (h : self.Indexed) {texture : ℕ → WgpuAtlasTexture R}
    (hid : ∀ ix, (texture ix).id.index = ix) :
    ∃ list ix, self.place texture = .ok (list, ix) ∧ list.Indexed ∧
      list.textures[ix]? = some (some (texture ix)) ∧ list.taken = self.taken + 1 := by
  rw [place]
  cases hlast : self.freeList.getLast? with
  | some ix =>
    obtain ⟨init, hinit⟩ := List.getLast?_eq_some_iff.mp hlast
    have hlt : ix < self.textures.length := h.free ix (List.mem_of_getLast? hlast)
    have hset := h.set (show ∀ t ∈ some (texture ix), t.id.index = ix by simp [hid])
    refine ⟨_, ix, if_pos hlt, ⟨hset.index, fun ix' hix' => hset.free ix' ?_⟩, ?_, ?_⟩
    · exact List.mem_of_mem_dropLast hix'
    · simp [hlt]
    · simp only [taken, List.length_set, hinit, List.dropLast_concat, List.length_append,
        List.length_singleton]
      omega
  | none =>
    refine ⟨_, _, rfl, ⟨fun ix texture' hix => ?_, fun ix hix => ?_⟩, by simp, ?_⟩
    · rw [List.getElem?_append] at hix
      by_cases hlt : ix < self.textures.length
      · rw [if_pos hlt] at hix
        exact h.index ix texture' hix
      · rw [if_neg hlt] at hix
        obtain ⟨hzero, hget⟩ := List.getElem?_eq_some_iff.mp hix
        have heq : ix = self.textures.length := by simp at hzero; omega
        subst heq
        obtain rfl : texture self.textures.length = texture' := by simpa using hget
        exact hid _
    · have := h.free ix hix
      rw [List.length_append]
      omega
    · simp only [taken, List.length_append, List.length_singleton]
      omega

end AtlasTextureList

/-! ### The slots along a run -/

namespace WgpuAtlasState

variable {self self' : WgpuAtlasState R Key} {size : Size ℤ} {kind : AtlasTextureKind}

/-- The textures of all kinds know their slots. -/
def Indexed (self : WgpuAtlasState R Key) : Prop := ∀ kind, (self.storage kind).Indexed

omit [DecidableEq Key] in
theorem storage_setTextures (kind kind' : AtlasTextureKind) (textures : AtlasTextureList R) :
    (self.setTextures kind textures).storage kind'
      = if kind' = kind then textures else self.storage kind' :=
  Function.update_apply self.storage kind textures kind'

omit [DecidableEq Key] in
theorem Indexed.setTextures (h : self.Indexed) {textures : AtlasTextureList R}
    (ht : textures.Indexed) : (self.setTextures kind textures).Indexed := by
  intro kind'
  rw [storage_setTextures]
  split
  · exact ht
  · exact h kind'

omit [DecidableEq Key] in
theorem Indexed.setSlot (h : self.Indexed) {id : AtlasTextureId}
    {slot : Option (WgpuAtlasTexture R)} (hslot : ∀ texture ∈ slot, texture.id.index = id.index) :
    (self.setSlot id slot).Indexed :=
  h.setTextures ((h id.kind).set hslot)

omit [DecidableEq Key] in
theorem Indexed.getTexture (h : self.Indexed) {id : AtlasTextureId} {texture : WgpuAtlasTexture R}
    (hget : self.getTexture id = some texture) :
    texture.id.index = id.index ∧ id.index < (self.storage id.kind).textures.length := by
  rw [WgpuAtlasState.getTexture, Option.join_eq_some_iff] at hget
  exact ⟨(h id.kind).index _ _ hget, (List.getElem?_eq_some_iff.mp hget).1⟩

/-- A texture of the kind has room for a tile of the size, or a new one has. -/
def HasRoom (self : WgpuAtlasState R Key) (size : Size ℤ) (kind : AtlasTextureKind) : Prop :=
  (∃ texture, some texture ∈ (self.storage kind).textures ∧
    (R.allocate texture.allocator size).2.isSome) ∨
  (R.allocate (R.new (self.newSize size)) size).2.isSome

omit [DecidableEq Key] in
/-- An allocation succeeds when there is room, and takes a slot more otherwise. -/
theorem allocate_indexed (h : self.Indexed) (size : Size ℤ) (kind : AtlasTextureKind) :
    ∃ self' tile, self.allocate size kind = .ok (self', tile) ∧ self'.Indexed ∧
      self'.tilesByKey = self.tilesByKey ∧ self'.pendingUploads = self.pendingUploads ∧
      (tile.isSome ↔ self.HasRoom size kind) ∧
      (tile = none → (self'.storage kind).taken = (self.storage kind).taken + 1) := by
  have hids := AtlasTextureList.allocateIn_ids size (self.storage kind).textures
  have hroom := AtlasTextureList.allocateIn_isSome size (self.storage kind).textures
  rw [allocate]
  cases hrun : AtlasTextureList.allocateIn size (self.storage kind).textures with
  | mk textures tile =>
    rw [hrun] at hids hroom
    have hindexed : (self.setTextures kind { self.storage kind with textures }).Indexed :=
      h.setTextures ((h kind).of_ids hids)
    cases tile with
    | some tile =>
      exact ⟨_, some tile, rfl, hindexed, rfl, rfl, ⟨fun _ => Or.inl (hroom.mp rfl), fun _ => rfl⟩,
        fun hnone => absurd hnone (by simp)⟩
    | none =>
      -- No texture has room, so a new one is made.
      set self₁ := self.setTextures kind { self.storage kind with textures }
      have htaken : (self₁.storage kind).taken = (self.storage kind).taken := by
        have hlength := congrArg List.length hids
        rw [List.length_map, List.length_map] at hlength
        rw [storage_setTextures, if_pos rfl]
        simp only [AtlasTextureList.taken, hlength]
      obtain ⟨list, ix, hplace, hlist, hslot, htaken'⟩ :=
        AtlasTextureList.place_spec (hindexed kind) fun ix =>
          show (self₁.fresh size kind ix).id.index = ix from rfl
      have hpush : self₁.pushTexture size kind = .ok (self₁.setTextures kind list, ix) := by
        show ((self₁.storage kind).place (self₁.fresh size kind)).bind (fun placed =>
          .ok (self₁.setTextures kind placed.1, placed.2)) = _
        rw [hplace]
        rfl
      set self₂ := self₁.setTextures kind list
      have hget : self₂.getTexture ⟨ix, kind⟩ = some (self₁.fresh size kind ix) := by
        rw [getTexture, storage_setTextures, if_pos rfl, hslot]
        rfl
      have hnew : ((self₁.fresh size kind ix).allocate size).2.isSome ↔
          (R.allocate (R.new (self.newSize size)) size).2.isSome := by
        rw [WgpuAtlasTexture.allocate_isSome]
        rfl
      have hindexed' : self₂.Indexed := hindexed.setTextures hlist
      refine ⟨self₂.setSlot ⟨ix, kind⟩ (some ((self₁.fresh size kind ix).allocate size).1),
        ((self₁.fresh size kind ix).allocate size).2, ?_, hindexed'.setSlot ?_, rfl, rfl, ?_,
        fun _ => ?_⟩
      · show (self₁.pushTexture size kind).bind _ = _
        rw [hpush]
        dsimp only [Except.bind]
        rw [hget]
      · intro texture ht
        obtain rfl := Option.some_inj.mp ht
        rw [WgpuAtlasTexture.allocate_id]
        rfl
      · rw [hnew, HasRoom, ← hroom]
        simp
      · rw [setSlot, storage_setTextures, if_pos rfl, AtlasTextureList.taken, List.length_set,
          storage_setTextures, if_pos rfl, ← htaken]
        exact htaken'

theorem getOrInsertWith_indexed (h : self.Indexed) (textureKind : Key → AtlasTextureKind)
    (key : Key) (build : Build) :
    ∃ self' outcome, self.getOrInsertWith textureKind key build = .ok (self', outcome) ∧
      self'.Indexed := by
  rw [getOrInsertWith.eq_def]
  cases self.tilesByKey.lookup key with
  | some tile => exact ⟨self, _, rfl, h⟩
  | none =>
    cases build with
    | failed => exact ⟨self, _, rfl, h⟩
    | nothing => exact ⟨self, _, rfl, h⟩
    | built size bytes =>
      obtain ⟨self', tile, hrun, hindexed, -⟩ := allocate_indexed h size (textureKind key)
      dsimp only
      rw [hrun, ok_bind]
      cases tile with
      | none => exact ⟨self', _, rfl, hindexed⟩
      | some tile => exact ⟨_, _, rfl, hindexed⟩

theorem remove_indexed (h : self.Indexed) {key : Key} (hrun : self.remove key = .ok self') :
    self'.Indexed := by
  rw [remove] at hrun
  cases hlookup : self.tilesByKey.lookup key with
  | none =>
    rw [hlookup] at hrun
    rwa [← Except.ok.inj hrun]
  | some tile =>
    rw [hlookup] at hrun
    dsimp only at hrun
    set self₁ : WgpuAtlasState R Key :=
      { self with tilesByKey := self.tilesByKey.filter fun entry => entry.1 ≠ key }
    have h₁ : self₁.Indexed := h
    cases hget : self₁.getTexture tile.textureId with
    | none =>
      rw [hget] at hrun
      rwa [← Except.ok.inj hrun]
    | some texture =>
      rw [hget] at hrun
      obtain ⟨hindex, hlt⟩ := h₁.getTexture hget
      obtain ⟨texture', hdecrement, hrest⟩ := bind_eq_ok.mp hrun
      have hid : texture'.id = texture.id := by
        rw [WgpuAtlasTexture.decrementRefCount] at hdecrement
        split at hdecrement
        · exact absurd hdecrement (by simp)
        · rw [← Except.ok.inj hdecrement]
      split at hrest
      · -- The slot of the last tile becomes free.
        have hempty : (self₁.setSlot tile.textureId none).Indexed := h₁.setSlot (by simp)
        rw [← Except.ok.inj hrest]
        refine hempty.setTextures ⟨(hempty tile.textureId.kind).index, fun ix hix => ?_⟩
        rcases List.mem_append.mp hix with hix | hix
        · exact (hempty tile.textureId.kind).free ix hix
        · rw [List.mem_singleton.mp hix, hid, hindex, setSlot, storage_setTextures, if_pos rfl,
            List.length_set]
          exact hlt
      · rw [← Except.ok.inj hrest]
        refine h₁.setSlot fun texture'' ht => ?_
        obtain rfl := Option.some_inj.mp ht
        rw [hid, hindex]

omit [DecidableEq Key] in
theorem beforeFrame_indexed (h : self.Indexed) (hrun : self.beforeFrame = .ok self') :
    self'.Indexed := by
  rw [beforeFrame] at hrun
  refine foldlM_partial Indexed (fun self upload self' h hrun => ?_) ?_ hrun
  swap
  · exact h
  rw [flushUpload] at hrun
  cases hget : self.getTexture upload.id with
  | none =>
    rw [hget] at hrun
    rwa [← Except.ok.inj hrun]
  | some texture =>
    rw [hget] at hrun
    obtain ⟨texture', hwrite, hrest⟩ := bind_eq_ok.mp hrun
    have hid : texture'.id = texture.id := by
      rw [WgpuAtlasTexture.writeTexture] at hwrite
      split at hwrite
      · rw [← Except.ok.inj hwrite]
        rfl
      · exact absurd hwrite (by simp)
    rw [← Except.ok.inj hrest]
    refine h.setSlot fun texture'' ht => ?_
    obtain rfl := Option.some_inj.mp ht
    rw [hid, (h.getTexture hget).1]

omit [DecidableEq Key] in
theorem new_indexed (maxTextureSize : ℤ) (colorTextureFormat : TextureFormat) :
    (new maxTextureSize colorTextureFormat : WgpuAtlasState R Key).Indexed :=
  fun _ => ⟨fun _ _ hix => absurd hix (by simp [new, AtlasTextureList.empty]),
    fun _ hix => absurd hix List.not_mem_nil⟩

end WgpuAtlasState

theorem run_indexed {textureKind : Key → AtlasTextureKind} {ops : List (Op Key)}
    {s s' : Session R Key} (h : s.atlas.Indexed) (hrun : s.run textureKind ops = .ok s') :
    s'.atlas.Indexed := by
  refine foldlM_partial (fun s : Session R Key => s.atlas.Indexed)
    (fun s op s' h hstep => ?_) h hrun
  cases op with
  | getOrInsertWith key build =>
    obtain ⟨atlas, outcome, hcall, hindexed⟩ :=
      WgpuAtlasState.getOrInsertWith_indexed h textureKind key build
    rw [Session.step, hcall, ok_bind] at hstep
    rwa [← Except.ok.inj hstep]
  | remove key =>
    obtain ⟨atlas, hcall, hrest⟩ := bind_eq_ok.mp hstep
    rw [← Except.ok.inj hrest]
    exact WgpuAtlasState.remove_indexed h hcall
  | beforeFrame =>
    obtain ⟨atlas, hcall, hrest⟩ := bind_eq_ok.mp hstep
    rw [← Except.ok.inj hrest]
    exact WgpuAtlasState.beforeFrame_indexed h hcall
  | clear =>
    rw [← Except.ok.inj hstep]
    have hnew : (WgpuAtlasState.new 0 .other : WgpuAtlasState R Key).Indexed :=
      WgpuAtlasState.new_indexed 0 .other
    exact hnew

/-! ### Calls that fail -/

/-- The call returns an error. -/
def Outcome.isError : Outcome → Bool
  | .tile _ | .nothing => false
  | .buildFailed | .failedToAllocate => true

/-- So many calls for a key one after another, which all return an error. -/
inductive Failing (textureKind : Key → AtlasTextureKind) (key : Key) (build : Build) :
    ℕ → WgpuAtlasState R Key → WgpuAtlasState R Key → Prop
  | done (self : WgpuAtlasState R Key) : Failing textureKind key build 0 self self
  | call {n : ℕ} {self self₁ self' : WgpuAtlasState R Key} {outcome : Outcome}
      (hcall : self.getOrInsertWith textureKind key build = .ok (self₁, outcome))
      (herror : outcome.isError) (hrest : Failing textureKind key build n self₁ self') :
      Failing textureKind key build (n + 1) self self'

/-- The texture slots, with their reference counts and rectangles, the free slots, the tiles and
the pending uploads are the same. -/
structure Unchanged (before after : WgpuAtlasState R Key) : Prop where
  views : after.views = before.views
  free : after.free = before.free
  tilesByKey : after.tilesByKey = before.tilesByKey
  pendingUploads : after.pendingUploads = before.pendingUploads

/-- The key has a tile, or the build gives no image, or there is room for the image. -/
def Build.HasRoom (build : Build) (key : Key) (kind : AtlasTextureKind)
    (self : WgpuAtlasState R Key) : Prop :=
  (self.tilesByKey.lookup key).isSome ∨
    match build with
    | .failed | .nothing => True
    | .built size _ => self.HasRoom size kind

variable {textureKind : Key → AtlasTextureKind} {key : Key} {build : Build}
  {self self' : WgpuAtlasState R Key}

omit [DecidableEq Key] in
theorem Unchanged.taken (h : Unchanged self self') (kind : AtlasTextureKind) :
    (self'.storage kind).taken = (self.storage kind).taken := by
  have hviews : viewsOf (self'.storage kind).textures = viewsOf (self.storage kind).textures :=
    List.ext_getElem? fun ix => congrFun h.views ⟨ix, kind⟩
  have hlength := congrArg List.length hviews
  rw [viewsOf, viewsOf, List.length_map, List.length_map] at hlength
  have hfree : (self'.storage kind).freeList = (self.storage kind).freeList := congrFun h.free kind
  rw [AtlasTextureList.taken, AtlasTextureList.taken, hlength, hfree]

/-- With room, a call that returns an error leaves the atlas as it is. -/
theorem call_hasRoom (h : self.Indexed) (hroom : build.HasRoom key (textureKind key) self)
    {outcome : Outcome}
    (hcall : self.getOrInsertWith textureKind key build = .ok (self', outcome))
    (herror : outcome.isError) : self' = self := by
  rw [WgpuAtlasState.getOrInsertWith.eq_def] at hcall
  cases hlookup : self.tilesByKey.lookup key with
  | some tile =>
    rw [hlookup] at hcall
    exact (Prod.mk.inj (Except.ok.inj hcall)).1.symm
  | none =>
    rw [hlookup] at hcall
    cases build with
    | failed => exact (Prod.mk.inj (Except.ok.inj hcall)).1.symm
    | nothing => exact (Prod.mk.inj (Except.ok.inj hcall)).1.symm
    | built size bytes =>
      obtain ⟨self₁, tile, hrun, -, -, -, hiff, -⟩ :=
        WgpuAtlasState.allocate_indexed h size (textureKind key)
      have hsome := hiff.mpr (hroom.resolve_left (by simp [hlookup]))
      obtain ⟨tile, rfl⟩ := Option.isSome_iff_exists.mp hsome
      dsimp only at hcall
      rw [hrun, ok_bind] at hcall
      rw [← (Prod.mk.inj (Except.ok.inj hcall)).2] at herror
      exact absurd herror (by simp [Outcome.isError])

theorem call_noRoom (h : self.Indexed) (hroom : ¬ build.HasRoom key (textureKind key) self) :
    ∃ self', self.getOrInsertWith textureKind key build = .ok (self', .failedToAllocate) ∧
      self'.Indexed ∧ self'.tilesByKey = self.tilesByKey ∧
      (self'.storage (textureKind key)).taken = (self.storage (textureKind key)).taken + 1 := by
  obtain ⟨hlookup, hbuild⟩ := not_or.mp hroom
  rw [Bool.not_eq_true, Option.isSome_eq_false_iff, Option.isNone_iff_eq_none] at hlookup
  cases build with
  | failed => exact absurd trivial hbuild
  | nothing => exact absurd trivial hbuild
  | built size bytes =>
    obtain ⟨self', tile, hrun, hindexed, htiles, -, hiff, htaken⟩ :=
      WgpuAtlasState.allocate_indexed h size (textureKind key)
    obtain rfl : tile = none := Option.not_isSome_iff_eq_none.mp (hiff.not.mpr hbuild)
    refine ⟨self', ?_, hindexed, htiles, htaken rfl⟩
    rw [WgpuAtlasState.getOrInsertWith, hlookup]
    dsimp only
    rw [hrun]
    rfl

theorem not_hasRoom_empty {size : Size ℤ} {bytes : List UInt8}
    (hlookup : self.tilesByKey.lookup key = none) (hsize : ¬ (0 < size.width ∧ 0 < size.height)) :
    ¬ (Build.built size bytes).HasRoom key (textureKind key) self := by
  have hnone : ∀ a : R.Allocator, ¬ (R.allocate a size).2.isSome := by
    intro a hsome
    obtain ⟨allocation, hallocation⟩ := Option.isSome_iff_exists.mp hsome
    exact hsize (R.allocate_some a size allocation hallocation).1.nonempty
  rintro (hcached | ⟨texture, -, hroom⟩ | hroom)
  · rw [hlookup] at hcached
    exact absurd hcached (by simp)
  · exact hnone _ hroom
  · exact hnone _ hroom

/-- Each of the calls for an image without texels takes a slot more. -/
theorem failing_empty {size : Size ℤ} {bytes : List UInt8}
    (hsize : ¬ (0 < size.width ∧ 0 < size.height)) (n : ℕ) (h : self.Indexed)
    (hlookup : self.tilesByKey.lookup key = none) :
    ∃ self', Failing textureKind key (.built size bytes) n self self' ∧
      (self'.storage (textureKind key)).taken = (self.storage (textureKind key)).taken + n := by
  induction n generalizing self with
  | zero => exact ⟨self, .done self, (add_zero _).symm⟩
  | succ n ih =>
    obtain ⟨self₁, hcall, hindexed, htiles, htaken⟩ :=
      call_noRoom h (not_hasRoom_empty hlookup hsize)
    obtain ⟨self', hfailing, htaken'⟩ := ih hindexed (by rw [htiles, hlookup])
    refine ⟨self', .call hcall rfl hfailing, ?_⟩
    rw [htaken', htaken]
    push_cast
    ring

/-- **Failed insertions.**  At every state that a run comes to, the calls for a key that fail leave
the atlas as it is, however often they are repeated, exactly when the key has a tile, the build
gives no image, or there is room for the image. -/
theorem failed_insertion_leaks (textureKind : Key → AtlasTextureKind) (maxTextureSize : ℤ)
    (colorTextureFormat : TextureFormat) (ops : List (Op Key)) {s : Session R Key}
    (hrun : (Session.new maxTextureSize colorTextureFormat).run textureKind ops = .ok s) (key : Key)
    (build : Build) :
    (∀ n after, Failing textureKind key build n s.atlas after → Unchanged s.atlas after) ↔
      build.HasRoom key (textureKind key) s.atlas := by
  have h : s.atlas.Indexed := run_indexed (WgpuAtlasState.new_indexed _ _) hrun
  constructor
  · intro hall
    by_contra hroom
    obtain ⟨after, hcall, -, -, htaken⟩ := call_noRoom h hroom
    have hsame := (hall 1 after (.call hcall rfl (.done after))).taken (textureKind key)
    omega
  · intro hroom n after hfailing
    -- Each of the calls starts from the same state.
    suffices heq : after = s.atlas by
      rw [heq]
      exact ⟨rfl, rfl, rfl, rfl⟩
    generalize s.atlas = self at h hroom hfailing
    induction hfailing with
    | done self => rfl
    | call hcall herror hrest ih =>
      obtain rfl := call_hasRoom h hroom hcall herror
      exact ih h hroom

/-- The theorem at a new atlas, and an image of one texel, for which there is room. -/
theorem failed_insertion_leaks_texel :
    Build.HasRoom (R := singleAllocator) (.built ⟨1, 1⟩ [7]) 0 .monochrome
        (.new 2048 .rgba8Unorm) ∧
      ∀ n (after : WgpuAtlasState singleAllocator ℕ),
        Failing (fun _ => .monochrome) 0 (.built ⟨1, 1⟩ [7]) n (.new 2048 .rgba8Unorm) after →
          Unchanged (.new 2048 .rgba8Unorm) after := by
  have hroom : Build.HasRoom (R := singleAllocator) (.built ⟨1, 1⟩ [7]) 0 .monochrome
      (.new 2048 .rgba8Unorm) := Or.inr (Or.inr (by decide))
  refine ⟨hroom, ?_⟩
  exact (failed_insertion_leaks (R := singleAllocator) (fun _ : ℕ => .monochrome) 2048 .rgba8Unorm
    [] rfl 0 (.built ⟨1, 1⟩ [7])).mpr hroom

/-- For an image without texels, every failing call at a new atlas leaves one texture more. -/
theorem failed_insertion_leaks_empty :
    (∀ n : ℕ, ∃ after : WgpuAtlasState singleAllocator ℕ,
      Failing (fun _ => .monochrome) 0 (.built ⟨0, 0⟩ []) n (.new 2048 .rgba8Unorm) after ∧
        (after.storage .monochrome).taken = n) ∧
      ¬ ∀ n (after : WgpuAtlasState singleAllocator ℕ),
        Failing (fun _ => .monochrome) 0 (.built ⟨0, 0⟩ []) n (.new 2048 .rgba8Unorm) after →
          Unchanged (.new 2048 .rgba8Unorm) after := by
  set start : WgpuAtlasState singleAllocator ℕ := .new 2048 .rgba8Unorm
  have hnew : (start.storage .monochrome).taken = 0 := rfl
  have hgrows : ∀ n, ∃ after, Failing (fun _ => .monochrome) 0 (.built ⟨0, 0⟩ []) n start after ∧
      (after.storage .monochrome).taken = (start.storage .monochrome).taken + n := by
    intro n
    exact failing_empty (by simp) n (WgpuAtlasState.new_indexed 2048 .rgba8Unorm) rfl
  rw [hnew] at hgrows
  simp only [zero_add] at hgrows
  refine ⟨hgrows, ?_⟩
  intro hall
  obtain ⟨after, hfailing, htaken⟩ := hgrows 1
  have hsame := (hall 1 after hfailing).taken .monochrome
  omega

end Atlas

end Zui
