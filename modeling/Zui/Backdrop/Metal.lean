/-
The scratch textures of the Metal renderer.

The renderer keeps up to four pairs of textures, the one used last at the end.  A request takes the
pair of its own extent, rounded up to a multiple of 64 and cut to the drawable, or makes one, and
pairs go from the front when there are too many bytes of them.

Main statements:

* `between_calls` — at most four pairs, of different extents, in every reachable state;
* `backdrop_cache_bounded` — what a request returns, and what it leaves in the cache;
* `format_change_allocates` — a pair of the right extent and another format is not reused.

The sizes are natural numbers: those of textures are far below where `u64` would overflow.
-/
import Mathlib

namespace Zui

namespace Backdrop

/-! ### The renderer -/

/-- A `metal::Texture`, with the size and the pixel format of its descriptor. -/
structure MetalTexture (F : Type) where
  id : ℕ
  width : ℕ
  height : ℕ
  pixelFormat : F

/-- `BackdropTextures`. -/
structure BackdropTextures (F : Type) where
  usedThisFrame : Bool
  scratch : MetalTexture F
  blurred : MetalTexture F

namespace BackdropTextures

variable {F : Type}

/-- `BackdropTextures::bytes`. -/
def bytes (self : BackdropTextures F) : ℕ := self.scratch.width * self.scratch.height * 8

/-- The extent of a pair. -/
def extent (self : BackdropTextures F) : ℕ × ℕ := (self.scratch.width, self.scratch.height)

end BackdropTextures

/-- `MetalRenderer`, with the sizes of its path textures and the number of scratch textures that its
device has made. -/
structure MetalRenderer (F K : Type) where
  backdropTextures : List (BackdropTextures F)
  backdropKernels : List (K × ℕ)
  blurFreeFrames : ℕ
  pathFreeFrames : ℕ
  pathIntermediateTexture : Option (ℤ × ℤ)
  pathIntermediateMsaaTexture : Option (ℤ × ℤ)
  pathSampleCount : ℕ
  newTextures : ℕ

/-- The arguments of `ensure_backdrop_scratch`. -/
structure ScratchRequest (F : Type) where
  neededWidth : ℕ
  neededHeight : ℕ
  drawableWidth : ℕ
  drawableHeight : ℕ
  format : F

/-- Pairs go from the front for as long as there is an excess. -/
def evictWhile {α : Type} (excess : List α → Bool) : List α → List α
  | [] => []
  | pair :: pairs => if excess (pair :: pairs) then evictWhile excess pairs else pair :: pairs

/-- The bytes of a cache. -/
def totalBytes {F : Type} (pairs : List (BackdropTextures F)) : ℕ :=
  (pairs.map BackdropTextures.bytes).sum

namespace ScratchRequest

variable {F : Type}

/-- `width`, rounded up to the quantum and cut to the drawable. -/
def width (self : ScratchRequest F) : ℕ :=
  min ((self.neededWidth + 63) / 64 * 64) self.drawableWidth

/-- `height`. -/
def height (self : ScratchRequest F) : ℕ :=
  min ((self.neededHeight + 63) / 64 * 64) self.drawableHeight

/-- `budget`. -/
def budget (self : ScratchRequest F) : ℕ :=
  max (min (self.drawableWidth * self.drawableHeight * 16) (32 * 1024 * 1024))
    (self.width * self.height * 8)

/-- A needed size between 1 and the drawable's. -/
structure Valid (request : ScratchRequest F) : Prop where
  width_pos : 1 ≤ request.neededWidth
  width_le : request.neededWidth ≤ request.drawableWidth
  height_pos : 1 ≤ request.neededHeight
  height_le : request.neededHeight ≤ request.drawableHeight

end ScratchRequest

namespace MetalRenderer

variable {F K : Type}

/-- A renderer at its start. -/
def new (pathSampleCount : ℕ) : MetalRenderer F K where
  backdropTextures := []
  backdropKernels := []
  blurFreeFrames := 0
  pathFreeFrames := 0
  pathIntermediateTexture := none
  pathIntermediateMsaaTexture := none
  pathSampleCount
  newTextures := 0

/-- `release_backdrop_resources`. -/
def releaseBackdropResources (self : MetalRenderer F K) : MetalRenderer F K :=
  { self with backdropTextures := [], backdropKernels := [] }

/-- `trim_idle_resources`. -/
def trimIdleResources (self : MetalRenderer F K) : MetalRenderer F K :=
  let kept := { self with backdropTextures := self.backdropTextures.filter (·.usedThisFrame) }
  let released := if kept.backdropTextures.isEmpty then kept.releaseBackdropResources else kept
  if released.pathFreeFrames > 0 then
    { released with pathIntermediateTexture := none, pathIntermediateMsaaTexture := none }
  else released

/-- `ensure_path_intermediates`. -/
def ensurePathIntermediates (width height : ℤ) (self : MetalRenderer F K) : MetalRenderer F K :=
  if width ≤ 0 ∨ height ≤ 0 then
    { self with pathIntermediateTexture := none, pathIntermediateMsaaTexture := none }
  else if self.pathIntermediateTexture = some (width, height) then self
  else
    { self with
      pathIntermediateTexture := some (width, height)
      pathIntermediateMsaaTexture :=
        if self.pathSampleCount > 1 then some (width, height) else none }

/-- The start of `draw_primitives_to_texture`: what a frame without blurs or paths releases. -/
def beginFrame (hasBlurs hasPaths : Bool) (width height : ℤ) (self : MetalRenderer F K) :
    MetalRenderer F K :=
  let unused : MetalRenderer F K :=
    { self with
      backdropTextures :=
        self.backdropTextures.map fun pair => { pair with usedThisFrame := false } }
  let blurs : MetalRenderer F K :=
    if hasBlurs then { unused with blurFreeFrames := 0 }
    else
      let counted : MetalRenderer F K :=
        { unused with blurFreeFrames := min (unused.blurFreeFrames + 1) (2 ^ 32 - 1) }
      if counted.blurFreeFrames ≥ 30 then counted.releaseBackdropResources else counted
  if hasPaths then ensurePathIntermediates width height { blurs with pathFreeFrames := 0 }
  else
    let counted : MetalRenderer F K :=
      { blurs with pathFreeFrames := min (blurs.pathFreeFrames + 1) (2 ^ 32 - 1) }
    if counted.pathFreeFrames ≥ 30 then
      { counted with pathIntermediateTexture := none, pathIntermediateMsaaTexture := none }
    else counted

variable [DecidableEq F]

/-- The pairs that a request may still use: no larger than the drawable, and of its format. -/
def retained (request : ScratchRequest F) (self : MetalRenderer F K) : List (BackdropTextures F) :=
  self.backdropTextures.filter fun pair =>
    pair.scratch.width ≤ request.drawableWidth && pair.scratch.height ≤ request.drawableHeight &&
      pair.scratch.pixelFormat = request.format

/-- Whether a pair is the one of a request. -/
def isHit (request : ScratchRequest F) (pair : BackdropTextures F) : Bool :=
  pair.scratch.pixelFormat = request.format && pair.scratch.width = request.width &&
    pair.scratch.height = request.height

/-- `new_texture`. -/
def newTexture (id : ℕ) (request : ScratchRequest F) : MetalTexture F :=
  ⟨id, request.width, request.height, request.format⟩

/-- The pairs with the one of a request at their end, and the number of textures made so far. -/
def placed (request : ScratchRequest F) (self : MetalRenderer F K) :
    List (BackdropTextures F) × ℕ :=
  let pairs := self.retained request
  match pairs.find? (isHit request) with
  | some pair =>
    (pairs.eraseP (isHit request) ++ [{ pair with usedThisFrame := true }], self.newTextures)
  | none =>
    let needed := request.width * request.height * 8
    let left := evictWhile
      (fun pairs => pairs.length ≥ 4 || totalBytes pairs + needed > request.budget) pairs
    (left ++ [⟨true, newTexture self.newTextures request,
      newTexture (self.newTextures + 1) request⟩], self.newTextures + 2)

/-- `ensure_backdrop_scratch`.  It has no result where the `unwrap` would fail. -/
def ensureBackdropScratch (request : ScratchRequest F) (self : MetalRenderer F K) :
    Option (MetalRenderer F K × MetalTexture F × MetalTexture F) :=
  let (pairs, newTextures) := self.placed request
  let left := evictWhile
    (fun pairs => pairs.length > 1 && totalBytes pairs > request.budget) pairs
  left.getLast?.map fun pair =>
    ({ self with backdropTextures := left, newTextures }, pair.scratch, pair.blurred)

/-! ### Eviction -/

end MetalRenderer

section Evict

variable {α : Type} (excess : List α → Bool)

theorem evictWhile_suffix (pairs : List α) :
    evictWhile excess pairs <:+ pairs := by
  induction pairs with
  | nil => exact List.suffix_rfl
  | cons pair pairs ih =>
    rw [evictWhile]
    split
    · exact ih.trans (List.suffix_cons pair pairs)
    · exact List.suffix_rfl

theorem evictWhile_stops (pairs : List α) :
    evictWhile excess pairs = [] ∨ excess (evictWhile excess pairs) = false := by
  induction pairs with
  | nil => exact .inl rfl
  | cons pair pairs ih =>
    rw [evictWhile]
    split
    · exact ih
    · rename_i hexcess
      exact .inr (by simpa using hexcess)

theorem evictWhile_append (pairs : List α) (last : α) (hlast : excess [last] = false) :
    ∃ left, left <:+ pairs ∧ evictWhile excess (pairs ++ [last]) = left ++ [last] ∧
      excess (left ++ [last]) = false := by
  induction pairs with
  | nil =>
    refine ⟨[], List.suffix_rfl, ?_, hlast⟩
    simp [evictWhile, hlast]
  | cons pair pairs ih =>
    by_cases hexcess : excess (pair :: (pairs ++ [last]))
    · obtain ⟨left, hsuffix, heq, hleft⟩ := ih
      refine ⟨left, hsuffix.trans (List.suffix_cons pair pairs), ?_, hleft⟩
      rw [List.cons_append, evictWhile, if_pos hexcess, heq]
    · refine ⟨pair :: pairs, List.suffix_rfl, ?_, by simpa using hexcess⟩
      rw [List.cons_append, evictWhile, if_neg hexcess]

end Evict

/-! ### The cache -/

section Cache

variable {F : Type}

/-- What holds of the cache between any two calls. -/
structure Cached (pairs : List (BackdropTextures F)) : Prop where
  length_le : pairs.length ≤ 4
  distinct : (pairs.map BackdropTextures.extent).Nodup
  alike : ∀ pair ∈ pairs, pair.blurred.width = pair.scratch.width ∧
    pair.blurred.height = pair.scratch.height ∧
      pair.blurred.pixelFormat = pair.scratch.pixelFormat

/-- What holds of the cache behind a request, up to the next one: no pair is larger than the
drawable, and their bytes are in the budget or those of the pair that was returned. -/
structure Bounded (request : ScratchRequest F) (returned : BackdropTextures F)
    (pairs : List (BackdropTextures F)) : Prop extends Cached pairs where
  fits : ∀ pair ∈ pairs, pair.scratch.width ≤ request.drawableWidth ∧
    pair.scratch.height ≤ request.drawableHeight
  total_le : totalBytes pairs ≤
    max (min (32 * 1024 * 1024) (16 * (request.drawableWidth * request.drawableHeight)))
      returned.bytes

/-- A texture that a request can be given. -/
structure Serves (request : ScratchRequest F) (texture : MetalTexture F) : Prop where
  width : request.neededWidth ≤ texture.width ∧ texture.width ≤ request.drawableWidth
  height : request.neededHeight ≤ texture.height ∧ texture.height ≤ request.drawableHeight
  format : texture.pixelFormat = request.format

theorem Cached.sublist {pairs others : List (BackdropTextures F)} (hpairs : Cached pairs)
    (hsub : others.Sublist pairs) : Cached others where
  length_le := hsub.length_le.trans hpairs.length_le
  distinct := hpairs.distinct.sublist (hsub.map _)
  alike := fun pair hpair => hpairs.alike pair (hsub.subset hpair)

theorem totalBytes_sublist {pairs others : List (BackdropTextures F)}
    (hsub : others.Sublist pairs) : totalBytes others ≤ totalBytes pairs :=
  (hsub.map _).sum_le_sum fun _ _ => Nat.zero_le _

theorem Bounded.sublist {request : ScratchRequest F} {returned : BackdropTextures F}
    {pairs others : List (BackdropTextures F)} (hpairs : Bounded request returned pairs)
    (hsub : others.Sublist pairs) : Bounded request returned others where
  toCached := hpairs.toCached.sublist hsub
  fits := fun pair hpair => hpairs.fits pair (hsub.subset hpair)
  total_le := (totalBytes_sublist hsub).trans hpairs.total_le

/-- The pairs, with their flags off. -/
def unused (pairs : List (BackdropTextures F)) : List (BackdropTextures F) :=
  pairs.map fun pair => { pair with usedThisFrame := false }

theorem Cached.unused {pairs : List (BackdropTextures F)} (hpairs : Cached pairs) :
    Cached (unused pairs) where
  length_le := (List.length_map _).trans_le hpairs.length_le
  distinct := by
    have hextent : (Backdrop.unused pairs).map BackdropTextures.extent =
        pairs.map BackdropTextures.extent := List.map_map
    rw [hextent]
    exact hpairs.distinct
  alike := by
    intro pair hpair
    obtain ⟨before, hbefore, rfl⟩ := List.mem_map.mp hpair
    exact hpairs.alike before hbefore

theorem Bounded.unused {request : ScratchRequest F} {returned : BackdropTextures F}
    {pairs : List (BackdropTextures F)} (hpairs : Bounded request returned pairs) :
    Bounded request returned (unused pairs) where
  toCached := hpairs.toCached.unused
  fits := by
    intro pair hpair
    obtain ⟨before, hbefore, rfl⟩ := List.mem_map.mp hpair
    exact hpairs.fits before hbefore
  total_le := by
    have hbytes : (Backdrop.unused pairs).map BackdropTextures.bytes =
        pairs.map BackdropTextures.bytes := List.map_map
    rw [totalBytes, hbytes]
    exact hpairs.total_le

end Cache

namespace ScratchRequest

variable {F : Type} (request : ScratchRequest F)

theorem width_le_drawable : request.width ≤ request.drawableWidth := min_le_right _ _

theorem height_le_drawable : request.height ≤ request.drawableHeight := min_le_right _ _

theorem Valid.le_width {request : ScratchRequest F} (hrequest : request.Valid) :
    request.neededWidth ≤ request.width := by
  refine le_min ?_ hrequest.width_le
  omega

theorem Valid.le_height {request : ScratchRequest F} (hrequest : request.Valid) :
    request.neededHeight ≤ request.height := by
  refine le_min ?_ hrequest.height_le
  omega

/-- A texture of the extent and the format of a request serves it. -/
theorem Valid.serves {request : ScratchRequest F} (hrequest : request.Valid)
    {texture : MetalTexture F} (hwidth : texture.width = request.width)
    (hheight : texture.height = request.height) (hformat : texture.pixelFormat = request.format) :
    Serves request texture where
  width := ⟨hwidth ▸ hrequest.le_width, hwidth ▸ request.width_le_drawable⟩
  height := ⟨hheight ▸ hrequest.le_height, hheight ▸ request.height_le_drawable⟩
  format := hformat

end ScratchRequest

namespace MetalRenderer

variable {F K : Type} [DecidableEq F] {request : ScratchRequest F} {state : MetalRenderer F K}

theorem isHit_iff {pair : BackdropTextures F} :
    isHit request pair = true ↔ pair.scratch.pixelFormat = request.format ∧
      pair.scratch.width = request.width ∧ pair.scratch.height = request.height := by
  simp [isHit, and_assoc]

theorem mem_retained {pair : BackdropTextures F} :
    pair ∈ state.retained request ↔ pair ∈ state.backdropTextures ∧
      pair.scratch.width ≤ request.drawableWidth ∧
        pair.scratch.height ≤ request.drawableHeight ∧
          pair.scratch.pixelFormat = request.format := by
  simp [retained, and_assoc]

/-- The pair of a request at the end, behind pairs that are no larger than the drawable. -/
structure Placed (request : ScratchRequest F) (kept : List (BackdropTextures F))
    (pair : BackdropTextures F) : Prop extends Cached (kept ++ [pair]) where
  hit : isHit request pair = true
  fits : ∀ other ∈ kept ++ [pair], other.scratch.width ≤ request.drawableWidth ∧
    other.scratch.height ≤ request.drawableHeight

/-- A hit takes the pair out of its place. -/
theorem placed_of_hit (hstate : Cached state.backdropTextures) {found : BackdropTextures F}
    (hfound : (state.retained request).find? (isHit request) = some found) :
    ∃ kept pair, state.placed request = (kept ++ [pair], state.newTextures) ∧
      Placed request kept pair := by
  obtain ⟨hhit, front, back, hsplit, hfront⟩ := List.find?_eq_some_iff_append.mp hfound
  have herase : (state.retained request).eraseP (isHit request) = front ++ back := by
    rw [hsplit, List.eraseP_append_right _ (by simpa using hfront),
      List.eraseP_cons_of_pos hhit]
  have hcached : Cached (front ++ found :: back) := by
    rw [← hsplit]
    exact hstate.sublist List.filter_sublist
  have hperm : ((front ++ back) ++ [found]).Perm (front ++ found :: back) := by
    rw [List.append_assoc]
    exact (List.perm_append_singleton found back).append_left front
  have hmem : ∀ other ∈ (front ++ back) ++ [{ found with usedThisFrame := true }],
      ∃ before ∈ front ++ found :: back,
        other.scratch = before.scratch ∧ other.blurred = before.blurred := by
    intro other hother
    rcases List.mem_append.mp hother with hother | hother
    · exact ⟨other, hperm.subset (List.mem_append_left _ hother), rfl, rfl⟩
    · rw [List.mem_singleton] at hother
      subst hother
      exact ⟨found, by simp, rfl, rfl⟩
  refine ⟨front ++ back, { found with usedThisFrame := true }, ?_, ?_, ?_, ?_⟩
  · simp only [placed, hfound, herase]
  · constructor
    · have hlength := hperm.length_eq
      have hle := hcached.length_le
      rw [List.length_append, List.length_singleton] at hlength ⊢
      omega
    · have hextent : ((front ++ back) ++ [{ found with usedThisFrame := true }]).map
          BackdropTextures.extent = ((front ++ back) ++ [found]).map BackdropTextures.extent := by
        simp [BackdropTextures.extent]
      rw [hextent]
      exact (hperm.map _).nodup_iff.mpr hcached.distinct
    · intro other hother
      obtain ⟨before, hbefore, hscratch, hblurred⟩ := hmem other hother
      rw [hscratch, hblurred]
      exact hcached.alike before hbefore
  · exact hhit
  · intro other hother
    obtain ⟨before, hbefore, hscratch, -⟩ := hmem other hother
    rw [← hsplit, mem_retained] at hbefore
    rw [hscratch]
    exact ⟨hbefore.2.1, hbefore.2.2.1⟩

/-- A miss makes a pair, when there are three at most. -/
theorem placed_of_miss (hstate : Cached state.backdropTextures)
    (hmiss : (state.retained request).find? (isHit request) = none) :
    ∃ kept pair, (state.placed request).1 = kept ++ [pair] ∧ Placed request kept pair := by
  set excess : List (BackdropTextures F) → Bool := fun pairs =>
    pairs.length ≥ 4 || totalBytes pairs + request.width * request.height * 8 > request.budget
    with hexcess
  set left := evictWhile excess (state.retained request) with hleft
  have hsub : left.Sublist (state.retained request) := (evictWhile_suffix excess _).sublist
  have hcached : Cached left := (hstate.sublist List.filter_sublist).sublist hsub
  have hlength : left.length ≤ 3 := by
    rcases evictWhile_stops excess (state.retained request) with hnil | hstop
    · rw [hleft, hnil]
      exact Nat.zero_le 3
    · rw [← hleft, hexcess] at hstop
      simp only [Bool.or_eq_false_iff, decide_eq_false_iff_not] at hstop
      omega
  refine ⟨left, ⟨true, newTexture state.newTextures request,
    newTexture (state.newTextures + 1) request⟩, ?_, ?_, ?_, ?_⟩
  · simp only [placed, hmiss]
    rfl
  · constructor
    · rw [List.length_append, List.length_singleton]
      omega
    · rw [List.map_append, List.nodup_append]
      refine ⟨hcached.distinct, List.nodup_singleton _, ?_⟩
      intro extent hextent new hnew heq
      obtain ⟨other, hother, rfl⟩ := List.mem_map.mp hextent
      have hretained := mem_retained.mp (hsub.subset hother)
      have hno := List.find?_eq_none.mp hmiss other (hsub.subset hother)
      -- a pair of this extent would have been the hit
      apply hno
      rw [isHit_iff]
      rw [List.map_singleton, List.mem_singleton] at hnew
      have hsize := heq.trans hnew
      simp only [BackdropTextures.extent, newTexture, Prod.mk.injEq] at hsize
      exact ⟨hretained.2.2.2, hsize.1, hsize.2⟩
    · intro other hother
      rcases List.mem_append.mp hother with hother | hother
      · exact hcached.alike other hother
      · rw [List.mem_singleton] at hother
        subst hother
        exact ⟨rfl, rfl, rfl⟩
  · exact isHit_iff.mpr ⟨rfl, rfl, rfl⟩
  · intro other hother
    rcases List.mem_append.mp hother with hother | hother
    · have hretained := mem_retained.mp (hsub.subset hother)
      exact ⟨hretained.2.1, hretained.2.2.1⟩
    · rw [List.mem_singleton] at hother
      subst hother
      exact ⟨request.width_le_drawable, request.height_le_drawable⟩

theorem placed_spec (request : ScratchRequest F) (hstate : Cached state.backdropTextures) :
    ∃ kept pair, (state.placed request).1 = kept ++ [pair] ∧ Placed request kept pair := by
  cases hfind : (state.retained request).find? (isHit request) with
  | some found =>
    obtain ⟨kept, pair, hplaced, hpair⟩ := placed_of_hit hstate hfind
    exact ⟨kept, pair, by rw [hplaced], hpair⟩
  | none => exact placed_of_miss hstate hfind

theorem placed_newTextures (hstate : Cached state.backdropTextures) {cached : BackdropTextures F}
    (hcached : cached ∈ state.backdropTextures) (hhit : isHit request cached = true) :
    (state.placed request).2 = state.newTextures := by
  obtain ⟨hformat, hwidth, hheight⟩ := isHit_iff.mp hhit
  have hretained : cached ∈ state.retained request :=
    mem_retained.mpr ⟨hcached, hwidth ▸ request.width_le_drawable,
      hheight ▸ request.height_le_drawable, hformat⟩
  cases hfind : (state.retained request).find? (isHit request) with
  | some found =>
    obtain ⟨kept, pair, hplaced, -⟩ := placed_of_hit hstate hfind
    rw [hplaced]
  | none => exact absurd hhit (List.find?_eq_none.mp hfind cached hretained)

/-- What a request returns and leaves. -/
theorem ensureBackdropScratch_spec (hrequest : request.Valid)
    (hstate : Cached state.backdropTextures) :
    ∃ after pair,
      state.ensureBackdropScratch request = some (after, pair.scratch, pair.blurred) ∧
        after.backdropTextures.getLast? = some pair ∧
          after.newTextures = (state.placed request).2 ∧
            Serves request pair.scratch ∧ Serves request pair.blurred ∧
              Bounded request pair after.backdropTextures := by
  obtain ⟨kept, pair, hplaced, hpair⟩ := placed_spec request hstate
  obtain ⟨hformat, hwidth, hheight⟩ := isHit_iff.mp hpair.hit
  obtain ⟨hbwidth, hbheight, hbformat⟩ := hpair.alike pair (by simp)
  obtain ⟨left, hsuffix, heq, hstop⟩ := evictWhile_append
    (fun pairs => pairs.length > 1 && totalBytes pairs > request.budget) kept pair rfl
  have hsub : (left ++ [pair]).Sublist (kept ++ [pair]) := hsuffix.sublist.append_right [pair]
  have hbytes : pair.bytes = request.width * request.height * 8 := by
    rw [BackdropTextures.bytes, hwidth, hheight]
  refine ⟨{ state with
    backdropTextures := left ++ [pair], newTextures := (state.placed request).2 }, pair, ?_, ?_,
    rfl, hrequest.serves hwidth hheight hformat, hrequest.serves (hbwidth.trans hwidth)
      (hbheight.trans hheight) (hbformat.trans hformat), ?_, ?_, ?_⟩
  · simp only [ensureBackdropScratch, hplaced, heq, List.getLast?_append, List.getLast?_singleton,
      Option.some_or, Option.map_some]
  · simp
  · exact hpair.toCached.sublist hsub
  · intro other hother
    exact hpair.fits other (hsub.subset hother)
  · show totalBytes (left ++ [pair]) ≤ _
    rw [hbytes]
    simp only [Bool.and_eq_false_iff, decide_eq_false_iff_not, ScratchRequest.budget] at hstop
    rcases hstop with hone | htotal
    · have hnil : left = [] := by
        rw [List.length_append, List.length_singleton] at hone
        exact List.length_eq_zero_iff.mp (by omega)
      subst hnil
      refine le_trans (le_of_eq ?_) (le_max_right _ _)
      simp [totalBytes, hbytes]
    · refine (not_lt.mp (of_decide_eq_false htotal)).trans (le_of_eq ?_)
      rw [min_comm, mul_comm 16]

/-! ### Runs -/

/-- The renderers of a run, and its last request with the pair that it returned. -/
inductive Reachable :
    Option (ScratchRequest F × BackdropTextures F) → MetalRenderer F K → Prop
  | new (pathSampleCount : ℕ) : Reachable none (MetalRenderer.new pathSampleCount)
  | ensure {last : Option (ScratchRequest F × BackdropTextures F)} {before : MetalRenderer F K}
      {request : ScratchRequest F} {after : MetalRenderer F K} {pair : BackdropTextures F} :
      Reachable last before → request.Valid →
        before.ensureBackdropScratch request = some (after, pair.scratch, pair.blurred) →
          after.backdropTextures.getLast? = some pair →
            Reachable (some (request, pair)) after
  | trim {last : Option (ScratchRequest F × BackdropTextures F)} {before : MetalRenderer F K} :
      Reachable last before → Reachable last before.trimIdleResources
  | beginFrame {last : Option (ScratchRequest F × BackdropTextures F)}
      {before : MetalRenderer F K} (hasBlurs hasPaths : Bool) (width height : ℤ) :
      Reachable last before → Reachable last (before.beginFrame hasBlurs hasPaths width height)

omit [DecidableEq F] in
theorem trimIdleResources_sublist (state : MetalRenderer F K) :
    state.trimIdleResources.backdropTextures.Sublist state.backdropTextures := by
  have hkept : (state.backdropTextures.filter (·.usedThisFrame)).Sublist
      state.backdropTextures := List.filter_sublist
  unfold trimIdleResources
  dsimp only
  split_ifs
  · exact List.nil_sublist _
  · exact List.nil_sublist _
  · exact hkept
  · exact hkept

omit [DecidableEq F] in
theorem beginFrame_sublist (hasBlurs hasPaths : Bool) (width height : ℤ)
    (state : MetalRenderer F K) :
    (state.beginFrame hasBlurs hasPaths width height).backdropTextures.Sublist
      (unused state.backdropTextures) := by
  unfold beginFrame ensurePathIntermediates releaseBackdropResources
  dsimp only
  split_ifs <;> first
    | exact List.Sublist.refl _
    | exact List.nil_sublist _

/-- What holds of the cache between any two calls. -/
theorem between_calls {last : Option (ScratchRequest F × BackdropTextures F)}
    (hstate : Reachable last state) : Cached state.backdropTextures ∧
      ∀ request returned, last = some (request, returned) →
        Bounded request returned state.backdropTextures := by
  induction hstate with
  | new pathSampleCount =>
    refine ⟨⟨Nat.zero_le 4, List.nodup_nil, ?_⟩, ?_⟩
    · intro pair hpair
      exact absurd hpair (List.not_mem_nil)
    · intro request returned hlast
      exact absurd hlast (by simp)
  | ensure _ hrequest hensure hlast ih =>
    obtain ⟨after', pair', hensure', hlast', -, -, -, hbounded⟩ :=
      ensureBackdropScratch_spec hrequest ih.1
    have hafter := Option.some.inj (hensure.symm.trans hensure')
    rw [Prod.mk.injEq] at hafter
    rw [← hafter.1] at hlast' hbounded
    have hpair := Option.some.inj (hlast.symm.trans hlast')
    rw [← hpair] at hbounded
    refine ⟨hbounded.toCached, ?_⟩
    intro request returned heq
    simp only [Option.some.injEq, Prod.mk.injEq] at heq
    obtain ⟨rfl, rfl⟩ := heq
    exact hbounded
  | trim _ ih =>
    refine ⟨ih.1.sublist (trimIdleResources_sublist _), ?_⟩
    intro request returned hlast
    exact (ih.2 request returned hlast).sublist (trimIdleResources_sublist _)
  | beginFrame hasBlurs hasPaths width height _ ih =>
    refine ⟨ih.1.unused.sublist (beginFrame_sublist _ _ _ _ _), ?_⟩
    intro request returned hlast
    exact (ih.2 request returned hlast).unused.sublist (beginFrame_sublist _ _ _ _ _)

/-- In every run, a request returns the pair used last, which is large enough, no larger than the
drawable and of its format.  It leaves at most four pairs of different extents, none larger than the
drawable, and no more bytes than its budget or the pair returned; so they stay until the next
request.  With a pair of its extent and its format in the cache it makes no texture. -/
theorem backdrop_cache_bounded {last : Option (ScratchRequest F × BackdropTextures F)}
    (hstate : Reachable last state) :
    (∀ request returned, last = some (request, returned) →
      Bounded request returned state.backdropTextures) ∧
    ∀ request : ScratchRequest F, request.Valid → ∃ after pair,
      state.ensureBackdropScratch request = some (after, pair.scratch, pair.blurred) ∧
        after.backdropTextures.getLast? = some pair ∧
          Serves request pair.scratch ∧ Serves request pair.blurred ∧
            Bounded request pair after.backdropTextures ∧
              ((∃ cached ∈ state.backdropTextures,
                cached.extent = (request.width, request.height) ∧
                  cached.scratch.pixelFormat = request.format) →
                after.newTextures = state.newTextures) := by
  obtain ⟨hcached, hbounded⟩ := between_calls hstate
  refine ⟨hbounded, ?_⟩
  intro request hrequest
  obtain ⟨after, pair, hensure, hlast, hnew, hscratch, hblurred, hafter⟩ :=
    ensureBackdropScratch_spec hrequest hcached
  refine ⟨after, pair, hensure, hlast, hscratch, hblurred, hafter, ?_⟩
  rintro ⟨cached, hmem, hextent, hformat⟩
  rw [BackdropTextures.extent, Prod.mk.injEq] at hextent
  rw [hnew]
  exact placed_newTextures hcached hmem (isHit_iff.mpr ⟨hformat, hextent.1, hextent.2⟩)

/-- A window of 64 by 64, in some format. -/
def whole (format : ℕ) : ScratchRequest ℕ := ⟨64, 64, 64, 64, format⟩

/-- A renderer behind its first request. -/
def warm : MetalRenderer ℕ Unit :=
  { (MetalRenderer.new 4 : MetalRenderer ℕ Unit) with
    backdropTextures := [⟨true, newTexture 0 (whole 0), newTexture 1 (whole 0)⟩]
    newTextures := 2 }

theorem backdrop_cache_bounded_warm :
    (whole 0).Valid ∧ ∃ after pair,
      warm.ensureBackdropScratch (whole 0) = some (after, pair.scratch, pair.blurred) ∧
        Bounded (whole 0) pair after.backdropTextures ∧ after.newTextures = 2 := by
  have hvalid : (whole 0).Valid := ⟨by decide, by decide, by decide, by decide⟩
  have hwarm : Reachable
      (some (whole 0, ⟨true, newTexture 0 (whole 0), newTexture 1 (whole 0)⟩)) warm :=
    .ensure (.new 4) hvalid rfl rfl
  obtain ⟨after, pair, hensure, -, -, -, hafter, hnew⟩ :=
    (backdrop_cache_bounded hwarm).2 (whole 0) hvalid
  exact ⟨hvalid, after, pair, hensure, hafter, hnew ⟨_, List.mem_singleton_self _, rfl, rfl⟩⟩

/-- A pair of the extent of a request goes when it has another format, and textures are made. -/
theorem format_change_allocates :
    ∃ last, ∃ state : MetalRenderer ℕ Unit, ∃ request : ScratchRequest ℕ, ∃ after textures,
      Reachable last state ∧ request.Valid ∧
        (∃ cached ∈ state.backdropTextures, cached.extent = (request.width, request.height)) ∧
          state.ensureBackdropScratch request = some (after, textures) ∧
            after.newTextures = state.newTextures + 2 := by
  have hvalid : ∀ format, (whole format).Valid := fun format =>
    ⟨by show 1 ≤ 64; omega, by show 64 ≤ 64; omega, by show 1 ≤ 64; omega, by show 64 ≤ 64; omega⟩
  exact ⟨_, warm, whole 1, _, _, .ensure (.new 4) (hvalid 0) rfl rfl, hvalid 1,
    ⟨_, List.mem_singleton_self _, rfl⟩, rfl, rfl⟩

end MetalRenderer

end Backdrop

end Zui
