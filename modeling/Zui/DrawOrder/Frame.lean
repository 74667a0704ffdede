/-
The frame loop of the wgpu renderer.

The loop encodes the batches of a scene one after another, with the backdrop blurs between them, and
puts the data of their instances into one buffer.  When the buffer has no room left, what was
encoded is dropped, the buffer grows, and the loop begins anew.

Design notes:

* the sizes of the records are parameters, and so are the runs that `draw_quads` splits its quads
  in;
* a blur counts as drawn when the loop processes it, and a surface when its batch is reached;
* sizes have no upper end, and `capacity * 2` does not overflow.

Main statements:

* `encodeBatches_spec` — an attempt succeeds exactly when its data fit, and what it has drawn then;
* `frame_is_drawn_or_dropped` — the loop ends, with the whole frame or without any of it;
* `frame_loop_agrees` — which part of what `draw_scene` draws the frame shows.
-/
import Zui.DrawOrder.Partition
import Zui.Library.Bump

namespace Zui

open Gpui (Bounds Result u32Max)

namespace DrawOrder

variable {U D : Type}

/-- `BACKDROP_MAX_BLURS`. -/
def backdropMaxBlurs : ℕ := 32

/-- Blurs, which come with their slots, one after another. -/
def drawnBlurs (blurs : List (BackdropBlur U D × ℕ)) : List (Drawn U D) :=
  blurs.map fun blur => .backdropBlur blur.1

/-- What the draws of batches write: the sizes of the records, the vertices of a path, and the
lengths of the runs that `draw_quads` splits its quads in. -/
structure Uploads (U D : Type) where
  instanceSize : PrimitiveKind → ℕ
  vertexSize : ℕ
  pathSpriteSize : ℕ
  vertices : Primitive U D → ℕ
  quadRuns : List (Primitive U D) → List ℕ

/-- What does not change of a renderer. -/
structure Device (U D : Type) where
  maxBufferSize : ℕ
  storageBufferAlignment : ℕ
  pathIntermediateView : Bool
  uploads : Uploads U D
  maxBufferSize_pos : 0 < maxBufferSize
  storageBufferAlignment_pos : 0 < storageBufferAlignment

/-- `WgpuRenderer`. -/
structure WgpuRenderer (U D : Type) extends Device U D where
  instanceBufferCapacity : ℕ
  instanceBufferCapacity_pos : 0 < instanceBufferCapacity

/-- What was encoded, and the pieces of the instance buffer that it uses. -/
structure Encoder (U D : Type) where
  drawn : List (Drawn U D) := []
  pieces : List (Bump.Piece Unit) := []
  instanceOffset : ℕ := 0

namespace Device

/-- The lengths of the data that the draw of paths writes: the vertices, and the sprites that are
copied from the intermediate texture, one for each path if they have one order. -/
def pathLengths (self : Device U D) (paths : List (Primitive U D)) : List ℕ :=
  let vertices := (paths.map self.uploads.vertices).sum
  let sprites :=
    if paths.getLast?.map Primitive.order = paths.head?.map Primitive.order then paths.length else 1
  (if vertices = 0 then [] else [vertices * self.uploads.vertexSize]) ++
    if self.pathIntermediateView then [sprites * self.uploads.pathSpriteSize] else []

/-- The lengths of the data that the draw of a batch writes. -/
def dataLengths (self : Device U D) (kind : PrimitiveKind) (primitives : List (Primitive U D)) :
    List ℕ :=
  if primitives.isEmpty then []
  else
    match kind with
    | .quad => (self.uploads.quadRuns primitives).map (· * self.uploads.instanceSize .quad)
    | .path => self.pathLengths primitives
    | .surface => []
    | kind => [primitives.length * self.uploads.instanceSize kind]

/-- The offset behind data. -/
def nextOffset (self : Device U D) (instanceOffset length : ℕ) : ℕ :=
  instanceOffset + Bump.padding self.storageBufferAlignment instanceOffset + max length 16

/-- The offset behind data that are written one after another. -/
def offsetAfter (self : Device U D) (instanceOffset : ℕ) (lengths : List ℕ) : ℕ :=
  lengths.foldl self.nextOffset instanceOffset

/-- The lengths of all data of batches. -/
def batchLengths (self : Device U D) (scene : Scene U D) (batches : List PrimitiveBatch) : List ℕ :=
  batches.flatMap fun batch => self.dataLengths batch.kind (batch.primitives scene)

/-- The bytes that a scene needs in the instance buffer. -/
def need (self : Device U D) (scene : Scene U D) : ℕ :=
  self.offsetAfter 0 (self.batchLengths scene scene.batches)

end Device

namespace WgpuRenderer

/-- `write_to_instance_buffer`. -/
def writeToInstanceBuffer (self : WgpuRenderer U D) (encoder : Encoder U D) (length : ℕ) :
    Option (Encoder U D) :=
  let offset := encoder.instanceOffset +
    Bump.padding self.storageBufferAlignment encoder.instanceOffset
  let size := max length 16
  if self.instanceBufferCapacity < offset + size then none
  else
    some
      { encoder with
        pieces := encoder.pieces ++ [⟨(), offset, offset + size⟩]
        instanceOffset := offset + size }

/-- The draw of a batch, which needs room for all its data. -/
def drawBatch (self : WgpuRenderer U D) (scene : Scene U D) (batch : PrimitiveBatch)
    (encoder : Encoder U D) : Option (Encoder U D) := do
  let primitives := batch.primitives scene
  let encoder ← (self.dataLengths batch.kind primitives).foldlM self.writeToInstanceBuffer encoder
  some { encoder with drawn := encoder.drawn ++ primitives.map .primitive }

/-- The loop of `draw` over the batches, with the blurs that are left and their slots. -/
def encodeBatches (self : WgpuRenderer U D) (scene : Scene U D) :
    List PrimitiveBatch → List (BackdropBlur U D × ℕ) → Encoder U D → Result (Option (Encoder U D))
  | [], _, encoder => .ok (some encoder)
  | batch :: batches, pendingBlurs, encoder => do
    let order ← batch.firstOrder scene
    let due := pendingBlurs.takeWhile fun blur => blur.1.order ≤ order
    let blurred := drawnBlurs (due.filter fun blur => blur.2 < backdropMaxBlurs)
    match self.drawBatch scene batch { encoder with drawn := encoder.drawn ++ blurred } with
    -- `overflow`: what was encoded so far is dropped
    | none => .ok none
    | some encoder =>
      self.encodeBatches scene batches (pendingBlurs.dropWhile fun blur =>
        blur.1.order ≤ order) encoder

/-- One attempt of `draw` to encode the frame. -/
def encode (self : WgpuRenderer U D) (scene : Scene U D) : Result (Option (Encoder U D)) :=
  self.encodeBatches scene scene.batches scene.backdropBlurs.zipIdx {}

/-- `grow_instance_buffer`. -/
def growInstanceBuffer (self : WgpuRenderer U D) : WgpuRenderer U D where
  toDevice := self.toDevice
  instanceBufferCapacity := min (self.instanceBufferCapacity * 2) self.maxBufferSize
  instanceBufferCapacity_pos :=
    lt_min (Nat.mul_pos self.instanceBufferCapacity_pos Nat.two_pos) self.maxBufferSize_pos

/-- The loop of `draw`: the frame that is submitted, or none when the buffer cannot grow any
more. -/
def draw (self : WgpuRenderer U D) (scene : Scene U D) :
    Result (WgpuRenderer U D × Option (Encoder U D)) :=
  match self.encode scene with
  | .error e => .error e
  | .ok (some encoder) => .ok (self, some encoder)
  | .ok none =>
    if self.maxBufferSize ≤ self.instanceBufferCapacity then .ok (self, none)
    else self.growInstanceBuffer.draw scene
  termination_by self.maxBufferSize - self.instanceBufferCapacity
  decreasing_by
    have hpos := self.instanceBufferCapacity_pos
    simp only [growInstanceBuffer]
    omega

end WgpuRenderer

/-! ### The instance buffer -/

namespace Device

theorem nextOffset_le_offsetAfter (self : Device U D) (instanceOffset : ℕ) (lengths : List ℕ) :
    instanceOffset ≤ self.offsetAfter instanceOffset lengths := by
  induction lengths generalizing instanceOffset with
  | nil => exact le_rfl
  | cons length lengths ih =>
    refine le_trans ?_ (ih (self.nextOffset instanceOffset length))
    rw [nextOffset]
    omega

theorem offsetAfter_append (self : Device U D) (instanceOffset : ℕ) (lengths lengths' : List ℕ) :
    self.offsetAfter instanceOffset (lengths ++ lengths') =
      self.offsetAfter (self.offsetAfter instanceOffset lengths) lengths' :=
  List.foldl_append

end Device

namespace WgpuRenderer

variable {renderer : WgpuRenderer U D}

/-- The buffer, as one block of memory. -/
def pool (renderer : WgpuRenderer U D) : Bump.Pool Unit where
  low _ := 0
  high _ := renderer.instanceBufferCapacity
  disjoint i j h := absurd (Subsingleton.elim i j) h

/-- The pieces in use are aligned and in the buffer, and no two of them meet. -/
structure Fits (renderer : WgpuRenderer U D) (encoder : Encoder U D) : Prop where
  packed : Bump.Packed renderer.pool (fun _ => encoder.instanceOffset) encoder.pieces
  aligned : ∀ piece ∈ encoder.pieces, renderer.storageBufferAlignment ∣ piece.low

theorem fits_empty : renderer.Fits {} where
  packed := .nil (fun _ => le_rfl) fun _ => Nat.zero_le _
  aligned := by simp

theorem Fits.draws {encoder : Encoder U D} (h : renderer.Fits encoder) (drawn : List (Drawn U D)) :
    renderer.Fits { encoder with drawn } := ⟨h.packed, h.aligned⟩

theorem Fits.offset_le {encoder : Encoder U D} (h : renderer.Fits encoder) :
    encoder.instanceOffset ≤ renderer.instanceBufferCapacity := h.packed.le_high ()

/-- Data have room if the offset behind them is in the buffer. -/
theorem writeToInstanceBuffer_spec {encoder : Encoder U D} (h : renderer.Fits encoder)
    (length : ℕ) :
    if renderer.nextOffset encoder.instanceOffset length ≤ renderer.instanceBufferCapacity then
      ∃ encoder', renderer.writeToInstanceBuffer encoder length = some encoder' ∧
        renderer.Fits encoder' ∧
        encoder'.drawn = encoder.drawn ∧
        encoder'.instanceOffset = renderer.nextOffset encoder.instanceOffset length
    else renderer.writeToInstanceBuffer encoder length = none := by
  rw [writeToInstanceBuffer]
  split_ifs with hroom hfull hfull
  · exact absurd hroom (not_le.mpr hfull)
  · refine ⟨_, rfl, ⟨?_, ?_⟩, rfl, rfl⟩
    · have hplaced := @Bump.Packed.place _ _ _ _ _ h.packed ⟨(), encoder.instanceOffset +
        Bump.padding renderer.storageBufferAlignment encoder.instanceOffset, _⟩
        (Nat.le_add_right _ _) (Nat.le_add_right _ (max length 16)) hroom
      -- the buffer is the only block, so that its mark is the offset
      have hmark (mark high : ℕ) : Function.update (fun _ : Unit => mark) () high = fun _ => high :=
        funext fun _ => Function.update_self _ _ _
      rwa [hmark] at hplaced
    · intro piece hpiece
      rcases List.mem_append.mp hpiece with hpiece | hpiece
      · exact h.aligned piece hpiece
      · obtain rfl := List.mem_singleton.mp hpiece
        exact Bump.dvd_add_padding renderer.storageBufferAlignment_pos _
  · rfl
  · exact absurd (not_lt.mp hfull) hroom

theorem writeAll_spec {encoder : Encoder U D} (h : renderer.Fits encoder) (lengths : List ℕ) :
    if renderer.offsetAfter encoder.instanceOffset lengths ≤ renderer.instanceBufferCapacity then
      ∃ encoder', lengths.foldlM renderer.writeToInstanceBuffer encoder = some encoder' ∧
        renderer.Fits encoder' ∧ encoder'.drawn = encoder.drawn ∧
        encoder'.instanceOffset = renderer.offsetAfter encoder.instanceOffset lengths
    else lengths.foldlM renderer.writeToInstanceBuffer encoder = none := by
  induction lengths generalizing encoder with
  | nil =>
    rw [Device.offsetAfter, List.foldl_nil, if_pos h.offset_le]
    exact ⟨encoder, rfl, h, rfl, rfl⟩
  | cons length lengths ih =>
    have hfirst := writeToInstanceBuffer_spec h length
    have hle := renderer.nextOffset_le_offsetAfter
      (renderer.nextOffset encoder.instanceOffset length) lengths
    rw [List.foldlM_cons, Device.offsetAfter, List.foldl_cons, ← Device.offsetAfter]
    -- the offset never falls, so what has no room leaves none to the data behind it
    by_cases hroom : renderer.nextOffset encoder.instanceOffset length ≤
      renderer.instanceBufferCapacity
    · rw [if_pos hroom] at hfirst
      obtain ⟨encoder', hwrite, hfits, hdrawn, hoffset⟩ := hfirst
      have hrest := ih hfits
      rw [hoffset, hdrawn] at hrest
      rw [hwrite]
      exact hrest
    · rw [if_neg hroom] at hfirst
      rw [if_neg (fun hfull => hroom (hle.trans hfull)), hfirst]
      rfl

theorem drawBatch_spec {encoder : Encoder U D} (h : renderer.Fits encoder) (scene : Scene U D)
    (batch : PrimitiveBatch) :
    if renderer.offsetAfter encoder.instanceOffset
        (renderer.dataLengths batch.kind (batch.primitives scene)) ≤
          renderer.instanceBufferCapacity then
      ∃ encoder', renderer.drawBatch scene batch encoder = some encoder' ∧ renderer.Fits encoder' ∧
        encoder'.drawn = encoder.drawn ++ (batch.primitives scene).map .primitive ∧
        encoder'.instanceOffset = renderer.offsetAfter encoder.instanceOffset
          (renderer.dataLengths batch.kind (batch.primitives scene))
    else renderer.drawBatch scene batch encoder = none := by
  have hwrites := writeAll_spec h (renderer.dataLengths batch.kind (batch.primitives scene))
  rw [drawBatch]
  split_ifs at hwrites ⊢ with hroom
  · obtain ⟨encoder', hwrite, hfits, hdrawn, hoffset⟩ := hwrites
    -- a batch draws without any effect on the offset, once its data are written
    rw [hwrite]
    exact ⟨_, rfl, hfits.draws _, by rw [hdrawn], hoffset⟩
  · rw [hwrites]
    rfl

end WgpuRenderer

/-! ### What a frame shows -/

/-- What is drawn, without the blurs behind the first ones. -/
def firstBlurs : ℕ → List (Drawn U D) → List (Drawn U D)
  | _, [] => []
  | n, .primitive p :: drawn => .primitive p :: firstBlurs n drawn
  | 0, .backdropBlur _ :: drawn => firstBlurs 0 drawn
  | n + 1, .backdropBlur blur :: drawn => .backdropBlur blur :: firstBlurs n drawn

/-- How many blurs are drawn. -/
def blurCount (drawn : List (Drawn U D)) : ℕ := drawn.countP fun x => x.slot = none

theorem blurCount_append (drawn drawn' : List (Drawn U D)) :
    blurCount (drawn ++ drawn') = blurCount drawn + blurCount drawn' := List.countP_append

theorem blurCount_blurs (blurs : List (BackdropBlur U D)) :
    blurCount (blurs.map .backdropBlur) = blurs.length := by
  simp [blurCount, Drawn.slot, List.countP_map]

theorem blurCount_primitives (primitives : List (Primitive U D)) :
    blurCount (primitives.map .primitive) = 0 := by
  simp [blurCount, Drawn.slot, List.countP_map]

theorem firstBlurs_blurs_append (n : ℕ) (blurs : List (BackdropBlur U D))
    (drawn : List (Drawn U D)) :
    firstBlurs n (blurs.map .backdropBlur ++ drawn) =
      (blurs.take n).map .backdropBlur ++ firstBlurs (n - blurs.length) drawn := by
  induction blurs generalizing n with
  | nil => simp
  | cons blur blurs ih =>
    cases n with
    | zero => simpa [firstBlurs] using ih 0
    | succ n => simpa [firstBlurs] using ih n

theorem firstBlurs_primitives_append (n : ℕ) (primitives : List (Primitive U D))
    (drawn : List (Drawn U D)) :
    firstBlurs n (primitives.map .primitive ++ drawn) =
      primitives.map .primitive ++ firstBlurs n drawn := by
  induction primitives with
  | nil => rfl
  | cons p primitives ih => simpa [firstBlurs] using ih

theorem firstBlurs_sublist (n : ℕ) (drawn : List (Drawn U D)) :
    (firstBlurs n drawn).Sublist drawn := by
  induction drawn generalizing n with
  | nil => exact .slnil
  | cons x drawn ih =>
    cases x with
    | primitive p => exact (ih n).cons_cons _
    | backdropBlur blur =>
      cases n with
      | zero => exact (ih 0).cons _
      | succ n => exact (ih n).cons_cons _

theorem firstBlurs_eq_self_iff {n : ℕ} {drawn : List (Drawn U D)} :
    firstBlurs n drawn = drawn ↔ blurCount drawn ≤ n := by
  induction drawn generalizing n with
  | nil => simp [firstBlurs, blurCount]
  | cons x drawn ih =>
    cases x with
    | primitive p => simpa [firstBlurs, blurCount, Drawn.slot] using @ih n
    | backdropBlur blur =>
      cases n with
      -- this blur is left out, so the list gets shorter
      | zero =>
        have hle := (firstBlurs_sublist 0 drawn).length_le
        have hne : firstBlurs 0 drawn ≠ .backdropBlur blur :: drawn := by
          intro heq
          have hlength := congrArg List.length heq
          rw [List.length_cons] at hlength
          omega
        simp [firstBlurs, blurCount, Drawn.slot, hne]
      | succ n => simpa [firstBlurs, blurCount, Drawn.slot] using @ih n

theorem filter_zipIdx {α : Type} (xs : List α) (n m : ℕ) :
    ((xs.zipIdx n).filter fun x => x.2 < m).map Prod.fst = xs.take (m - n) := by
  induction xs generalizing n with
  | nil => simp
  | cons x xs ih =>
    rw [List.zipIdx_cons, List.filter_cons]
    by_cases h : n < m
    · have hsucc : m - n = m - (n + 1) + 1 := by omega
      simp [h, ih, hsucc]
    · have hzero : m - n = 0 := by omega
      have hzero' : m - (n + 1) = 0 := by omega
      simp [h, ih, hzero, hzero']

theorem slots_append {α : Type} {xs ys : List (α × ℕ)} {slot : ℕ}
    (h : xs ++ ys = ((xs ++ ys).map Prod.fst).zipIdx slot) :
    xs = (xs.map Prod.fst).zipIdx slot ∧ ys = (ys.map Prod.fst).zipIdx (slot + xs.length) := by
  rw [List.map_append, List.zipIdx_append, List.length_map] at h
  exact List.append_inj h (by rw [List.length_zipIdx, List.length_map])

/-- What an attempt draws of the blurs that are left and of batches, when `whole` is what
`draw_scene` draws of them, and the blurs that it leaves: `before` is what comes before these in
`whole`. -/
structure Shows (scene : Scene U D) (batches : List PrimitiveBatch)
    (blurs : List (BackdropBlur U D × ℕ)) (whole before shown : List (Drawn U D))
    (due late : List (BackdropBlur U D × ℕ)) : Prop where
  split : blurs = due ++ late
  whole_eq : whole = before ++ drawnBlurs late
  count : blurCount before = due.length
  shown_eq : ∀ slot, blurs = (blurs.map Prod.fst).zipIdx slot →
    shown = firstBlurs (backdropMaxBlurs - slot) before
  primitives : shown.filterMap Drawn.primitive? = whole.filterMap Drawn.primitive?
  due_le : ∀ blur ∈ due, ∃ batch ∈ batches, ∃ order, batch.firstOrder scene = .ok order ∧
    blur.1.order ≤ order
  lt_late : ∀ blur ∈ late, ∀ batch ∈ batches, ∀ order, batch.firstOrder scene = .ok order →
    order < blur.1.order

theorem drawnBlurs_primitives (blurs : List (BackdropBlur U D × ℕ)) :
    (drawnBlurs blurs).filterMap Drawn.primitive? = [] := by
  rw [drawnBlurs, List.filterMap_map, List.filterMap_eq_nil_iff]
  exact fun _ _ => rfl

theorem map_backdropBlur (blurs : List (BackdropBlur U D × ℕ)) :
    (blurs.map Prod.fst).map .backdropBlur = drawnBlurs blurs :=
  List.map_map

theorem shows_nil (scene : Scene U D) (blurs : List (BackdropBlur U D × ℕ)) :
    Shows scene [] blurs ((blurs.map Prod.fst).map .backdropBlur) [] [] [] blurs where
  split := rfl
  whole_eq := map_backdropBlur blurs
  count := rfl
  shown_eq _ _ := rfl
  primitives := by rw [map_backdropBlur, drawnBlurs_primitives, List.filterMap_nil]
  due_le := by simp
  lt_late := by simp

/-- A batch more, with the blurs that are due before it. -/
theorem Shows.cons {scene : Scene U D} {batch : PrimitiveBatch} {batches : List PrimitiveBatch}
    {blurs due late : List (BackdropBlur U D × ℕ)} {rest before shown : List (Drawn U D)}
    {order : ℕ}
    (h : Shows scene batches (blurs.dropWhile fun blur => blur.1.order ≤ order) rest before shown
      due late)
    (hsorted : blurs.Pairwise fun b c => b.1.order ≤ c.1.order)
    (horder : batch.firstOrder scene = .ok order) :
    Shows scene (batch :: batches) blurs
      (((blurs.map Prod.fst).takeWhile fun blur => blur.order ≤ order).map .backdropBlur ++
        (batch.primitives scene).map .primitive ++ rest)
      (drawnBlurs (blurs.takeWhile fun blur => blur.1.order ≤ order) ++
        (batch.primitives scene).map .primitive ++ before)
      (drawnBlurs ((blurs.takeWhile fun blur => blur.1.order ≤ order).filter fun blur =>
          blur.2 < backdropMaxBlurs) ++
        (batch.primitives scene).map .primitive ++ shown)
      ((blurs.takeWhile fun blur => blur.1.order ≤ order) ++ due) late := by
  -- `draw_scene` takes its blurs without their slots
  have htaken : ((blurs.map Prod.fst).takeWhile fun blur => decide (blur.order ≤ order)).map
      (Drawn.backdropBlur : BackdropBlur U D → Drawn U D) =
      drawnBlurs (blurs.takeWhile fun blur => blur.1.order ≤ order) := by
    rw [List.takeWhile_map, ← map_backdropBlur]
    rfl
  -- the blurs are sorted, so all that are left are behind the first order of the batch
  have hleft : ∀ blur ∈ blurs.dropWhile fun blur => decide (blur.1.order ≤ order),
      order < blur.1.order := by
    intro blur hblur
    rcases hdrop : blurs.dropWhile fun blur =>
      decide (blur.1.order ≤ order) with - | ⟨first, others⟩
    · rw [hdrop] at hblur
      cases hblur
    · have hfirst : order < first.1.order := by
        have := List.head?_dropWhile_not (fun blur : BackdropBlur U D × ℕ =>
          decide (blur.1.order ≤ order)) blurs
        rw [hdrop] at this
        simpa using this
      rw [hdrop] at hblur
      have htail := hsorted.sublist (List.dropWhile_sublist fun blur =>
        decide (blur.1.order ≤ order))
      rw [hdrop] at htail
      rcases List.mem_cons.mp hblur with rfl | hblur
      · exact hfirst
      · exact hfirst.trans_le ((List.pairwise_cons.mp htail).1 blur hblur)
  refine ⟨?_, ?_, ?_, fun slot hslot => ?_, ?_, fun blur hblur => ?_,
    fun blur hblur other hother => ?_⟩
  · rw [List.append_assoc, ← h.split, List.takeWhile_append_dropWhile]
  · -- the blurs that are late come last, so the batch goes to what is before them
    rw [htaken, h.whole_eq, List.append_assoc, List.append_assoc, List.append_assoc]
  · rw [blurCount_append, blurCount_append, blurCount_primitives, h.count, ← map_backdropBlur,
      blurCount_blurs, List.length_map, List.length_append, Nat.add_zero]
  · -- the blurs that are taken have the next slots, and those that are left come after them
    rw [← blurs.takeWhile_append_dropWhile (p := fun blur => decide (blur.1.order ≤ order))]
      at hslot
    obtain ⟨hdue, hleft⟩ := slots_append hslot
    have hskip : drawnBlurs ((blurs.takeWhile fun blur => decide (blur.1.order ≤ order)).filter
        fun blur => decide (blur.2 < backdropMaxBlurs)) =
        (((blurs.takeWhile fun blur => decide (blur.1.order ≤ order)).map Prod.fst).take
          (backdropMaxBlurs - slot)).map .backdropBlur := by
      rw [← map_backdropBlur]
      nth_rewrite 1 [hdue]
      rw [filter_zipIdx]
    rw [hskip, h.shown_eq _ hleft, List.append_assoc, List.append_assoc, ← map_backdropBlur,
      firstBlurs_blurs_append, firstBlurs_primitives_append, List.length_map, Nat.sub_sub]
  · rw [htaken]
    simp only [List.filterMap_append, drawnBlurs_primitives, h.primitives]
  · rcases List.mem_append.mp hblur with hblur | hblur
    · -- a blur is due for this batch, or for a later one
      exact ⟨batch, List.mem_cons_self, order, horder, by simpa using List.mem_takeWhile_imp hblur⟩
    · obtain ⟨other, hother, hle⟩ := h.due_le blur hblur
      exact ⟨other, List.mem_cons_of_mem _ hother, hle⟩
  · rcases List.mem_cons.mp hother with rfl | hother
    · intro first hfirst
      obtain rfl := Except.ok.inj (horder.symm.trans hfirst)
      exact hleft blur (h.split ▸ List.mem_append_right due hblur)
    · exact h.lt_late blur hblur other hother

namespace WgpuRenderer

variable {renderer : WgpuRenderer U D}

/-- An attempt succeeds exactly when its data fit, and what it has drawn then. -/
theorem encodeBatches_spec {scene : Scene U D} {batches : List PrimitiveBatch}
    {blurs : List (BackdropBlur U D × ℕ)} {encoder : Encoder U D} {whole : List (Drawn U D)}
    (hdraw : drawBatches scene batches (blurs.map Prod.fst) = .ok whole)
    (hsorted : blurs.Pairwise fun b c => b.1.order ≤ c.1.order) (h : renderer.Fits encoder) :
    if renderer.offsetAfter encoder.instanceOffset (renderer.batchLengths scene batches) ≤
        renderer.instanceBufferCapacity then
      ∃ encoder' before shown due late, renderer.encodeBatches scene batches blurs encoder =
          .ok (some encoder') ∧ renderer.Fits encoder' ∧
        encoder'.instanceOffset =
          renderer.offsetAfter encoder.instanceOffset (renderer.batchLengths scene batches) ∧
        encoder'.drawn = encoder.drawn ++ shown ∧
        Shows scene batches blurs whole before shown due late
    else renderer.encodeBatches scene batches blurs encoder = .ok none := by
  induction batches generalizing blurs encoder whole with
  | nil =>
    rw [Device.batchLengths, List.flatMap_nil, Device.offsetAfter, List.foldl_nil,
      if_pos h.offset_le]
    obtain rfl := Except.ok.inj hdraw
    exact ⟨encoder, [], [], [], blurs, rfl, h, rfl, (List.append_nil _).symm,
      shows_nil scene blurs⟩
  -- a batch more, behind the blurs whose order is not above its first one
  | cons batch batches ih =>
    obtain ⟨order, rest, horder, hrest, rfl⟩ := drawBatches_cons_eq_ok hdraw
    rw [List.dropWhile_map] at hrest
    have hsorted' := hsorted.sublist
      (List.dropWhile_sublist fun blur => decide (blur.1.order ≤ order))
    -- drawing the blurs leaves the offset, so the data of the batch are next
    have hbatch := drawBatch_spec (h.draws (encoder.drawn ++ drawnBlurs
      ((blurs.takeWhile fun blur => blur.1.order ≤ order).filter fun blur =>
        blur.2 < backdropMaxBlurs))) scene batch
    have hlengths : renderer.offsetAfter encoder.instanceOffset
        (renderer.batchLengths scene (batch :: batches)) =
        renderer.offsetAfter (renderer.offsetAfter encoder.instanceOffset
          (renderer.dataLengths batch.kind (batch.primitives scene)))
          (renderer.batchLengths scene batches) := by
      rw [Device.batchLengths, List.flatMap_cons, Device.offsetAfter_append, Device.batchLengths]
    rw [hlengths, encodeBatches, horder, ok_bind]
    dsimp only
    dsimp only at hbatch
    by_cases hroom : renderer.offsetAfter encoder.instanceOffset
        (renderer.dataLengths batch.kind (batch.primitives scene)) ≤
        renderer.instanceBufferCapacity
    · rw [if_pos hroom] at hbatch
      obtain ⟨encoder', hwrite, hfits, hdrawn, hoffset⟩ := hbatch
      have hnext := ih hrest hsorted' hfits
      rw [hoffset] at hnext
      rw [hwrite]
      dsimp only
      split_ifs at hnext ⊢
      · obtain ⟨last, before, shown, due, late, hencode, hlast, hlastOffset, hshown,
          hshows⟩ := hnext
        exact ⟨last, _, _, _, late, hencode, hlast, hlastOffset,
          by rw [hshown, hdrawn, List.append_assoc, List.append_assoc, List.append_assoc],
          hshows.cons hsorted horder⟩
      · exact hnext
    · -- the batch has no room, so neither have all of them
      rw [if_neg hroom] at hbatch
      rw [if_neg fun hfull => hroom
        ((renderer.nextOffset_le_offsetAfter _ _).trans hfull), hbatch]

/-- One attempt. -/
theorem encode_spec {scene : Scene U D} {whole : List (Drawn U D)}
    (hdraw : drawScene scene = .ok whole)
    (hsorted : scene.backdropBlurs.Pairwise fun b c => b.order ≤ c.order) :
    if renderer.need scene ≤ renderer.instanceBufferCapacity then
      ∃ encoder before due late, renderer.encode scene = .ok (some encoder) ∧
        renderer.Fits encoder ∧
        Shows scene scene.batches scene.backdropBlurs.zipIdx whole before encoder.drawn due late
    else renderer.encode scene = .ok none := by
  -- the slots of the blurs are their places in the scene
  have hfst : scene.backdropBlurs.zipIdx.map Prod.fst = scene.backdropBlurs :=
    List.zipIdx_map_fst 0 _
  have hsorted' : scene.backdropBlurs.zipIdx.Pairwise fun b c => b.1.order ≤ c.1.order := by
    rw [← hfst, List.pairwise_map] at hsorted
    exact hsorted
  rw [drawScene, ← hfst] at hdraw
  have hencode := encodeBatches_spec hdraw hsorted' (fits_empty : renderer.Fits _)
  rw [Device.need, encode]
  split_ifs at hencode ⊢
  · obtain ⟨encoder, before, shown, due, late, hencode, hfits, -, hshown, hshows⟩ := hencode
    rw [List.nil_append] at hshown
    exact ⟨encoder, before, due, late, hencode, hfits, hshown ▸ hshows⟩
  · exact hencode

/-- The loop ends.  The buffer has grown at most to twice of what the scene needs. -/
theorem draw_spec {scene : Scene U D} {whole : List (Drawn U D)}
    (hdraw : drawScene scene = .ok whole)
    (hsorted : scene.backdropBlurs.Pairwise fun b c => b.order ≤ c.order) :
    ∃ renderer' : WgpuRenderer U D, renderer'.toDevice = renderer.toDevice ∧
      renderer.instanceBufferCapacity ≤ renderer'.instanceBufferCapacity ∧
      (renderer' = renderer ∨ renderer'.instanceBufferCapacity ≤ renderer.maxBufferSize ∧
        renderer'.instanceBufferCapacity < 2 * renderer.need scene) ∧
      if renderer.need scene ≤ max renderer.instanceBufferCapacity renderer.maxBufferSize then
        ∃ encoder before due late, renderer.draw scene = .ok (renderer', some encoder) ∧
          renderer'.encode scene = .ok (some encoder) ∧ renderer'.Fits encoder ∧
          Shows scene scene.batches scene.backdropBlurs.zipIdx whole before encoder.drawn due late
      else renderer.draw scene = .ok (renderer', none) := by
  -- each attempt that fails brings the buffer nearer to its greatest size
  induction hsize : renderer.maxBufferSize - renderer.instanceBufferCapacity using
    Nat.strong_induction_on generalizing renderer with
  | _ size ih =>
    have hpos := renderer.instanceBufferCapacity_pos
    have hencode := @encode_spec _ _ renderer _ _ hdraw hsorted
    rw [draw]
    split_ifs at hencode with hroom
    · obtain ⟨encoder, before, due, late, hencode, hfits, hshows⟩ := hencode
      refine ⟨renderer, rfl, le_rfl, .inl rfl, ?_⟩
      rw [if_pos (le_max_of_le_left hroom)]
      exact ⟨encoder, before, due, late, by rw [hencode], hencode, hfits, hshows⟩
    · rw [hencode]
      dsimp only
      by_cases hmax : renderer.maxBufferSize ≤ renderer.instanceBufferCapacity
      · -- the buffer is the greatest one: the frame is dropped
        refine ⟨renderer, rfl, le_rfl, .inl rfl, ?_⟩
        rw [if_neg (by omega), if_pos hmax]
      · -- the next attempt has a greater buffer, which is nearer to the greatest one
        have hcapacity : renderer.growInstanceBuffer.instanceBufferCapacity =
            min (renderer.instanceBufferCapacity * 2) renderer.maxBufferSize := rfl
        have hdevice : renderer.growInstanceBuffer.toDevice = renderer.toDevice := rfl
        obtain ⟨renderer', hsame, hle, hbound, hdrawn⟩ :=
          @ih _ (by rw [hcapacity, hdevice]; omega) renderer.growInstanceBuffer rfl
        rw [hdevice] at hsame hbound hdrawn
        rw [if_neg hmax]
        -- a buffer that had no room had less than the scene needs, so twice of it is enough
        refine ⟨renderer', hsame, by omega, .inr ?_, ?_⟩
        · rcases hbound with rfl | hbound
          · omega
          · exact hbound
        · split_ifs at hdrawn ⊢
          · exact hdrawn
          · omega
          · omega
          · exact hdrawn

end WgpuRenderer

/-! ### Whole scenes -/

/-- The blurs above all primitives. -/
def Scene.lateBlurs (scene : Scene U D) : List (BackdropBlur U D) :=
  scene.backdropBlurs.filter fun blur =>
    PrimitiveKind.all.all fun kind => (scene.primitives kind).all fun p => p.order < blur.order

theorem mem_lateBlurs {scene : Scene U D} {blur : BackdropBlur U D} : blur ∈ scene.lateBlurs ↔
    blur ∈ scene.backdropBlurs ∧ ∀ kind, ∀ p ∈ scene.primitives kind, p.order < blur.order := by
  simp only [Scene.lateBlurs, List.mem_filter, List.all_eq_true, decide_eq_true_eq]
  exact and_congr_right fun _ => ⟨fun h kind => h kind kind.mem_all, fun h kind _ => h kind⟩

theorem firstOrder_mem {scene : Scene U D} {batch : PrimitiveBatch} {order : ℕ}
    (h : batch.firstOrder scene = .ok order) (hlt : batch.start < batch.stop) :
    ∃ p ∈ batch.primitives scene, p.order = order := by
  rw [PrimitiveBatch.firstOrder, Gpui.index] at h
  -- without a primitive at its start, the batch panics
  cases hget : (scene.primitives batch.kind)[batch.start]? with
  | none =>
    rw [hget] at h
    cases h
  | some p =>
    rw [hget, ok_bind] at h
    refine ⟨p, List.mem_of_getElem? (i := 0) ?_, Except.ok.inj h⟩
    rw [PrimitiveBatch.primitives, List.getElem?_drop, Nat.add_zero,
      List.getElem?_take_of_lt hlt, hget]

theorem Contiguous.start_lt {i stop : ℕ} {batches : List PrimitiveBatch}
    (h : Contiguous i batches stop) : ∀ batch ∈ batches, batch.start < batch.stop := by
  induction h with
  | nil => simp
  | cons hlt _ ih => exact List.forall_mem_cons.mpr ⟨hlt, ih⟩

theorem exists_firstOrder {scene : Scene U D} {batches : List PrimitiveBatch}
    {blurs : List (BackdropBlur U D)} {whole : List (Drawn U D)}
    (h : drawBatches scene batches blurs = .ok whole) :
    ∀ batch ∈ batches, ∃ order, batch.firstOrder scene = .ok order := by
  induction batches generalizing blurs whole with
  | nil => simp
  | cons batch batches ih =>
    obtain ⟨order, rest, horder, hrest, -⟩ := drawBatches_cons_eq_ok h
    exact List.forall_mem_cons.mpr ⟨⟨order, horder⟩, ih hrest⟩

/-- The blurs that the batches of a finished scene leave are those above all primitives. -/
theorem Shows.late_eq {scene : Scene U D} (hwell : scene.WellFormed)
    (horder : ∀ kind, ∀ p ∈ scene.primitives kind, p.order < u32Max)
    {whole before shown : List (Drawn U D)} {due late : List (BackdropBlur U D × ℕ)}
    (hdraw : drawScene scene.finish = .ok whole)
    (h : Shows scene.finish scene.finish.batches scene.finish.backdropBlurs.zipIdx whole before
      shown due late) : late.map Prod.fst = scene.finish.lateBlurs := by
  obtain ⟨last, hbatched, hleft⟩ := hwell.batched horder
  have hlt : ∀ batch ∈ scene.finish.batches, batch.start < batch.stop := fun batch hbatch =>
    (hbatched.contiguous batch.kind).start_lt batch
      (List.mem_filter.mpr ⟨hbatch, decide_eq_true rfl⟩)
  -- the batches leave nothing of the vectors behind
  have hmem : ∀ kind, ∀ p ∈ scene.finish.primitives kind, ∃ batch ∈ scene.finish.batches,
      p ∈ batch.primitives scene.finish := by
    intro kind p hp
    have htaken := hbatched.taken kind
    rw [hleft, List.append_nil] at htaken
    have hp' : p ∈ scene.finish.batchIterator.iters kind := hp
    rw [htaken] at hp'
    obtain ⟨batch, hbatch, hp'⟩ := List.mem_flatMap.mp hp'
    exact ⟨batch, (List.mem_filter.mp hbatch).1, hp'⟩
  have hblurs : scene.finish.backdropBlurs = due.map Prod.fst ++ late.map Prod.fst := by
    rw [← List.map_append, ← h.split]
    exact (List.zipIdx_map_fst 0 _).symm
  -- a blur that is left is behind the first primitive of every batch
  have hlate : ∀ blur ∈ late.map Prod.fst, blur ∈ scene.finish.lateBlurs := by
    intro blur hblur
    have hblur' := hblurs ▸ List.mem_append_right (due.map Prod.fst) hblur
    refine mem_lateBlurs.mpr ⟨hblur', fun kind p hp => ?_⟩
    obtain ⟨batch, hbatch, hp⟩ := hmem kind p hp
    obtain ⟨order, hfirst⟩ := exists_firstOrder hdraw batch hbatch
    obtain ⟨pair, hpair, rfl⟩ := List.mem_map.mp hblur
    have hbehind := h.lt_late pair hpair batch hbatch order hfirst
    obtain ⟨q, hq, rfl⟩ := firstOrder_mem hfirst (hlt batch hbatch)
    -- the blur is not before the batch, so it is behind all of it
    rcases hbatched.blurs pair.1 (.inl hblur') batch hbatch with hbelow | habove
    · exact hbelow p hp
    · exact absurd (habove q hq) (not_le.mpr hbehind)
  -- a blur that is drawn is not above the batch that it is drawn before
  have hdue : ∀ blur ∈ due.map Prod.fst, blur ∉ scene.finish.lateBlurs := by
    intro blur hblur hlate
    obtain ⟨pair, hpair, rfl⟩ := List.mem_map.mp hblur
    obtain ⟨batch, hbatch, order, hfirst, hle⟩ := h.due_le pair hpair
    obtain ⟨q, hq, rfl⟩ := firstOrder_mem hfirst (hlt batch hbatch)
    have hq' : q ∈ scene.finish.primitives batch.kind :=
      (List.take_sublist _ _).subset ((List.drop_sublist _ _).subset hq)
    exact absurd ((mem_lateBlurs.mp hlate).2 batch.kind q hq') (not_lt.mpr hle)
  -- so the test for late blurs splits them where the batches do
  have hbelow : (due.map Prod.fst).filter (fun blur => PrimitiveKind.all.all fun kind =>
      (scene.finish.primitives kind).all fun p => p.order < blur.order) = [] :=
    List.filter_eq_nil_iff.mpr fun blur hblur hall => hdue blur hblur
      (List.mem_filter.mpr ⟨hblurs ▸ List.mem_append_left _ hblur, hall⟩)
  have habove : (late.map Prod.fst).filter (fun blur => PrimitiveKind.all.all fun kind =>
      (scene.finish.primitives kind).all fun p => p.order < blur.order) = late.map Prod.fst :=
    List.filter_eq_self.mpr fun blur hblur => (List.mem_filter.mp (hlate blur hblur)).2
  rw [Scene.lateBlurs, hblurs, List.filter_append, hbelow, habove, List.nil_append]

section

variable [AddCommGroup U] [LinearOrder U]

/-- The frame loop ends for every scene.  The instance buffer grows at most to twice of what the
scene needs.  If this fits in the greatest buffer, the frame has all batches in their order, its
data are aligned pieces of the buffer that do not meet, and the next frame with the scene needs no
second attempt. Otherwise the frame has nothing. -/
theorem frame_is_drawn_or_dropped (renderer : WgpuRenderer U D)
    {operations : List (PaintOperation U D)} {scene : Scene U D}
    (hbuild : ({} : Scene U D).applyAll operations = .ok scene) :
    ∃ renderer' : WgpuRenderer U D, renderer'.toDevice = renderer.toDevice ∧
      renderer.instanceBufferCapacity ≤ renderer'.instanceBufferCapacity ∧
      (renderer' = renderer ∨ renderer'.instanceBufferCapacity ≤ renderer.maxBufferSize ∧
        renderer'.instanceBufferCapacity < 2 * renderer.need scene.finish) ∧
      if renderer.need scene.finish ≤
          max renderer.instanceBufferCapacity renderer.maxBufferSize then
        ∃ encoder, renderer.draw scene.finish = .ok (renderer', some encoder) ∧
          renderer'.draw scene.finish = .ok (renderer', some encoder) ∧
          encoder.drawn.filterMap Drawn.primitive? =
            scene.finish.batches.flatMap (·.primitives scene.finish) ∧
          (∀ piece ∈ encoder.pieces, renderer.storageBufferAlignment ∣ piece.low ∧
            piece.high ≤ renderer'.instanceBufferCapacity) ∧
          encoder.pieces.Pairwise fun p q => Disjoint p.range q.range
      else renderer.draw scene.finish = .ok (renderer', none) := by
  obtain ⟨earlier, hbuilt⟩ := built_empty.applyAll hbuild
  obtain ⟨whole, hdraw, -⟩ := hbuilt.wellFormed.drawScene_spec
  obtain ⟨renderer', hdevice, hle, hbound, hdrawn⟩ :=
    @WgpuRenderer.draw_spec _ _ renderer _ _ hdraw scene.finish_backdropBlurs_pairwise
  refine ⟨renderer', hdevice, hle, hbound, ?_⟩
  split_ifs at hdrawn ⊢ with hroom
  · obtain ⟨encoder, before, due, late, hrun, hencode, hfits, hshows⟩ := hdrawn
    refine ⟨encoder, hrun, ?_, ?_, fun piece hpiece => ⟨hdevice ▸ hfits.aligned piece hpiece, ?_⟩,
      hfits.packed.disjoint⟩
    · rw [WgpuRenderer.draw, hencode]
    · rw [hshows.primitives, drawBatches_primitives hdraw]
    · exact (hfits.packed.within piece hpiece).2.2.trans hfits.offset_le
  · exact hdrawn

/-- A renderer with its first buffer, on an adapter that draws a batch of quads at once. -/
def firstRenderer : WgpuRenderer ℚ Unit where
  maxBufferSize := 2 ^ 28
  storageBufferAlignment := 256
  pathIntermediateView := true
  uploads :=
    { instanceSize := fun _ => 256
      vertexSize := 64
      pathSpriteSize := 16
      vertices := fun _ => 3
      quadRuns := fun quads => [quads.length] }
  maxBufferSize_pos := by decide
  storageBufferAlignment_pos := by decide
  instanceBufferCapacity := 2 * 1024 * 1024
  instanceBufferCapacity_pos := by decide

/-- A quad, and a blur on top of it. -/
def glassOnTop : List (PaintOperation ℚ Unit) :=
  let bounds : Bounds ℚ := ⟨⟨0, 0⟩, ⟨10, 10⟩⟩
  [.primitive ⟨.quad, 0, 0, bounds, bounds, ⟨0, 0, 0, ⟨⟨0, 0⟩, ⟨0, 0⟩⟩⟩, ()⟩,
    .backdropBlur ⟨0, bounds, bounds, ()⟩]

theorem frame_is_drawn_or_dropped_blurred : ∃ scene,
    ({} : Scene ℚ Unit).applyAll blurredQuads = .ok scene ∧
    ∃ renderer' encoder, firstRenderer.draw scene.finish = .ok (renderer', some encoder) ∧
      encoder.pieces.Pairwise fun p q => Disjoint p.range q.range := by
  have hrun : ((({} : Scene ℚ Unit).applyAll blurredQuads).toOption.any fun scene =>
      firstRenderer.need scene.finish ≤ 2 * 1024 * 1024) = true := by decide +kernel
  cases hbuild : ({} : Scene ℚ Unit).applyAll blurredQuads with
  | error e =>
    rw [hbuild] at hrun
    cases hrun
  | ok scene =>
    rw [hbuild, Except.toOption, Option.any_some] at hrun
    obtain ⟨renderer', -, -, -, hdrawn⟩ := frame_is_drawn_or_dropped firstRenderer hbuild
    have hroom : firstRenderer.need scene.finish ≤ firstRenderer.instanceBufferCapacity :=
      of_decide_eq_true hrun
    rw [if_pos (le_max_of_le_left hroom)] at hdrawn
    obtain ⟨encoder, hdraw, -, -, -, hpieces⟩ := hdrawn
    exact ⟨scene, rfl, renderer', encoder, hdraw, hpieces⟩

/-- When the orders of a scene are below `u32::MAX` and its data fit in the greatest buffer, the
frame shows what `draw_scene` draws, without the blurs above all primitives, which come last in it,
and without those behind the first `BACKDROP_MAX_BLURS` of the others.  So the frame is all that
`draw_scene` draws exactly when there are no more blurs than these, and every blur has a primitive
at its order or above. -/
theorem frame_loop_agrees (renderer : WgpuRenderer U D) {operations : List (PaintOperation U D)}
    {scene : Scene U D} (hbuild : ({} : Scene U D).applyAll operations = .ok scene)
    (horder : ∀ kind, ∀ p ∈ scene.primitives kind, p.order < u32Max)
    (hroom : renderer.need scene.finish ≤
      max renderer.instanceBufferCapacity renderer.maxBufferSize) :
    ∃ renderer' encoder whole before,
      renderer.draw scene.finish = .ok (renderer', some encoder) ∧
      drawScene scene.finish = .ok whole ∧
      whole = before ++ scene.finish.lateBlurs.map .backdropBlur ∧
      encoder.drawn = firstBlurs backdropMaxBlurs before ∧
      (encoder.drawn = whole ↔ scene.backdropBlurs.length ≤ backdropMaxBlurs ∧
        ∀ blur ∈ scene.backdropBlurs, ∃ kind, ∃ p ∈ scene.primitives kind,
          blur.order ≤ p.order) := by
  obtain ⟨earlier, hbuilt⟩ := built_empty.applyAll hbuild
  have hwell := hbuilt.wellFormed
  obtain ⟨whole, hdraw, -⟩ := hwell.drawScene_spec
  obtain ⟨renderer', -, -, -, hdrawn⟩ :=
    @WgpuRenderer.draw_spec _ _ renderer _ _ hdraw scene.finish_backdropBlurs_pairwise
  rw [if_pos hroom] at hdrawn
  obtain ⟨encoder, before, due, late, hrun, -, -, hshows⟩ := hdrawn
  have hlate := hshows.late_eq hwell horder hdraw
  have hfirst : encoder.drawn = firstBlurs backdropMaxBlurs before :=
    hshows.shown_eq 0 (by rw [List.zipIdx_map_fst])
  have hwhole : whole = before ++ scene.finish.lateBlurs.map .backdropBlur := by
    rw [hshows.whole_eq, ← hlate, map_backdropBlur]
  have hlength : due.length + late.length = scene.backdropBlurs.length := by
    have hsplit := congrArg List.length hshows.split
    rw [List.length_zipIdx, scene.finish_backdropBlurs_perm.length_eq] at hsplit
    rw [hsplit, List.length_append]
  refine ⟨renderer', encoder, whole, before, hrun, hdraw, hwhole, hfirst, ?_⟩
  have hnil : scene.finish.lateBlurs = [] ↔ ∀ blur ∈ scene.backdropBlurs, ∃ kind,
      ∃ p ∈ scene.primitives kind, blur.order ≤ p.order := by
    rw [List.eq_nil_iff_forall_not_mem]
    constructor
    · intro hnone blur hblur
      have hblur' := scene.finish_backdropBlurs_perm.mem_iff.mpr hblur
      by_contra hall
      push Not at hall
      exact hnone blur (mem_lateBlurs.mpr ⟨hblur', fun kind p hp =>
        hall kind p ((scene.finish_primitives_perm kind).mem_iff.mp hp)⟩)
    · intro hall blur hlate
      obtain ⟨hblur, habove⟩ := mem_lateBlurs.mp hlate
      obtain ⟨kind, p, hp, hle⟩ := hall blur (scene.finish_backdropBlurs_perm.mem_iff.mp hblur)
      exact absurd (habove kind p ((scene.finish_primitives_perm kind).mem_iff.mpr hp))
        (not_lt.mpr hle)
  rw [← hnil]
  constructor
  · intro heq
    -- the frame is not longer than what comes before the late blurs
    have hshort := (firstBlurs_sublist backdropMaxBlurs before).length_le
    have hnone : scene.finish.lateBlurs = [] := by
      have hsame := congrArg List.length (hfirst.symm.trans (heq.trans hwhole))
      rw [List.length_append, List.length_map] at hsame
      exact List.length_eq_zero_iff.mp (by omega)
    rw [hnone, List.map_nil, List.append_nil] at hwhole
    have hcount := firstBlurs_eq_self_iff.mp (hfirst.symm.trans (heq.trans hwhole))
    rw [hshows.count] at hcount
    rw [hnone, List.map_eq_nil_iff] at hlate
    rw [hlate, List.length_nil, Nat.add_zero] at hlength
    exact ⟨hlength ▸ hcount, hnone⟩
  · rintro ⟨hle, hnone⟩
    rw [hnone, List.map_nil, List.append_nil] at hwhole
    rw [hfirst, hwhole, firstBlurs_eq_self_iff, hshows.count]
    omega

/-- The frame lacks the blur on top. -/
theorem frame_loop_agrees_glass : ∃ scene, ({} : Scene ℚ Unit).applyAll glassOnTop = .ok scene ∧
    ∃ renderer' encoder whole, firstRenderer.draw scene.finish = .ok (renderer', some encoder) ∧
      drawScene scene.finish = .ok whole ∧ encoder.drawn ≠ whole := by
  have hrun : ((({} : Scene ℚ Unit).applyAll glassOnTop).toOption.any fun scene =>
      decide (firstRenderer.need scene.finish ≤ 2 * 1024 * 1024) &&
        (PrimitiveKind.all.all fun kind => (scene.primitives kind).all fun p => p.order < u32Max) &&
        scene.backdropBlurs.any fun blur =>
          PrimitiveKind.all.all fun kind => (scene.primitives kind).all fun p =>
            p.order < blur.order) =
      true := by decide +kernel
  cases hbuild : ({} : Scene ℚ Unit).applyAll glassOnTop with
  | error e =>
    rw [hbuild] at hrun
    cases hrun
  | ok scene =>
    rw [hbuild, Except.toOption, Option.any_some] at hrun
    simp only [Bool.and_eq_true, List.all_eq_true, List.any_eq_true, decide_eq_true_eq] at hrun
    obtain ⟨⟨hroom, horder⟩, blur, hblur, habove⟩ := hrun
    obtain ⟨renderer', encoder, whole, before, hframe, hdraw, -, -, hagrees⟩ :=
      frame_loop_agrees firstRenderer hbuild (fun kind p hp => horder kind kind.mem_all p hp)
        (le_max_of_le_left hroom)
    refine ⟨scene, rfl, renderer', encoder, whole, hframe, hdraw, fun heq => ?_⟩
    obtain ⟨kind, p, hp, hle⟩ := (hagrees.mp heq).2 blur hblur
    exact absurd (habove kind kind.mem_all p hp) (not_lt.mpr hle)

end

end DrawOrder

end Zui
