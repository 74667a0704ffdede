/-
What an arena keeps.

The chunks behind the current one are empty: an allocation that fails goes on by one chunk, and
`clear` resets all chunks up to the current one.  So a `clear` leaves no chunk with an offset,
and what is allocated after it lies above the marks of the chunks.

Main definitions:

* `Arena.WF` — the chunks lie in the blocks of the heap, and those behind the current one are
  empty;
* `World.Inv` — the boxes against the arena, the cells and the dropped values.

Main statements:

* `allocate_spec`, `clear_spec` — one call;
* `World.inv_run` — the invariant over runs;
* `arena_discipline` — what a run of calls guarantees.
-/
import Zui.Arena.Basic

namespace Zui

namespace Arena

variable {V : Type} {heap : Heap}

theorem Layout.align_pos (layout : Layout) : 0 < layout.align := by
  obtain ⟨exponent, h⟩ := layout.powerOfTwo
  rw [h]
  exact Nat.two_pow_pos exponent

/-- `allocate` of a chunk takes the next aligned address, or leaves the chunk alone. -/
theorem Chunk.allocate_cases {chunk : Chunk} (layout : Layout) (hoffset : chunk.offset ≠ 0) :
    (∃ ptr, chunk.allocate layout = ({ chunk with offset := ptr + layout.size }, some ptr) ∧
      chunk.offset ≤ ptr ∧ ptr + layout.size ≤ chunk.stop ∧ layout.align ∣ ptr) ∨
    (chunk.allocate layout = (chunk, none) ∧
      chunk.stop < chunk.offset + (layout.align - 1) + layout.size) := by
  have hdvd := Bump.dvd_add_padding layout.align_pos chunk.offset
  have hlt := Bump.padding_lt layout.align_pos chunk.offset
  by_cases hroom : chunk.offset + Bump.padding layout.align chunk.offset + layout.size ≤ chunk.stop
  · left
    refine ⟨chunk.offset + Bump.padding layout.align chunk.offset, ?_, Nat.le_add_right _ _,
      hroom, hdvd⟩
    rw [allocate, if_pos hroom, nonNull, if_neg (by omega)]
  · right
    exact ⟨by rw [allocate, if_neg hroom], by omega⟩

/-- A chunk lies in a block of the heap, and its offset in the chunk. -/
structure Chunk.Within (heap : Heap) (index : ℕ) (chunk : Chunk) : Prop where
  start_eq : chunk.start = heap.start index
  stop_eq : chunk.stop = heap.start index + heap.chunkSize
  le_offset : heap.start index ≤ chunk.offset
  offset_le : chunk.offset ≤ heap.start index + heap.chunkSize

/-- The chunks of an arena lie in the blocks of the heap, and those behind the current one are
empty. -/
structure WF (heap : Heap) (arena : Arena V) : Prop where
  chunkSize : arena.chunkSize = heap.chunkSize
  index_lt : arena.currentChunkIndex < arena.chunks.length
  within : ∀ (index : ℕ) (chunk : Chunk), arena.chunks[index]? = some chunk →
    chunk.Within heap index
  later : ∀ (index : ℕ) (chunk : Chunk), arena.chunks[index]? = some chunk →
    arena.currentChunkIndex < index → chunk.offset = chunk.start

/-- The offset of the chunk in a block, or the start of the block. -/
def mark (heap : Heap) (arena : Arena V) (index : ℕ) : ℕ :=
  (arena.chunks[index]?).elim (heap.start index) Chunk.offset

theorem mark_of_get {arena : Arena V} {index : ℕ} {chunk : Chunk}
    (hchunk : arena.chunks[index]? = some chunk) : arena.mark heap index = chunk.offset := by
  rw [mark, hchunk]
  rfl

/-- What the search for memory leaves of the arena. -/
structure Moved (heap : Heap) (arena arena' : Arena V) : Prop where
  wf : arena'.WF heap
  elements : arena'.elements = arena.elements
  valid : arena'.valid = arena.valid
  /-- The chunks grow behind the last one only. -/
  length : arena'.chunks.length = arena.chunks.length ∨
    (arena'.chunks.length = arena.chunks.length + 1 ∧
      arena.currentChunkIndex + 1 = arena.chunks.length)

/-- Memory was found in the chunk that is the current one now. -/
structure Placed (heap : Heap) (layout : Layout) (arena arena' : Arena V) (ptr : ℕ) : Prop where
  mark_le : arena.mark heap arena'.currentChunkIndex ≤ ptr
  le_high : ptr + layout.size ≤ heap.start arena'.currentChunkIndex + heap.chunkSize
  aligned : layout.align ∣ ptr
  mark_eq : arena'.mark heap =
    Function.update (arena.mark heap) arena'.currentChunkIndex (ptr + layout.size)

theorem Placed.mark_mono {layout : Layout} {arena arena' : Arena V} {ptr : ℕ}
    (h : Placed heap layout arena arena' ptr) (index : ℕ) :
    arena.mark heap index ≤ arena'.mark heap index := by
  rw [h.mark_eq]
  by_cases hindex : index = arena'.currentChunkIndex
  · subst hindex
    rw [Function.update_self]
    exact h.mark_le.trans (Nat.le_add_right _ _)
  · rw [Function.update_of_ne hindex]

theorem WF.mark_bounds {arena : Arena V} (h : arena.WF heap) (index : ℕ) :
    heap.start index ≤ arena.mark heap index ∧
      arena.mark heap index ≤ heap.start index + heap.chunkSize := by
  cases hget : arena.chunks[index]? with
  | none =>
    rw [mark, hget]
    exact ⟨le_rfl, Nat.le_add_right _ _⟩
  | some chunk =>
    rw [mark_of_get hget]
    exact ⟨(h.within index chunk hget).le_offset, (h.within index chunk hget).offset_le⟩

theorem WF.current {arena : Arena V} (h : arena.WF heap) :
    ∃ chunk, arena.chunks[arena.currentChunkIndex]? = some chunk :=
  ⟨_, List.getElem?_eq_getElem h.index_lt⟩

/-- The offset of the current chunk moves. -/
theorem WF.set {arena : Arena V} (h : arena.WF heap) {chunk : Chunk}
    (hchunk : chunk.Within heap arena.currentChunkIndex) :
    ({ arena with chunks := arena.chunks.set arena.currentChunkIndex chunk } :
      Arena V).WF heap where
  chunkSize := h.chunkSize
  index_lt := by simpa using h.index_lt
  within index other hget := by
    by_cases hindex : arena.currentChunkIndex = index
    · subst hindex
      rw [List.getElem?_set_self h.index_lt] at hget
      exact Option.some.inj hget ▸ hchunk
    · rw [List.getElem?_set_ne hindex] at hget
      exact h.within index other hget
  later index other hget hlt := by
    rw [List.getElem?_set_ne (Nat.ne_of_lt hlt)] at hget
    exact h.later index other hget hlt

theorem WF.mark_set {arena : Arena V} (h : arena.WF heap) (chunk : Chunk) :
    ({ arena with chunks := arena.chunks.set arena.currentChunkIndex chunk } : Arena V).mark heap =
      Function.update (arena.mark heap) arena.currentChunkIndex chunk.offset := by
  funext index
  by_cases hindex : index = arena.currentChunkIndex
  · subst hindex
    rw [Function.update_self, mark, List.getElem?_set_self h.index_lt]
    rfl
  · rw [Function.update_of_ne hindex, mark, mark, List.getElem?_set_ne (Ne.symm hindex)]

/-- `allocate` of the current chunk. -/
theorem allocateCurrent_cases {arena : Arena V} (h : arena.WF heap) (layout : Layout) :
    (∃ arena' ptr, arena.allocateCurrent layout = .ok (arena', some ptr) ∧
      Moved heap arena arena' ∧ arena'.chunks.length = arena.chunks.length ∧
      Placed heap layout arena arena' ptr) ∨
    (arena.allocateCurrent layout = .ok (arena, none) ∧
      heap.start arena.currentChunkIndex + heap.chunkSize <
        arena.mark heap arena.currentChunkIndex + (layout.align - 1) + layout.size) := by
  obtain ⟨chunk, hchunk⟩ := h.current
  have hmark : arena.mark heap arena.currentChunkIndex = chunk.offset := mark_of_get hchunk
  obtain ⟨hstart, hstop, hle, -⟩ := h.within _ _ hchunk
  have hne : chunk.offset ≠ 0 := by
    have := heap.start_ne_zero arena.currentChunkIndex
    omega
  rcases Chunk.allocate_cases layout hne with ⟨ptr, hptr, hoffset, hroom, haligned⟩ | ⟨hnone, hfull⟩
  · left
    rw [hstop] at hroom
    let taken : Chunk := { chunk with offset := ptr + layout.size }
    have htaken : taken.Within heap arena.currentChunkIndex :=
      ⟨hstart, hstop, (hle.trans hoffset).trans (Nat.le_add_right _ _), hroom⟩
    refine ⟨{ arena with chunks := arena.chunks.set arena.currentChunkIndex taken }, ptr, ?_,
      ⟨h.set htaken, rfl, rfl, Or.inl List.length_set⟩, List.length_set,
      ⟨hmark ▸ hoffset, hroom, haligned, h.mark_set taken⟩⟩
    rw [allocateCurrent, hchunk]
    simp only [hptr, taken]
  · right
    refine ⟨?_, by rw [hmark, ← hstop]; exact hfull⟩
    -- The chunk is put back as it was.
    have hset : arena.chunks.set arena.currentChunkIndex chunk = arena.chunks := by
      obtain ⟨hlt, hget⟩ := List.getElem?_eq_some_iff.mp hchunk
      rw [← hget, List.set_getElem_self]
    rw [allocateCurrent, hchunk]
    simp only [hnone, hset]

theorem WF.push {arena : Arena V} (h : arena.WF heap)
    (hlast : arena.currentChunkIndex + 1 = arena.chunks.length) :
    ({ arena with
      chunks := arena.chunks ++ [Chunk.new (heap.start arena.chunks.length) arena.chunkSize]
      currentChunkIndex := arena.currentChunkIndex + 1 } : Arena V).WF heap where
  chunkSize := h.chunkSize
  index_lt := by simp [hlast]
  within index chunk hget := by
    rcases lt_trichotomy index arena.chunks.length with hlt | rfl | hgt
    · rw [List.getElem?_append_left hlt] at hget
      exact h.within index chunk hget
    · rw [List.getElem?_concat_length] at hget
      rw [← Option.some.inj hget, h.chunkSize]
      exact ⟨rfl, rfl, le_rfl, Nat.le_add_right _ _⟩
    · rw [List.getElem?_eq_none (by simpa using hgt)] at hget
      cases hget
  later index chunk hget hlt := by
    rw [List.getElem?_eq_none] at hget
    · cases hget
    · have hlt : arena.currentChunkIndex + 1 < index := hlt
      simp only [List.length_append, List.length_singleton]
      omega

theorem nextChunk_spec {arena : Arena V} (h : arena.WF heap) :
    ∃ arena', arena.nextChunk heap = (arena', .ok ()) ∧ Moved heap arena arena' ∧
      arena'.currentChunkIndex = arena.currentChunkIndex + 1 ∧
      arena'.mark heap = arena.mark heap := by
  by_cases hlast : arena.currentChunkIndex + 1 ≥ arena.chunks.length
  · have hlast' : arena.currentChunkIndex + 1 = arena.chunks.length :=
      le_antisymm h.index_lt hlast
    refine ⟨_, ?_, ⟨h.push hlast', rfl, rfl, Or.inr ⟨by simp, hlast'⟩⟩, rfl, ?_⟩
    · rw [nextChunk]
      simp [hlast']
    · funext index
      simp only [mark]
      rcases lt_trichotomy index arena.chunks.length with hlt | rfl | hgt
      · rw [List.getElem?_append_left hlt]
      · -- The new chunk starts where the block does.
        rw [List.getElem?_concat_length, List.getElem?_eq_none le_rfl]
        rfl
      · rw [List.getElem?_eq_none (by simpa using hgt), List.getElem?_eq_none hgt.le]
  · refine ⟨{ arena with currentChunkIndex := arena.currentChunkIndex + 1 }, ?_,
      ⟨⟨h.chunkSize, not_le.mp hlast, h.within, fun index chunk hget hlt => ?_⟩, rfl, rfl,
        Or.inl rfl⟩, rfl, rfl⟩
    · rw [nextChunk]
      simp [hlast]
    · exact h.later index chunk hget (Nat.lt_of_succ_lt hlt)

theorem WF.mark_later {arena : Arena V} (h : arena.WF heap) {index : ℕ}
    (hlt : arena.currentChunkIndex < index) : arena.mark heap index = heap.start index := by
  cases hget : arena.chunks[index]? with
  | none =>
    rw [mark, hget]
    rfl
  | some chunk =>
    rw [mark_of_get hget, h.later index chunk hget hlt, (h.within index chunk hget).start_eq]

/-- An arena finds memory, unless the layout is too large for an empty chunk. -/
theorem allocate_cases {arena : Arena V} (h : arena.WF heap) (layout : Layout) :
    ∃ arena' result, arena.allocate heap layout = (arena', result) ∧ Moved heap arena arena' ∧
      ((∃ ptr, result = .ok ptr ∧ Placed heap layout arena arena' ptr) ∨
        (result = .error .tooSmall ∧ arena'.mark heap = arena.mark heap ∧
          heap.chunkSize < layout.align - 1 + layout.size)) := by
  rcases allocateCurrent_cases h layout with ⟨arena', ptr, hrun, hmoved, -, hplaced⟩ | ⟨hrun, -⟩
  · exact ⟨arena', .ok ptr, by simp [allocate, hrun], hmoved, Or.inl ⟨ptr, rfl, hplaced⟩⟩
  · obtain ⟨next, hnext, hmoved, hindex, hmark⟩ := nextChunk_spec h
    rcases allocateCurrent_cases hmoved.wf layout with
      ⟨arena', ptr, hrun', hmoved', hlength, hplaced⟩ | ⟨hrun', hfull⟩
    · refine ⟨arena', .ok ptr, by simp [allocate, hrun, hnext, hrun'],
        ⟨hmoved'.wf, hmoved'.elements.trans hmoved.elements, hmoved'.valid.trans hmoved.valid,
          hlength ▸ hmoved.length⟩, Or.inl ⟨ptr, rfl, ?_⟩⟩
      exact ⟨hmark ▸ hplaced.mark_le, hplaced.le_high, hplaced.aligned, hmark ▸ hplaced.mark_eq⟩
    · refine ⟨next, .error .tooSmall, by simp [allocate, hrun, hnext, hrun'], hmoved,
        Or.inr ⟨rfl, hmark, ?_⟩⟩
      -- The next chunk is empty, so its mark is the start of the block.
      rw [hmark, hindex, h.mark_later (Nat.lt_add_one _)] at hfull
      omega

/-! ### `clear` -/

theorem resetChunks_spec {chunks : List Chunk} : ∀ {count : ℕ}, count ≤ chunks.length →
    ∃ chunks', resetChunks chunks count = .ok chunks' ∧ chunks'.length = chunks.length ∧
      ∀ index, chunks'[index]? =
        (chunks[index]?).map fun chunk => if index < count then chunk.reset else chunk := by
  intro count
  induction count with
  | zero =>
    intro _
    exact ⟨chunks, rfl, rfl, fun index => by simp⟩
  | succ count ih =>
    intro hle
    obtain ⟨chunks', hrun, hlength, hget⟩ := ih (Nat.le_of_succ_le hle)
    have hchunk : chunks'[count]? = some chunks[count] := by
      rw [hget, List.getElem?_eq_getElem hle]
      simp
    refine ⟨chunks'.set count chunks[count].reset, ?_, by simpa using hlength, fun index => ?_⟩
    · rw [resetChunks, hrun]
      simp only [bind, Except.bind, hchunk]
    · by_cases hindex : count = index
      · subst hindex
        rw [List.getElem?_set_self (by omega), List.getElem?_eq_getElem hle]
        simp
      · rw [List.getElem?_set_ne hindex, hget]
        have : index < count + 1 ↔ index < count := by omega
        simp only [this]

/-- A cleared arena has empty chunks only. -/
theorem clear_spec {arena : Arena V} (h : arena.WF heap) (valid : ℕ) :
    ∃ arena', arena.clear valid = .ok arena' ∧ arena'.WF heap ∧ arena'.elements = [] ∧
      arena'.valid = valid ∧ arena'.chunks.length = arena.chunks.length ∧
      ∀ chunk ∈ arena'.chunks, chunk.offset = chunk.start := by
  obtain ⟨chunks, hrun, hlength, hget⟩ := resetChunks_spec (Nat.succ_le_of_lt h.index_lt)
  have hchunk : ∀ (index : ℕ) (chunk : Chunk), chunks[index]? = some chunk →
      chunk.Within heap index ∧ chunk.offset = chunk.start := by
    intro index chunk hchunk
    rw [hget] at hchunk
    obtain ⟨old, hold, hreset⟩ := Option.map_eq_some_iff.mp hchunk
    obtain ⟨hstart, hstop, hle, hoffset⟩ := h.within index old hold
    by_cases hindex : index < arena.currentChunkIndex.succ
    · rw [if_pos hindex] at hreset
      subst hreset
      exact ⟨⟨hstart, hstop, hstart.ge, by simp [Chunk.reset, hstart]⟩, rfl⟩
    · -- The chunks behind the current one are empty already.
      rw [if_neg hindex] at hreset
      subst hreset
      exact ⟨⟨hstart, hstop, hle, hoffset⟩, h.later index old hold (by omega)⟩
  refine ⟨{ arena with
      chunks := chunks, elements := [], valid := valid, currentChunkIndex := 0 }, ?_,
    ⟨h.chunkSize, ?_, fun index chunk hc => (hchunk index chunk hc).1,
    fun index chunk hc _ => (hchunk index chunk hc).2⟩, rfl, rfl, hlength, fun chunk hmem => ?_⟩
  · rw [clear, hrun]
    rfl
  · show 0 < chunks.length
    rw [hlength]
    exact Nat.zero_lt_of_lt h.index_lt
  · obtain ⟨index, hindex⟩ := List.getElem?_of_mem hmem
    exact (hchunk index chunk hindex).2

/-! ### The boxes -/

/-- The memory of a value, as a piece of the block of its chunk. -/
def Handed.piece (handed : Handed V) : Bump.Piece ℕ :=
  ⟨handed.chunk, handed.box.ptr, handed.box.ptr + handed.layout.size⟩

/-- The addresses of a value. -/
def Handed.memory (handed : Handed V) : Set ℕ :=
  Set.Ico handed.box.ptr (handed.box.ptr + handed.layout.size)

/-- The boxes against the arena, the cells, and the values that were dropped. -/
structure World.Inv (heap : Heap) (w : World V) : Prop where
  wf : w.arena.WF heap
  packed : Bump.Packed heap.pool (w.arena.mark heap) (w.live.map Handed.piece)
  aligned : ∀ handed ∈ w.live, handed.layout.align ∣ handed.box.ptr
  chunk_lt : ∀ handed ∈ w.live, handed.chunk < w.arena.chunks.length
  elements : w.arena.elements = w.live.map fun handed => ⟨handed.box.ptr, handed.content⟩
  dropped : w.dropped ++ w.live.map Handed.content = w.boxes.map Handed.content
  cells_length : w.cells.length = w.arena.valid + 1
  cell : w.cells[w.arena.valid]? = some true
  cell_before : ∀ index < w.arena.valid, w.cells[index]? = some false
  live_valid : ∀ handed ∈ w.live, handed.box.valid = w.arena.valid
  box_valid : ∀ handed ∈ w.boxes, handed.box.valid ≤ w.arena.valid

namespace World

variable {w : World V}

theorem inv_new : (World.new heap : World V).Inv heap where
  wf := by
    refine ⟨rfl, Nat.one_pos, fun index chunk hget => ?_, fun index chunk hget hlt => ?_⟩
    · obtain ⟨hindex, rfl⟩ := List.getElem?_eq_some_iff.mp hget
      obtain rfl : index = 0 := Nat.lt_one_iff.mp hindex
      exact ⟨rfl, rfl, le_rfl, Nat.le_add_right _ _⟩
    · obtain ⟨hindex, -⟩ := List.getElem?_eq_some_iff.mp hget
      exact absurd hlt (Nat.not_lt.mpr (Nat.lt_one_iff.mp hindex).le)
  packed := by
    have hmark : (World.new heap : World V).arena.mark heap = heap.start := by
      funext index
      cases index with
      | zero => rfl
      | succ index => rfl
    rw [hmark]
    exact .nil (fun _ => le_rfl) fun _ => Nat.le_add_right _ _
  aligned := by simp [World.new]
  chunk_lt := by simp [World.new]
  elements := rfl
  dropped := rfl
  cells_length := rfl
  cell := rfl
  cell_before := by simp [World.new, Arena.new]
  live_valid := by simp [World.new]
  box_valid := by simp [World.new]

/-- How a call of `alloc` ends: with a box, or with a panic that leaves the boxes alone. -/
theorem alloc_cases (h : w.arena.WF heap) (layout : Layout) (f : Option V) :
    ∃ arena', Moved heap w.arena arena' ∧
      ((∃ ptr content, f = some content ∧ Placed heap layout w.arena arena' ptr ∧
        w.alloc heap layout f =
          (let handed : Handed V :=
            ⟨⟨ptr, w.arena.valid⟩, layout, content, arena'.currentChunkIndex⟩
          { w with
            arena := { arena' with elements := w.arena.elements ++ [⟨ptr, content⟩] }
            boxes := w.boxes ++ [handed]
            live := w.live ++ [handed] }, .ok ⟨ptr, w.arena.valid⟩)) ∨
      ∃ panic, w.alloc heap layout f = ({ w with arena := arena' }, .error panic) ∧
        (∀ index, w.arena.mark heap index ≤ arena'.mark heap index) ∧
        (f = none ∨ heap.chunkSize < layout.align - 1 + layout.size)) := by
  obtain ⟨arena', result, hrun, hmoved, ⟨ptr, rfl, hplaced⟩ | ⟨rfl, hmark, hlarge⟩⟩ :=
    allocate_cases h layout
  · refine ⟨arena', hmoved, ?_⟩
    cases f with
    | none =>
      refine Or.inr ⟨.closure, ?_, hplaced.mark_mono, Or.inl rfl⟩
      simp [World.alloc, Arena.alloc, hrun]
    | some content =>
      refine Or.inl ⟨ptr, content, rfl, hplaced, ?_⟩
      simp [World.alloc, Arena.alloc, hrun, hmoved.elements, hmoved.valid]
  · refine ⟨arena', hmoved, Or.inr ⟨.tooSmall, ?_, fun index => (congrFun hmark index).ge,
      Or.inr hlarge⟩⟩
    cases f with
    | none => simp [World.alloc, Arena.alloc, hrun]
    | some content => simp [World.alloc, Arena.alloc, hrun]

theorem length_le_of_moved {arena arena' : Arena V} (h : Moved heap arena arena') :
    arena.chunks.length ≤ arena'.chunks.length := by
  rcases h.length with hsame | ⟨hgrown, -⟩
  · exact hsame.ge
  · omega

/-- A call of `alloc`. -/
theorem Inv.alloc (h : w.Inv heap) (layout : Layout) (f : Option V) :
    (w.alloc heap layout f).1.Inv heap := by
  obtain ⟨arena', hmoved, ⟨ptr, content, rfl, hplaced, hrun⟩ | ⟨panic, hrun, hmark, -⟩⟩ :=
    alloc_cases h.wf layout f
  · rw [hrun]
    have hlength := length_le_of_moved hmoved
    let handed : Handed V := ⟨⟨ptr, w.arena.valid⟩, layout, content, arena'.currentChunkIndex⟩
    have hmark : Function.update (w.arena.mark heap) handed.piece.block handed.piece.high =
        arena'.mark heap := hplaced.mark_eq.symm
    -- the new piece lies between the old mark and the new one of its chunk
    have hpacked : Bump.Packed heap.pool
        (Function.update (w.arena.mark heap) handed.piece.block handed.piece.high)
        (w.live.map Handed.piece ++ [handed.piece]) :=
      h.packed.place hplaced.mark_le (Nat.le_add_right _ _) hplaced.le_high
    rw [hmark, ← List.map_singleton, ← List.map_append] at hpacked
    have hlive : ∀ {P : Handed V → Prop}, (∀ old ∈ w.live, P old) → P handed →
        ∀ old ∈ w.live ++ [handed], P old := by
      intro P hold hnew old hmem
      rcases List.mem_append.mp hmem with hmem | hmem
      · exact hold old hmem
      · exact List.mem_singleton.mp hmem ▸ hnew
    exact {
      wf := ⟨hmoved.wf.chunkSize, hmoved.wf.index_lt, hmoved.wf.within, hmoved.wf.later⟩
      packed := hpacked
      aligned := hlive h.aligned hplaced.aligned
      chunk_lt := hlive (fun old hmem => Nat.lt_of_lt_of_le (h.chunk_lt old hmem) hlength)
        hmoved.wf.index_lt
      elements := by simp [h.elements]
      dropped := by simp [← h.dropped]
      cells_length := by simpa [hmoved.valid] using h.cells_length
      cell := by simpa [hmoved.valid] using h.cell
      cell_before := by simpa [hmoved.valid] using h.cell_before
      live_valid := hlive (fun old hmem => (h.live_valid old hmem).trans hmoved.valid.symm)
        hmoved.valid.symm
      box_valid := by
        simp only [List.mem_append, List.mem_singleton]
        rintro old (hmem | rfl)
        · exact (h.box_valid old hmem).trans hmoved.valid.ge
        · exact hmoved.valid.ge }
  · rw [hrun]
    -- a panic leaves the boxes, but may have moved to another chunk
    have hbounds := hmoved.wf.mark_bounds
    have hlength := length_le_of_moved hmoved
    exact {
      wf := hmoved.wf
      packed := h.packed.raise hmark fun index => (hbounds index).2
      aligned := h.aligned
      chunk_lt := fun handed hmem => (h.chunk_lt handed hmem).trans_le hlength
      elements := hmoved.elements.trans h.elements
      dropped := h.dropped
      cells_length := by simpa [hmoved.valid] using h.cells_length
      cell := by simpa [hmoved.valid] using h.cell
      cell_before := by simpa [hmoved.valid] using h.cell_before
      live_valid := by simpa [hmoved.valid] using h.live_valid
      box_valid := by simpa [hmoved.valid] using h.box_valid }

/-- A call of `clear`. -/
theorem Inv.clear (h : w.Inv heap) : ∃ w', w.clear = .ok w' ∧ w'.Inv heap ∧
    w'.boxes = w.boxes ∧ w'.live = [] ∧ w'.arena.valid = w.arena.valid + 1 ∧
    w'.dropped = w.dropped ++ w.live.map Handed.content ∧
    w'.arena.chunks.length = w.arena.chunks.length ∧
    ∀ chunk ∈ w'.arena.chunks, chunk.offset = chunk.start := by
  obtain ⟨arena', hrun, hwf, helements, hvalid, hlength, hempty⟩ := clear_spec h.wf w.cells.length
  have hdropped : w.arena.elements.map ArenaElement.content = w.live.map Handed.content := by
    rw [h.elements, List.map_map]
    rfl
  have hcells : (w.cells.set w.arena.valid false).length = w.arena.valid + 1 := by
    rw [List.length_set, h.cells_length]
  rw [h.cells_length] at hvalid
  refine ⟨{ w with
    arena := arena'
    cells := w.cells.set w.arena.valid false ++ [true]
    live := []
    dropped := w.dropped ++ w.live.map Handed.content }, ?_, ?_, rfl, rfl, hvalid, rfl, hlength,
    hempty⟩
  · rw [World.clear, hrun, hdropped]
    rfl
  · exact {
      wf := hwf
      packed := .nil (fun index => (hwf.mark_bounds index).1) fun index => (hwf.mark_bounds index).2
      aligned := by simp
      chunk_lt := by simp
      elements := helements
      dropped := by simpa using h.dropped
      cells_length := by simp [hvalid, h.cells_length]
      cell := by
        show (w.cells.set w.arena.valid false ++ [true])[arena'.valid]? = some true
        rw [hvalid, ← hcells, List.getElem?_concat_length]
      cell_before := by
        intro index hindex
        have hindex : index < w.arena.valid + 1 := hvalid ▸ hindex
        show (w.cells.set w.arena.valid false ++ [true])[index]? = some false
        rw [List.getElem?_append_left (hcells ▸ hindex)]
        by_cases hlast : w.arena.valid = index
        · -- The cell of the boxes before this call.
          subst hlast
          rw [List.getElem?_set_self (by rw [h.cells_length]; exact hindex)]
        · rw [List.getElem?_set_ne hlast]
          exact h.cell_before index (by omega)
      live_valid := by simp
      box_valid := fun old hmem => (h.box_valid old hmem).trans
        (by rw [hvalid]; exact Nat.le_succ _) }

/-! ### Runs -/

theorem Inv.step (h : w.Inv heap) (op : ArenaOp V) : (w.step heap op).Inv heap := by
  cases op with
  | alloc layout f => exact h.alloc layout f
  | clear =>
    obtain ⟨w', hrun, hw', -⟩ := h.clear
    rw [World.step, hrun]
    exact hw'

theorem Inv.run (h : w.Inv heap) (ops : List (ArenaOp V)) : (w.run heap ops).Inv heap := by
  induction ops generalizing w with
  | nil => exact h
  | cons op ops ih => exact ih (h.step op)

theorem Inv.valid_le_step (h : w.Inv heap) (op : ArenaOp V) :
    w.arena.valid ≤ (w.step heap op).arena.valid := by
  cases op with
  | alloc layout f =>
    obtain ⟨arena', hmoved, ⟨ptr, content, -, -, hrun⟩ | ⟨panic, hrun, -, -⟩⟩ :=
      alloc_cases h.wf layout f
    · rw [World.step, hrun]
      exact hmoved.valid.ge
    · rw [World.step, hrun]
      exact hmoved.valid.ge
  | clear =>
    obtain ⟨w', hrun, -, -, -, hvalid, -⟩ := h.clear
    rw [World.step, hrun]
    exact hvalid ▸ Nat.le_succ _

theorem Inv.valid_le_run (h : w.Inv heap) (ops : List (ArenaOp V)) :
    w.arena.valid ≤ (w.run heap ops).arena.valid := by
  induction ops generalizing w with
  | nil => exact le_rfl
  | cons op ops ih => exact (h.valid_le_step op).trans (ih (h.step op))

theorem Inv.length_step (h : w.Inv heap) (op : ArenaOp V) :
    (w.step heap op).arena.chunks.length = w.arena.chunks.length ∨
      ((w.step heap op).arena.chunks.length = w.arena.chunks.length + 1 ∧
        w.arena.currentChunkIndex + 1 = w.arena.chunks.length) := by
  cases op with
  | alloc layout f =>
    obtain ⟨arena', hmoved, ⟨ptr, content, -, -, hrun⟩ | ⟨panic, hrun, -, -⟩⟩ :=
      alloc_cases h.wf layout f
    · rw [World.step, hrun]
      exact hmoved.length
    · rw [World.step, hrun]
      exact hmoved.length
  | clear =>
    obtain ⟨w', hrun, -, -, -, -, -, hlength, -⟩ := h.clear
    rw [World.step, hrun]
    exact Or.inl hlength

theorem Inv.validate_of_live (h : w.Inv heap) {handed : Handed V} (hmem : handed ∈ w.live) :
    w.validate handed.box = .ok () := by
  rw [validate, h.live_valid handed hmem, h.cell]

theorem Inv.validate_of_lt (h : w.Inv heap) {box : ArenaBox} (hlt : box.valid < w.arena.valid) :
    w.validate box = .error .cleared := by
  rw [validate, h.cell_before _ hlt]

theorem Inv.within (h : w.Inv heap) {handed : Handed V} (hmem : handed ∈ w.live) :
    ∃ chunk ∈ w.arena.chunks, chunk.start ≤ handed.box.ptr ∧
      handed.box.ptr + handed.layout.size ≤ chunk.stop := by
  have hlt := h.chunk_lt handed hmem
  have hget : w.arena.chunks[handed.chunk]? = some w.arena.chunks[handed.chunk] :=
    List.getElem?_eq_getElem hlt
  obtain ⟨hstart, hstop, -, hoffset⟩ := h.wf.within _ _ hget
  obtain ⟨hlow, -, hhigh⟩ := h.packed.within handed.piece (List.mem_map_of_mem hmem)
  have hmark : w.arena.mark heap handed.chunk = w.arena.chunks[handed.chunk].offset :=
    mark_of_get hget
  refine ⟨_, List.getElem_mem hlt, hstart.trans_le hlow, ?_⟩
  calc handed.box.ptr + handed.layout.size
      ≤ w.arena.mark heap handed.chunk := hhigh
    _ ≤ heap.start handed.chunk + heap.chunkSize := hmark ▸ hoffset
    _ = w.arena.chunks[handed.chunk].stop := hstop.symm

theorem Inv.disjoint (h : w.Inv heap) :
    w.live.Pairwise fun a b => Disjoint a.memory b.memory := by
  have hpieces := h.packed.disjoint
  rw [List.pairwise_map] at hpieces
  exact hpieces

end World

/-- What holds behind any calls of `alloc`, of which some may panic, and of `clear`. -/
theorem arena_discipline (heap : Heap) (ops : List (ArenaOp V)) :
    let w := (World.new heap).run heap ops
    -- The memory of the values since the last `clear`.
    (w.live.Pairwise fun a b => Disjoint a.memory b.memory) ∧
    (∀ handed ∈ w.live, handed.layout.align ∣ handed.box.ptr ∧
      ∃ chunk ∈ w.arena.chunks, chunk.start ≤ handed.box.ptr ∧
        handed.box.ptr + handed.layout.size ≤ chunk.stop) ∧
    -- A `clear` drops them once each, and empties all chunks.
    (∃ w', w.clear = .ok w' ∧ w'.live = [] ∧
      w'.dropped = w.dropped ++ w.live.map Handed.content ∧
      ∀ chunk ∈ w'.arena.chunks, chunk.offset = chunk.start) ∧
    w.dropped ++ w.live.map Handed.content = w.boxes.map Handed.content ∧
    -- Boxes are valid up to the next `clear`, and never after it.
    (∀ handed ∈ w.live, w.validate handed.box = .ok ()) ∧
    (∀ handed ∈ w.boxes, ∀ later,
      (w.run heap (.clear :: later)).validate handed.box = .error .cleared) ∧
    -- The chunks stay, and one more is allocated when the current one is the last.
    (∀ op, (w.step heap op).arena.chunks.length = w.arena.chunks.length ∨
      ((w.step heap op).arena.chunks.length = w.arena.chunks.length + 1 ∧
        w.arena.currentChunkIndex + 1 = w.arena.chunks.length)) ∧
    -- A layout that fits an empty chunk wherever it starts gets its memory.
    ∀ layout content, layout.align - 1 + layout.size ≤ heap.chunkSize →
      ∃ box, (w.alloc heap layout (some content)).2 = .ok box := by
  intro w
  have h : w.Inv heap := World.inv_new.run ops
  obtain ⟨w', hclear, hw', hboxes, hlive, hvalid, hdropped, -, hempty⟩ := h.clear
  refine ⟨h.disjoint, fun handed hmem => ⟨h.aligned handed hmem, h.within hmem⟩,
    ⟨w', hclear, hlive, hdropped, hempty⟩, h.dropped, fun handed => h.validate_of_live,
    fun handed hmem later => ?_, h.length_step, fun layout content hfits => ?_⟩
  · have hrun : w.run heap (.clear :: later) = w'.run heap later := by
      show (w.step heap .clear).run heap later = _
      rw [World.step, hclear]
    have hle := h.box_valid handed hmem
    have hlater := hw'.valid_le_run later
    rw [hrun]
    exact (hw'.run later).validate_of_lt (by omega)
  · obtain ⟨arena', -, ⟨ptr, content', -, -, hrun⟩ | ⟨panic, -, -, hnone | hlarge⟩⟩ :=
      World.alloc_cases h.wf layout (some content)
    · exact ⟨_, by rw [hrun]⟩
    · cases hnone
    · exact absurd hlarge (not_lt.mpr hfits)

/-- Chunks of 8 bytes, one behind the other. -/
def bytes : Heap where
  chunkSize := 8
  chunkSize_ne_zero := by decide
  start index := 8 * (index + 1)
  start_ne_zero := by simp
  disjoint i j hne := by
    refine Set.disjoint_left.mpr fun address hi hj => ?_
    simp only [Set.mem_Ico] at hi hj
    omega

/-- Two values of 8 bytes and two of 4 bytes take three chunks. -/
example : ((World.new bytes : World ℕ).run bytes [.alloc ⟨8, 8, 3, rfl⟩ (some 1),
    .alloc ⟨8, 8, 3, rfl⟩ (some 2), .alloc ⟨4, 4, 2, rfl⟩ (some 3),
    .alloc ⟨4, 4, 2, rfl⟩ (some 4)]).arena.capacity = 24 := by
  rfl

end Arena

end Zui
