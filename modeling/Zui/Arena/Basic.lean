/-
An arena.

An `Arena` gives out memory of a list of chunks and drops the values in it when it is cleared.
When the current chunk has no room, it goes on to the next one, and allocates one behind the
last; it does not come back before the next `clear`.  A box holds the cell that was the
arena's when the box was made.

Design notes:

* addresses are numbers; what the allocator returns for the chunks is a `Heap`, whose blocks
  do not meet;
* an `Rc<Cell<bool>>` is an index into the cells that were made so far;
* a value is what its destructor will find at its address: an element holds the two;
* a panic leaves the arena as it is at that point, for a caller may catch it.

Main definitions:

* `Arena.alloc`, `Arena.clear` — the operations of the arena;
* `World.step`, `World.run` — the arena with the cells, the boxes that were handed out, and the
  values that were dropped.
-/
import Zui.Library.Bump

namespace Zui.Arena

/-- The panics. -/
inductive ArenaPanic
  | indexOutOfBounds
  /-- The `assert_eq!` behind the push of a chunk. -/
  | assertion
  /-- The chunk size is too small for the layout. -/
  | tooSmall
  /-- The closure that makes the value panics. -/
  | closure
  /-- A box is dereferenced after the arena was cleared. -/
  | cleared
  deriving DecidableEq, Repr

/-- `Layout`. -/
structure Layout where
  size : ℕ
  align : ℕ
  powerOfTwo : ∃ exponent, align = 2 ^ exponent

/-- What `alloc::alloc` returns for the chunks, which are all of one size. -/
structure Heap where
  chunkSize : ℕ
  chunkSize_ne_zero : chunkSize ≠ 0
  /-- The address of the chunk with a number. -/
  start : ℕ → ℕ
  start_ne_zero : ∀ index, start index ≠ 0
  disjoint : Pairwise fun i j => Disjoint (Set.Ico (start i) (start i + chunkSize))
    (Set.Ico (start j) (start j + chunkSize))

/-- The blocks of a heap. -/
def Heap.pool (heap : Heap) : Bump.Pool ℕ where
  low := heap.start
  high index := heap.start index + heap.chunkSize
  disjoint := heap.disjoint

/-- `Chunk`, with the field `end` as `stop`. -/
structure Chunk where
  start : ℕ
  stop : ℕ
  offset : ℕ
  deriving DecidableEq, Repr

namespace Chunk

/-- `Chunk::new`, with the address that it gets. -/
def new (start chunkSize : ℕ) : Chunk := ⟨start, start + chunkSize, start⟩

/-- `NonNull::new`. -/
def nonNull (address : ℕ) : Option ℕ := if address = 0 then none else some address

/-- `allocate`. -/
def allocate (self : Chunk) (layout : Layout) : Chunk × Option ℕ :=
  let aligned := self.offset + Bump.padding layout.align self.offset
  let next := aligned + layout.size
  if next ≤ self.stop then ({ self with offset := next }, nonNull aligned) else (self, none)

/-- `reset`. -/
def reset (self : Chunk) : Chunk := { self with offset := self.start }

end Chunk

/-- `ArenaElement`: an address, and the value that `drop` drops there. -/
structure ArenaElement (V : Type) where
  value : ℕ
  content : V
  deriving DecidableEq, Repr

/-- `ArenaBox`; `valid` is the index of a cell. -/
structure ArenaBox where
  ptr : ℕ
  valid : ℕ
  deriving DecidableEq, Repr

end Zui.Arena

namespace Zui

open Arena

/-- `Arena`; `valid` is the index of a cell. -/
structure Arena (V : Type) where
  chunks : List Chunk
  elements : List (ArenaElement V)
  valid : ℕ
  currentChunkIndex : ℕ
  chunkSize : ℕ
  deriving DecidableEq, Repr

namespace Arena

variable {V : Type} (heap : Heap)

/-- `new`, whose cell is the first one. -/
def new : Arena V where
  chunks := [Chunk.new (heap.start 0) heap.chunkSize]
  elements := []
  valid := 0
  currentChunkIndex := 0
  chunkSize := heap.chunkSize

/-- `capacity`. -/
def capacity (self : Arena V) : ℕ := self.chunks.length * self.chunkSize

/-- `allocate` of the current chunk. -/
def allocateCurrent (self : Arena V) (layout : Layout) :
    Except ArenaPanic (Arena V × Option ℕ) :=
  match self.chunks[self.currentChunkIndex]? with
  | none => .error .indexOutOfBounds
  | some currentChunk =>
    let (currentChunk, ptr) := currentChunk.allocate layout
    .ok ({ self with chunks := self.chunks.set self.currentChunkIndex currentChunk }, ptr)

/-- Goes on to the next chunk, which is allocated if there is none. -/
def nextChunk (self : Arena V) : Arena V × Except ArenaPanic Unit :=
  let self := { self with currentChunkIndex := self.currentChunkIndex + 1 }
  if self.currentChunkIndex ≥ self.chunks.length then
    let self := { self with
      chunks := self.chunks ++ [Chunk.new (heap.start self.chunks.length) self.chunkSize] }
    if self.currentChunkIndex = self.chunks.length - 1 then (self, .ok ())
    else (self, .error .assertion)
  else (self, .ok ())

/-- The part of `alloc` that finds the memory. -/
def allocate (self : Arena V) (layout : Layout) : Arena V × Except ArenaPanic ℕ :=
  match self.allocateCurrent layout with
  | .error panic => (self, .error panic)
  | .ok (self, some ptr) => (self, .ok ptr)
  | .ok (self, none) =>
    match self.nextChunk heap with
    | (self, .error panic) => (self, .error panic)
    | (self, .ok ()) =>
      match self.allocateCurrent layout with
      | .error panic => (self, .error panic)
      | .ok (self, some ptr) => (self, .ok ptr)
      | .ok (self, none) => (self, .error .tooSmall)

/-- `alloc`, with the value that the closure makes, or `none` if it panics. -/
def alloc (self : Arena V) (layout : Layout) (f : Option V) :
    Arena V × Except ArenaPanic ArenaBox :=
  match self.allocate heap layout with
  | (self, .error panic) => (self, .error panic)
  | (self, .ok ptr) =>
    match f with
    | none => (self, .error .closure)
    | some content =>
      ({ self with elements := self.elements ++ [⟨ptr, content⟩] },
        .ok { ptr := ptr, valid := self.valid })

/-- The loop of `clear` over the chunks in front of an index. -/
def resetChunks (chunks : List Chunk) : ℕ → Except ArenaPanic (List Chunk)
  | 0 => .ok chunks
  | chunkIndex + 1 => do
    let chunks ← resetChunks chunks chunkIndex
    match chunks[chunkIndex]? with
    | none => .error .indexOutOfBounds
    | some chunk => .ok (chunks.set chunkIndex chunk.reset)

/-- `clear` behind the drop of the elements, with the index of the new cell. -/
def clear (self : Arena V) (valid : ℕ) : Except ArenaPanic (Arena V) := do
  let chunks ← resetChunks self.chunks (self.currentChunkIndex + 1)
  .ok { self with chunks := chunks, elements := [], valid := valid, currentChunkIndex := 0 }

end Arena

namespace Arena

/-- A box that was handed out, with the layout of its value, and the index of the chunk that its
memory is of. -/
structure Handed (V : Type) where
  box : ArenaBox
  layout : Layout
  content : V
  chunk : ℕ

/-- An arena, and what its calls leave behind. -/
structure World (V : Type) where
  arena : Arena V
  cells : List Bool
  /-- The boxes that were handed out. -/
  boxes : List (Handed V)
  /-- Those since the last `clear`. -/
  live : List (Handed V)
  /-- The values that were dropped. -/
  dropped : List V

/-- The calls. -/
inductive ArenaOp (V : Type)
  | alloc (layout : Layout) (f : Option V)
  | clear

namespace World

variable {V : Type} (heap : Heap)

/-- A new arena. -/
def new : World V where
  arena := Arena.new heap
  cells := [true]
  boxes := []
  live := []
  dropped := []

/-- `alloc`. -/
def alloc (self : World V) (layout : Layout) (f : Option V) :
    World V × Except ArenaPanic ArenaBox :=
  match self.arena.alloc heap layout f, f with
  | (arena, .ok box), some content =>
    let handed := ⟨box, layout, content, arena.currentChunkIndex⟩
    ({ self with arena := arena, boxes := self.boxes ++ [handed], live := self.live ++ [handed] },
      .ok box)
  | (arena, result), _ => ({ self with arena := arena }, result)

/-- `clear`. -/
def clear (self : World V) : Except ArenaPanic (World V) := do
  let cells := self.cells.set self.arena.valid false ++ [true]
  let dropped := self.dropped ++ self.arena.elements.map ArenaElement.content
  let arena ← self.arena.clear self.cells.length
  .ok { self with arena := arena, cells := cells, live := [], dropped := dropped }

/-- One call. -/
def step (self : World V) : ArenaOp V → World V
  | .alloc layout f => (self.alloc heap layout f).1
  | .clear =>
    match self.clear with
    | .ok next => next
    | .error _ => self

/-- Some calls. -/
def run (self : World V) (ops : List (ArenaOp V)) : World V := ops.foldl (step heap) self

/-- `validate` of a box. -/
def validate (self : World V) (box : ArenaBox) : Except ArenaPanic Unit :=
  match self.cells[box.valid]? with
  | some true => .ok ()
  | _ => .error .cleared

end World

end Arena

end Zui
