/-
Memory that is given out in turn.

The memory is a pool of blocks, no two of which meet, with a mark in each of them.  What is
given out of a block lies below its mark; the next piece starts at the mark or above it, and
moves the mark to its end.

* `padding` — how far an address is from the next aligned one;
* `Packed` — the pieces given out against the marks;
* `Packed.place` — one more piece;
* `Packed.raise` — some memory is skipped.
-/
import Mathlib

namespace Zui.Bump

/-- What an address lacks to the next multiple of `align`. -/
def padding (align address : ℕ) : ℕ := (align - address % align) % align

theorem padding_lt {align : ℕ} (halign : 0 < align) (address : ℕ) :
    padding align address < align :=
  Nat.mod_lt _ halign

theorem dvd_add_padding {align : ℕ} (halign : 0 < align) (address : ℕ) :
    align ∣ address + padding align address := by
  have hlt := Nat.mod_lt address halign
  have hdiv := Nat.div_add_mod address align
  by_cases hzero : address % align = 0
  · rw [padding, hzero, Nat.sub_zero, Nat.mod_self, Nat.add_zero]
    exact Nat.dvd_of_mod_eq_zero hzero
  · -- The rest of the division and the padding make one multiple.
    rw [padding, Nat.mod_eq_of_lt (by omega)]
    refine ⟨address / align + 1, ?_⟩
    rw [Nat.mul_add, Nat.mul_one]
    omega

variable {ι : Type*}

/-- Blocks of addresses that do not meet. -/
structure Pool (ι : Type*) where
  low : ι → ℕ
  high : ι → ℕ
  disjoint : Pairwise fun i j => Disjoint (Set.Ico (low i) (high i)) (Set.Ico (low j) (high j))

/-- A piece of a block. -/
structure Piece (ι : Type*) where
  block : ι
  low : ℕ
  high : ℕ

/-- The addresses of a piece, none for an empty one. -/
def Piece.range (piece : Piece ι) : Set ℕ := Set.Ico piece.low piece.high

/-- What was given out lies below the marks, and no two pieces meet. -/
structure Packed (pool : Pool ι) (mark : ι → ℕ) (pieces : List (Piece ι)) : Prop where
  low_le : ∀ i, pool.low i ≤ mark i
  le_high : ∀ i, mark i ≤ pool.high i
  within : ∀ piece ∈ pieces, pool.low piece.block ≤ piece.low ∧ piece.low ≤ piece.high ∧
    piece.high ≤ mark piece.block
  disjoint : pieces.Pairwise fun p q => Disjoint p.range q.range

namespace Packed

variable {pool : Pool ι} {mark mark' : ι → ℕ} {pieces : List (Piece ι)}

theorem nil (hlow : ∀ i, pool.low i ≤ mark i) (hhigh : ∀ i, mark i ≤ pool.high i) :
    Packed pool mark [] where
  low_le := hlow
  le_high := hhigh
  within := by simp
  disjoint := .nil

/-- Marks go up without a piece. -/
theorem raise (h : Packed pool mark pieces) (hle : ∀ i, mark i ≤ mark' i)
    (hhigh : ∀ i, mark' i ≤ pool.high i) : Packed pool mark' pieces where
  low_le i := (h.low_le i).trans (hle i)
  le_high := hhigh
  within piece hmem := by
    obtain ⟨hlow, hpiece, hmark⟩ := h.within piece hmem
    exact ⟨hlow, hpiece, hmark.trans (hle _)⟩
  disjoint := h.disjoint

theorem range_subset (h : Packed pool mark pieces) {piece : Piece ι} (hmem : piece ∈ pieces) :
    piece.range ⊆ Set.Ico (pool.low piece.block) (pool.high piece.block) := by
  obtain ⟨hlow, -, hmark⟩ := h.within piece hmem
  exact Set.Ico_subset_Ico hlow (hmark.trans (h.le_high _))

theorem disjoint_of_mark_le (h : Packed pool mark pieces) {piece next : Piece ι}
    (hmem : piece ∈ pieces) (hmark : mark next.block ≤ next.low)
    (hhigh : next.high ≤ pool.high next.block) : Disjoint piece.range next.range := by
  by_cases hblock : piece.block = next.block
  · have hle := (h.within piece hmem).2.2
    rw [hblock] at hle
    exact Set.Ico_disjoint_Ico_same.mono_right
      (Set.Ico_subset_Ico (hle.trans hmark) le_rfl : next.range ⊆ Set.Ico piece.high next.high)
  · exact (pool.disjoint hblock).mono (h.range_subset hmem)
      (Set.Ico_subset_Ico ((h.low_le _).trans hmark) hhigh)

variable [DecidableEq ι]

/-- One more piece is given out, and the mark of its block goes to its end. -/
theorem place (h : Packed pool mark pieces) {next : Piece ι} (hmark : mark next.block ≤ next.low)
    (hnext : next.low ≤ next.high) (hhigh : next.high ≤ pool.high next.block) :
    Packed pool (Function.update mark next.block next.high) (pieces ++ [next]) := by
  have hle : ∀ i, mark i ≤ Function.update mark next.block next.high i := by
    intro i
    by_cases hi : i = next.block
    · subst hi
      rw [Function.update_self]
      exact hmark.trans hnext
    · rw [Function.update_of_ne hi]
  have hraised : Packed pool (Function.update mark next.block next.high) pieces := by
    refine h.raise hle fun i => ?_
    by_cases hi : i = next.block
    · subst hi
      rwa [Function.update_self]
    · rw [Function.update_of_ne hi]
      exact h.le_high i
  refine ⟨hraised.low_le, hraised.le_high, ?_, ?_⟩
  · simp only [List.mem_append, List.mem_singleton]
    rintro piece (hmem | rfl)
    · exact hraised.within piece hmem
    · exact ⟨(h.low_le _).trans hmark, hnext, by rw [Function.update_self]⟩
  · rw [List.pairwise_append]
    refine ⟨h.disjoint, List.pairwise_singleton _ _, ?_⟩
    simp only [List.mem_singleton, forall_eq]
    exact fun piece hmem => h.disjoint_of_mark_le hmem hmark hhigh

end Packed

end Zui.Bump
