/-
Cutting a list into runs of a given length.

`chunks n xs` cuts `xs` into runs of `n` elements, the last of which may be
shorter.

* `flatten_chunks` — the runs put together again are the list;
* `length_le_of_mem_chunks`, `ne_nil_of_mem_chunks` — each run has between one
  and `n` elements;
* `length_chunks_mul` — all runs but the last are full.
-/
import Mathlib

namespace Zui

variable {α : Type}

/-- `chunks` on fuel; a run takes at least one element, so the length of the
list is enough. -/
def chunksAux (n : ℕ) : ℕ → List α → List (List α)
  | 0, _ => []
  | _ + 1, [] => []
  | fuel + 1, x :: xs => (x :: xs).take n :: chunksAux n fuel ((x :: xs).drop n)

/-- The consecutive runs of `n` elements of a list. -/
def chunks (n : ℕ) (xs : List α) : List (List α) := chunksAux n xs.length xs

theorem flatten_chunksAux {n : ℕ} (hn : 0 < n) : ∀ {fuel : ℕ} {xs : List α},
    xs.length ≤ fuel → (chunksAux n fuel xs).flatten = xs := by
  intro fuel
  induction fuel with
  | zero =>
    intro xs h
    rw [List.length_eq_zero_iff.mp (Nat.le_zero.mp h)]
    rfl
  | succ fuel ih =>
    intro xs h
    cases xs with
    | nil => rfl
    | cons x xs =>
      have hlen : ((x :: xs).drop n).length ≤ fuel := by
        simp only [List.length_drop, List.length_cons] at h ⊢
        omega
      rw [chunksAux, List.flatten_cons, ih hlen, List.take_append_drop]

theorem flatten_chunks {n : ℕ} (hn : 0 < n) (xs : List α) : (chunks n xs).flatten = xs :=
  flatten_chunksAux hn (Nat.le_refl _)

theorem mem_chunksAux {n : ℕ} (hn : 0 < n) : ∀ {fuel : ℕ} {xs c : List α},
    c ∈ chunksAux n fuel xs → c ≠ [] ∧ c.length ≤ n := by
  intro fuel
  induction fuel with
  | zero =>
    intro xs c h
    exact absurd h (by simp [chunksAux])
  | succ fuel ih =>
    intro xs c h
    cases xs with
    | nil => exact absurd h (by simp [chunksAux])
    | cons x xs =>
      rw [chunksAux, List.mem_cons] at h
      rcases h with rfl | h
      · refine ⟨?_, List.length_take_le _ _⟩
        rw [Ne, List.take_eq_nil_iff]
        rintro (rfl | hnil)
        · exact absurd hn (Nat.lt_irrefl 0)
        · exact absurd hnil (by simp)
      · exact ih h

theorem ne_nil_of_mem_chunks {n : ℕ} (hn : 0 < n) {xs c : List α} (h : c ∈ chunks n xs) :
    c ≠ [] :=
  (mem_chunksAux hn h).1

theorem length_le_of_mem_chunks {n : ℕ} (hn : 0 < n) {xs c : List α} (h : c ∈ chunks n xs) :
    c.length ≤ n :=
  (mem_chunksAux hn h).2

theorem length_chunksAux_mul {n : ℕ} (hn : 0 < n) : ∀ {fuel : ℕ} {xs : List α},
    (chunksAux n fuel xs).length * n < xs.length + n := by
  intro fuel
  induction fuel with
  | zero =>
    intro xs
    simp only [chunksAux, List.length_nil, Nat.zero_mul]
    omega
  | succ fuel ih =>
    intro xs
    cases xs with
    | nil => simpa [chunksAux] using hn
    | cons x xs =>
      rw [chunksAux, List.length_cons, Nat.succ_mul]
      by_cases hlast : (x :: xs).length ≤ n
      · have hnil : chunksAux n fuel ((x :: xs).drop n) = [] := by
          rw [List.drop_eq_nil_of_le hlast]
          cases fuel <;> rfl
        simp only [hnil, List.length_nil, List.length_cons]
        omega
      · have hrest := @ih ((x :: xs).drop n)
        rw [List.length_drop] at hrest
        omega

/-- All runs but the last are full. -/
theorem length_chunks_mul {n : ℕ} (hn : 0 < n) (xs : List α) :
    (chunks n xs).length * n < xs.length + n :=
  length_chunksAux_mul hn

end Zui
