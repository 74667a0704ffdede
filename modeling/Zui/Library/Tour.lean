/-
Tours around a list.

A partial step on the elements of a list goes around the list (`GoesAround`) when it leads from
nowhere to the first element, from each element to the one behind it, and from the last
element back to the first.

* `GoesAround.tour` — what the steps from nowhere come by, for any number of steps;
* `GoesAround.undo` — a step around the reversed list undoes a step around the list.
-/
import Zui.Library.Loop

namespace Zui

variable {α ε : Type}

/-- The elements that some steps come by. -/
def tour (step : Option α → Except ε (Option α)) : ℕ → Option α → Except ε (List α)
  | 0, _ => .ok []
  | n + 1, current => do
    match ← step current with
    | some x => do
      let xs ← tour step n (some x)
      .ok (x :: xs)
    | none => .ok []

/-- Some elements from an index of a list on, and around. -/
def around (xs : List α) (start n : ℕ) : List α :=
  (List.range n).filterMap fun i => xs[(start + i) % xs.length]?

/-- The steps go around the list. -/
structure GoesAround (step : Option α → Except ε (Option α)) (xs : List α) : Prop where
  start : step none = .ok xs.head?
  onward : ∀ pre x post, xs = pre ++ x :: post → step (some x) = .ok (post.head?.or xs.head?)

theorem around_succ (xs : List α) (start n : ℕ) :
    around xs start (n + 1) = xs[start % xs.length]?.toList ++ around xs (start + 1) n := by
  have hshift : (fun i => xs[(start + i) % xs.length]?) ∘ Nat.succ =
      fun i => xs[(start + 1 + i) % xs.length]? := by
    funext i
    simp [Nat.add_comm, Nat.add_left_comm]
  rw [around, around, List.range_succ_eq_map, List.filterMap_cons, List.filterMap_map, hshift,
    Nat.add_zero]
  cases xs[start % xs.length]? <;> rfl

theorem around_nil (start n : ℕ) : around ([] : List α) start n = [] := by
  simp [around]

namespace GoesAround

variable {step back : Option α → Except ε (Option α)} {xs : List α}

theorem step_getElem (h : GoesAround step xs) {i : ℕ} (hi : i < xs.length) :
    step (some xs[i]) = .ok xs[(i + 1) % xs.length]? := by
  have hsplit : xs = xs.take i ++ xs[i] :: xs.drop (i + 1) := by simp
  rw [h.onward _ _ _ hsplit]
  rcases Nat.lt_or_ge (i + 1) xs.length with hlt | hge
  · simp [Nat.mod_eq_of_lt hlt, hlt]
  · have hlast : i + 1 = xs.length := by omega
    simp [hlast, List.head?_eq_getElem?]

theorem tour_getElem (h : GoesAround step xs) : ∀ (n : ℕ) {i : ℕ} (hi : i < xs.length),
    tour step n (some xs[i]) = .ok (around xs (i + 1) n) := by
  intro n
  induction n with
  | zero =>
    intro i _
    simp [tour, around]
  | succ n ih =>
    intro i hi
    have hnext : (i + 1) % xs.length < xs.length := Nat.mod_lt _ (by omega)
    have hrest := ih hnext
    rw [tour, h.step_getElem hi, around_succ, List.getElem?_eq_getElem hnext]
    simp only [ok_bind, hrest, Option.toList_some, List.cons_append, List.nil_append]
    congr 2
    simp [around, Nat.add_mod]

/-- The steps from nowhere: around the list, as often as there are steps. -/
theorem tour (h : GoesAround step xs) (n : ℕ) : Zui.tour step n none = .ok (around xs 0 n) := by
  cases n with
  | zero => simp [Zui.tour, around]
  | succ n =>
    rw [Zui.tour, h.start]
    cases xs with
    | nil => simp [around_nil]
    | cons x xs =>
      have hrest := h.tour_getElem n (i := 0) (by simp)
      rw [List.getElem_cons_zero] at hrest
      simp only [List.head?_cons, ok_bind, hrest]
      rw [around_succ]
      simp

/-- A step around the reversed list undoes a step around the list. -/
theorem undo (h : GoesAround step xs) (hback : GoesAround back xs.reverse) {x : α} (hx : x ∈ xs) :
    ∃ y ∈ xs, step (some x) = .ok (some y) ∧ back (some y) = .ok (some x) := by
  obtain ⟨pre, post, rfl⟩ := List.append_of_mem hx
  have hstep := h.onward pre x post rfl
  cases post with
  | cons y post =>
    refine ⟨y, by simp, by simpa using hstep, ?_⟩
    rw [hback.onward post.reverse y (x :: pre.reverse) (by simp)]
    rfl
  | nil =>
    -- From the last element the step goes to the first one, and back.
    cases pre with
    | nil =>
      refine ⟨x, by simp, by simpa using hstep, ?_⟩
      rw [hback.onward [] x [] rfl]
      rfl
    | cons y pre =>
      refine ⟨y, by simp, by simpa using hstep, ?_⟩
      rw [hback.onward (x :: pre.reverse) y [] (by simp)]
      simp

end GoesAround

end Zui
