/-
Computations that agree.

Two computations may be written with operations that differ, and yet be one because the operations
agree on the values that occur.  `Agrees` keeps what is known of these values beside the equation,
so that it goes through a bind, a fold and a loop.

* `Agrees.bind`, `Agrees.mapM`, `Agrees.foldlM`, `Agrees.loop` — agreement of composed computations.
-/
import Zui.Library.Loop

namespace Zui

variable {ε α β σ : Type}

/-- Two computations are one, and what it returns has a property. -/
structure Agrees (P : α → Prop) (x y : Except ε α) : Prop where
  eq : x = y
  post : ∀ a, y = .ok a → P a

/-- A pass goes on in a state with one property, or is done with a result with another. -/
def Pass.Holds (Inv : σ → Prop) (Post : β → Prop) : Pass σ β → Prop
  | next s => Inv s
  | done b => Post b

namespace Agrees

variable {P : α → Prop} {Q : β → Prop} {x y : Except ε α}

theorem ok {a : α} (h : P a) : Agrees P (.ok a : Except ε α) (.ok a) :=
  ⟨rfl, fun _ heq => Except.ok.inj heq ▸ h⟩

theorem error (e : ε) : Agrees P (.error e) (.error e) := ⟨rfl, fun _ heq => by cases heq⟩

theorem bind {f g : α → Except ε β} (h : Agrees P x y) (hrest : ∀ a, P a → Agrees Q (f a) (g a)) :
    Agrees Q (x >>= f) (y >>= g) := by
  obtain ⟨rfl, hpost⟩ := h
  cases x with
  | error e => exact error e
  | ok a => exact hrest a (hpost a rfl)

theorem mapM {f g : β → Except ε α} : ∀ {xs : List β}, (∀ x ∈ xs, Agrees P (f x) (g x)) →
    Agrees (fun ys => ∀ y ∈ ys, P y) (xs.mapM f) (xs.mapM g) := by
  intro xs
  induction xs with
  | nil => exact fun _ => ok (by simp)
  | cons x xs ih =>
    intro h
    rw [List.mapM_cons, List.mapM_cons]
    refine (h x List.mem_cons_self).bind fun y hy => ?_
    refine (ih fun x' hx' => h x' (List.mem_cons_of_mem _ hx')).bind fun ys hys => ok ?_
    exact List.forall_mem_cons.mpr ⟨hy, hys⟩

theorem foldlM {f g : α → β → Except ε α} : ∀ {xs : List β} {a : α}, P a →
    (∀ a, P a → ∀ x ∈ xs, Agrees P (f a x) (g a x)) →
      Agrees P (xs.foldlM f a) (xs.foldlM g a) := by
  intro xs
  induction xs with
  | nil => exact fun ha _ => ok ha
  | cons x xs ih =>
    intro a ha h
    rw [List.foldlM_cons, List.foldlM_cons]
    exact (h a ha x List.mem_cons_self).bind fun a' ha' =>
      ih ha' fun b hb x' hx' => h b hb x' (List.mem_cons_of_mem _ hx')

/-- Loops agree if their bodies do in the states that the invariant allows. -/
theorem loop {stuck : ε} {body body' : σ → Except ε (Pass σ β)} {Inv : σ → Prop}
    (h : ∀ s, Inv s → Agrees (Pass.Holds Inv Q) (body s) (body' s)) :
    ∀ {fuel : ℕ} {s : σ}, Inv s → Agrees Q (Zui.loop stuck body fuel s)
      (Zui.loop stuck body' fuel s) := by
  intro fuel
  induction fuel with
  | zero => exact fun _ => error stuck
  | succ fuel ih =>
    intro s hs
    refine (h s hs).bind fun pass hpass => ?_
    cases pass with
    | next s' => exact ih hpass
    | done b => exact ok hpass

end Agrees

end Zui
