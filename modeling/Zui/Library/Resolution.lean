/-
Resolving the steps of a walk.

A walk through a tree goes `down` to a child, `up` to the parent, or `stay`s where it is.
`resolve kind steps` is the list of the downward steps that no later step takes back, or
nothing when the walk climbs above its start; `depth kind steps` only counts them.

* `resolve_append` — a walk goes on from where its first part ended;
* `resolve_eq_cons` — the first step that remains is the one after which the walk never
  comes back to its start for good;
* `depth_eq` — the depth is the number of steps that remain.
-/
import Mathlib

namespace Zui

/-- The three kinds of steps. -/
inductive Stride
  | stay
  | up
  | down
  deriving DecidableEq, Repr

section Resolution

variable {α : Type} (kind : α → Stride)

/-- One step from the place that `place` leads to. -/
def resolveStep (place : List α) (step : α) : Option (List α) :=
  match kind step with
  | .stay => some place
  | .down => some (place ++ [step])
  | .up => if place = [] then none else some place.dropLast

/-- The steps that remain of a walk from `place`. -/
def resolveFrom (place steps : List α) : Option (List α) :=
  steps.foldlM (resolveStep kind) place

/-- The steps that remain of a walk. -/
def resolve (steps : List α) : Option (List α) :=
  resolveFrom kind [] steps

/-- How deep one step from the depth `n` ends. -/
def depthStep (n : ℕ) (step : α) : Option ℕ :=
  match kind step with
  | .stay => some n
  | .down => some (n + 1)
  | .up => if n = 0 then none else some (n - 1)

/-- How deep a walk ends. -/
def depth (steps : List α) : Option ℕ :=
  steps.foldlM (depthStep kind) 0

variable {kind}

@[simp] theorem resolveFrom_nil {place : List α} : resolveFrom kind place [] = some place := rfl

theorem resolveFrom_cons {place steps : List α} {step : α} :
    resolveFrom kind place (step :: steps)
      = (resolveStep kind place step).bind fun place' => resolveFrom kind place' steps :=
  List.foldlM_cons

theorem resolveFrom_append {place steps steps' : List α} :
    resolveFrom kind place (steps ++ steps')
      = (resolveFrom kind place steps).bind fun place' => resolveFrom kind place' steps' :=
  List.foldlM_append

theorem resolve_append {steps steps' : List α} :
    resolve kind (steps ++ steps')
      = (resolve kind steps).bind fun place => resolveFrom kind place steps' :=
  resolveFrom_append

theorem resolveStep_stay {place : List α} {step : α} (h : kind step = .stay) :
    resolveStep kind place step = some place := by
  simp [resolveStep, h]

theorem resolveStep_down {place : List α} {step : α} (h : kind step = .down) :
    resolveStep kind place step = some (place ++ [step]) := by
  simp [resolveStep, h]

theorem resolveStep_up {place : List α} {step : α} (h : kind step = .up) :
    resolveStep kind place step = if place = [] then none else some place.dropLast := by
  simp [resolveStep, h]

theorem resolve_cons_stay {steps : List α} {step : α} (h : kind step = .stay) :
    resolve kind (step :: steps) = resolve kind steps := by
  rw [resolve, resolveFrom_cons, resolveStep_stay h]
  rfl

theorem resolve_concat_stay {steps : List α} {step : α} (h : kind step = .stay) :
    resolve kind (steps ++ [step]) = resolve kind steps := by
  rw [resolve_append]
  cases resolve kind steps with
  | none => rfl
  | some place =>
    show resolveFrom kind place [step] = some place
    rw [resolveFrom_cons, resolveStep_stay h]
    rfl

theorem resolveFrom_of_down {steps : List α} : ∀ place : List α,
    (∀ step ∈ steps, kind step = .down) → resolveFrom kind place steps = some (place ++ steps) := by
  induction steps with
  | nil =>
    intro place _
    simp
  | cons step steps ih =>
    intro place h
    rw [resolveFrom_cons, resolveStep_down (h step (by simp))]
    show resolveFrom kind (place ++ [step]) steps = _
    rw [ih _ fun s hs => h s (by simp [hs])]
    simp

theorem resolve_of_down {steps : List α} (h : ∀ step ∈ steps, kind step = .down) :
    resolve kind steps = some steps :=
  resolveFrom_of_down [] h

/-- What remains of a walk are steps down, and each of them is a step of the walk. -/
theorem of_mem_resolveFrom {steps : List α} : ∀ {place remaining : List α} {step : α},
    resolveFrom kind place steps = some remaining → step ∈ remaining →
      step ∈ place ∨ (step ∈ steps ∧ kind step = .down) := by
  induction steps with
  | nil =>
    intro place remaining step h hmem
    rw [resolveFrom_nil] at h
    rw [Option.some.inj h]
    exact .inl hmem
  | cons s steps ih =>
    intro place remaining step h hmem
    rw [resolveFrom_cons] at h
    obtain ⟨place', hplace, hrest⟩ := Option.bind_eq_some_iff.mp h
    rcases ih hrest hmem with hin | ⟨hin, hdown⟩
    · cases hkind : kind s with
      | stay =>
        rw [resolveStep_stay hkind] at hplace
        rw [Option.some.inj hplace]
        exact .inl hin
      | down =>
        rw [resolveStep_down hkind] at hplace
        rw [← Option.some.inj hplace, List.mem_append, List.mem_singleton] at hin
        rcases hin with hin | rfl
        · exact .inl hin
        · exact .inr ⟨by simp, hkind⟩
      | up =>
        rw [resolveStep_up hkind] at hplace
        split at hplace
        · cases hplace
        · rw [← Option.some.inj hplace] at hin
          exact .inl (List.mem_of_mem_dropLast hin)
    · exact .inr ⟨by simp [hin], hdown⟩

theorem of_mem_resolve {steps remaining : List α} {step : α}
    (h : resolve kind steps = some remaining) (hmem : step ∈ remaining) :
    step ∈ steps ∧ kind step = .down :=
  (of_mem_resolveFrom h hmem).resolve_left List.not_mem_nil

/-- A walk that does not climb above its start does the same below any place. -/
theorem resolveFrom_frame {steps : List α} : ∀ (base : List α) {place remaining : List α},
    resolveFrom kind place steps = some remaining →
      resolveFrom kind (base ++ place) steps = some (base ++ remaining) := by
  induction steps with
  | nil =>
    intro base place remaining h
    rw [resolveFrom_nil] at h
    rw [Option.some.inj h, resolveFrom_nil]
  | cons s steps ih =>
    intro base place remaining h
    rw [resolveFrom_cons] at h
    obtain ⟨place', hplace, hrest⟩ := Option.bind_eq_some_iff.mp h
    rw [resolveFrom_cons, Option.bind_eq_some_iff]
    refine ⟨base ++ place', ?_, ih base hrest⟩
    cases hkind : kind s with
    | stay =>
      rw [resolveStep_stay hkind] at hplace ⊢
      rw [Option.some.inj hplace]
    | down =>
      rw [resolveStep_down hkind] at hplace ⊢
      rw [← Option.some.inj hplace, List.append_assoc]
    | up =>
      rw [resolveStep_up hkind] at hplace ⊢
      split at hplace
      · cases hplace
      · rename_i hne
        rw [if_neg (by simp [hne]), ← Option.some.inj hplace,
          List.dropLast_append_of_ne_nil hne]

/-- **The first step that remains.** -/
theorem resolve_eq_cons {steps remaining : List α} {first : α} :
    resolve kind steps = some (first :: remaining) ↔
      ∃ before after, steps = before ++ first :: after ∧ kind first = .down ∧
        resolve kind before = some [] ∧ resolve kind after = some remaining := by
  constructor
  · intro h
    have hdown : kind first = .down := (of_mem_resolve h (by simp)).2
    -- by induction on the walk from its end: the last step changes what remains after `first`
    induction steps using List.reverseRecOn generalizing remaining with
    | nil => cases h
    | append_singleton steps s ih =>
      rw [resolve_append] at h
      obtain ⟨place, hplace, hlast⟩ := Option.bind_eq_some_iff.mp h
      rw [resolveFrom_cons] at hlast
      have hstep : resolveStep kind place s = some (first :: remaining) := by
        simpa using hlast
      -- what the walk without its last step gives, once `first` remains of it already
      have extend : ∀ {kept : List α}, place = first :: kept →
          resolveFrom kind kept [s] = some remaining →
            ∃ before after, steps ++ [s] = before ++ first :: after ∧ kind first = .down ∧
              resolve kind before = some [] ∧ resolve kind after = some remaining := by
        intro kept hkept hend
        obtain ⟨before, after, hsplit, -, hbefore, hafter⟩ := ih (hkept ▸ hplace)
        refine ⟨before, after ++ [s], by simp [hsplit], hdown, hbefore, ?_⟩
        rw [resolve_append, hafter]
        exact hend
      cases hkind : kind s with
      | stay =>
        rw [resolveStep_stay hkind] at hstep
        refine extend (Option.some.inj hstep) ?_
        rw [resolveFrom_cons, resolveStep_stay hkind]
        rfl
      | down =>
        rw [resolveStep_down hkind] at hstep
        have hcons := Option.some.inj hstep
        cases place with
        | nil =>
          obtain ⟨rfl, rfl⟩ := List.cons.inj hcons
          exact ⟨steps, [], by simp, hdown, hplace, rfl⟩
        | cons p kept =>
          obtain ⟨rfl, rfl⟩ := List.cons.inj hcons
          refine extend rfl ?_
          rw [resolveFrom_cons, resolveStep_down hkind]
          rfl
      | up =>
        rw [resolveStep_up hkind] at hstep
        split at hstep
        · cases hstep
        · rename_i hne
          have hdrop := Option.some.inj hstep
          obtain ⟨top, hplace_eq⟩ : ∃ top, place = first :: (remaining ++ [top]) :=
            ⟨place.getLast hne, by
              rw [← List.cons_append, ← hdrop, List.dropLast_append_getLast]⟩
          refine extend hplace_eq ?_
          rw [resolveFrom_cons, resolveStep_up hkind, if_neg (by simp), List.dropLast_concat]
          rfl
  · rintro ⟨before, after, rfl, hdown, hbefore, hafter⟩
    rw [resolve_append, hbefore]
    show resolveFrom kind [] (first :: after) = _
    rw [resolveFrom_cons, resolveStep_down hdown]
    exact resolveFrom_frame [first] hafter

theorem depthStep_length {place : List α} {step : α} :
    depthStep kind place.length step = (resolveStep kind place step).map List.length := by
  cases hkind : kind step with
  | stay =>
    rw [resolveStep_stay hkind, depthStep, hkind]
    rfl
  | down =>
    rw [resolveStep_down hkind, depthStep, hkind]
    simp
  | up =>
    rw [resolveStep_up hkind, depthStep, hkind]
    by_cases h : place = []
    · simp [h]
    · simp [h]

theorem foldlM_depthStep {steps : List α} : ∀ place : List α,
    steps.foldlM (depthStep kind) place.length
      = (resolveFrom kind place steps).map List.length := by
  induction steps with
  | nil =>
    intro place
    rfl
  | cons s steps ih =>
    intro place
    rw [resolveFrom_cons, List.foldlM_cons, depthStep_length]
    cases resolveStep kind place s with
    | none => rfl
    | some place' => exact ih place'

/-- **Depth.**  The depth of a walk counts the steps that remain of it. -/
theorem depth_eq {steps : List α} : depth kind steps = (resolve kind steps).map List.length :=
  foldlM_depthStep []

end Resolution

end Zui
