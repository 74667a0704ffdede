/-
Loops with a body that may fail.

`loop stuck body fuel s` runs `body` from the state `s` until it leaves with a
result, for at most `fuel` passes; running out of fuel is the error `stuck`.
The rules a proof uses instead of unfolding `loop`:

* `loop_spec`, `loop_variant` — total correctness from an invariant and a measure that
  every further pass decreases: with more fuel than the measure, the loop ends in a
  result that meets the postcondition;
* `loop_partial` — partial correctness from an invariant alone;
* `loop_fails` — a loop that is so many passes away from a failing body fails;
* `loop_mono` — a loop that ends does so with more fuel;
* `loop_map` — a body that is the image of another one under a map of states
  gives the image of its result, so two loops that differ only in what they
  carry along end alike.

`mapM_ok`, `foldlM_ok` and `foldlM_partial` are the corresponding rules for a pass over a list.

A trace of events grows at its end.  `Whenever trace b P` says that each time `b` happened, the
events before it had the property `P`; `firstBefore trace b` are the events in front of the first
`b`.  Both are settled once `b` has happened.
-/
import Mathlib

namespace Zui

/-- What one pass of a loop body asks for: another pass, or leaving the loop. -/
inductive Pass (σ β : Type)
  | next (s : σ)
  | done (b : β)

namespace Pass

variable {σ τ β γ : Type}

/-- Maps the state and the result of a pass. -/
def map (f : σ → τ) (g : β → γ) : Pass σ β → Pass τ γ
  | next s => next (f s)
  | done b => done (g b)

end Pass

@[simp] theorem ok_bind {ε α β : Type} (a : α) (f : α → Except ε β) :
    (Except.ok a >>= f) = f a := rfl

@[simp] theorem error_bind {ε α β : Type} (e : ε) (f : α → Except ε β) :
    (Except.error e >>= f) = Except.error e := rfl

theorem bind_eq_ok {ε α β : Type} {x : Except ε α} {f : α → Except ε β} {b : β} :
    (x >>= f) = .ok b ↔ ∃ a, x = .ok a ∧ f a = .ok b := by
  cases x with
  | error e => simp
  | ok a => simp

section Passes

variable {ε α β : Type}

/-- A pass over a list that succeeds on each element collects the results. -/
theorem mapM_ok {f : α → Except ε β} {P : α → β → Prop} : ∀ {xs : List α},
    (∀ x ∈ xs, ∃ y, f x = .ok y ∧ P x y) →
      ∃ ys, xs.mapM f = .ok ys ∧ List.Forall₂ P xs ys := by
  intro xs
  induction xs with
  | nil =>
    intro _
    exact ⟨[], rfl, .nil⟩
  | cons x xs ih =>
    intro h
    obtain ⟨y, hy, hp⟩ := h x (by simp)
    obtain ⟨ys, hys, hps⟩ := ih fun x' hx' => h x' (by simp [hx'])
    refine ⟨y :: ys, ?_, .cons hp hps⟩
    rw [List.mapM_cons, hy, ok_bind, hys]
    rfl

/-- A fold that keeps a property of the elements consumed so far. -/
theorem foldlM_ok {f : β → α → Except ε β} (P : List α → β → Prop) : ∀ {xs done : List α},
    (∀ done b, ∀ x ∈ xs, P done b → ∃ b', f b x = .ok b' ∧ P (done ++ [x]) b') →
      ∀ {b : β}, P done b → ∃ b', xs.foldlM f b = .ok b' ∧ P (done ++ xs) b' := by
  intro xs
  induction xs with
  | nil =>
    intro done _ b h
    exact ⟨b, rfl, by simpa using h⟩
  | cons x xs ih =>
    intro done hstep b h
    obtain ⟨b', hb', hP⟩ := hstep done b x (by simp) h
    obtain ⟨c, hc, hPc⟩ := ih (fun d b x' hx' => hstep d b x' (by simp [hx'])) hP
    refine ⟨c, ?_, by simpa using hPc⟩
    rw [List.foldlM_cons, hb', ok_bind, hc]

/-- Partial correctness of a fold. -/
theorem foldlM_partial {f : β → α → Except ε β} (P : β → Prop)
    (hstep : ∀ b x b', P b → f b x = .ok b' → P b') :
    ∀ {xs : List α} {b b' : β}, P b → xs.foldlM f b = .ok b' → P b' := by
  intro xs
  induction xs with
  | nil =>
    intro b b' h hrun
    rwa [← Except.ok.inj hrun]
  | cons x xs ih =>
    intro b b' h hrun
    rw [List.foldlM_cons] at hrun
    obtain ⟨b₁, hb₁, hrest⟩ := bind_eq_ok.mp hrun
    exact ih (hstep b x b₁ h hb₁) hrest

end Passes

section Loop

variable {ε σ τ β γ : Type}

/-- A `while` loop with `fuel` passes. -/
def loop (stuck : ε) (body : σ → Except ε (Pass σ β)) : ℕ → σ → Except ε β
  | 0, _ => .error stuck
  | fuel + 1, s => do
    match ← body s with
    | .next s' => loop stuck body fuel s'
    | .done b => .ok b

variable {stuck : ε} {body : σ → Except ε (Pass σ β)}

theorem loop_zero {s : σ} : loop stuck body 0 s = .error stuck := rfl

theorem loop_next {fuel : ℕ} {s s' : σ} (h : body s = .ok (.next s')) :
    loop stuck body (fuel + 1) s = loop stuck body fuel s' := by
  show (body s >>= _) = _
  rw [h]; rfl

theorem loop_done {fuel : ℕ} {s : σ} {b : β} (h : body s = .ok (.done b)) :
    loop stuck body (fuel + 1) s = .ok b := by
  show (body s >>= _) = _
  rw [h]; rfl

theorem loop_error {fuel : ℕ} {s : σ} {e : ε} (h : body s = .error e) :
    loop stuck body (fuel + 1) s = .error e := by
  show (body s >>= _) = _
  rw [h]; rfl

theorem loop_congr {fuel : ℕ} {s s' : σ} (h : body s = body s') :
    loop stuck body fuel s = loop stuck body fuel s' := by
  cases fuel with
  | zero => rfl
  | succ fuel =>
    show (body s >>= _) = body s' >>= _
    rw [h]

/-- Total correctness of a loop, with a variant that need not be read off the state. -/
theorem loop_variant (Inv : ℕ → σ → Prop) (Post : β → Prop)
    (hbody : ∀ n s, Inv n s →
      (∃ s' m, body s = .ok (.next s') ∧ m < n ∧ Inv m s') ∨
      (∃ b, body s = .ok (.done b) ∧ Post b)) :
    ∀ {fuel n : ℕ} {s : σ}, Inv n s → n < fuel → ∃ b, loop stuck body fuel s = .ok b ∧ Post b := by
  intro fuel
  induction fuel with
  | zero =>
    intro n s _ hlt
    exact absurd hlt (Nat.not_lt_zero _)
  | succ fuel ih =>
    intro n s hs hlt
    rcases hbody n s hs with ⟨s', m, hb, hm, hs'⟩ | ⟨b, hb, hpost⟩
    · obtain ⟨b, hrun, hpost⟩ := ih hs' (by omega)
      exact ⟨b, (loop_next hb).trans hrun, hpost⟩
    · exact ⟨b, loop_done hb, hpost⟩

/-- Total correctness of a loop. -/
theorem loop_spec (Inv : σ → Prop) (μ : σ → ℕ) (Post : β → Prop)
    (hbody : ∀ s, Inv s →
      (∃ s', body s = .ok (.next s') ∧ Inv s' ∧ μ s' < μ s) ∨
      (∃ b, body s = .ok (.done b) ∧ Post b))
    {fuel : ℕ} {s : σ} (hs : Inv s) (hlt : μ s < fuel) :
    ∃ b, loop stuck body fuel s = .ok b ∧ Post b := by
  refine loop_variant (fun n s => Inv s ∧ μ s = n) Post ?_ ⟨hs, rfl⟩ hlt
  rintro n s ⟨hs, rfl⟩
  rcases hbody s hs with ⟨s', hb, hs', hμ⟩ | hdone
  · exact Or.inl ⟨s', μ s', hb, hμ, hs', rfl⟩
  · exact Or.inr hdone

/-- Partial correctness of a loop: what the passes keep holds until one is done. -/
theorem loop_partial (Inv : σ → Prop) (Post : β → Prop)
    (hnext : ∀ s s', Inv s → body s = .ok (.next s') → Inv s')
    (hdone : ∀ s b, Inv s → body s = .ok (.done b) → Post b) :
    ∀ {fuel : ℕ} {s : σ} {b : β}, Inv s → loop stuck body fuel s = .ok b → Post b := by
  intro fuel
  induction fuel with
  | zero =>
    intro s b _ h
    exact absurd h (by simp [loop_zero])
  | succ fuel ih =>
    intro s b hs h
    rcases hb : body s with e | p
    · rw [loop_error hb] at h
      exact absurd h (by simp)
    · cases p with
      | next s' =>
        rw [loop_next hb] at h
        exact ih (hnext s s' hs hb) h
      | done b' =>
        rw [loop_done hb] at h
        cases h
        exact hdone s b hs hb

/-- A loop that fails after `n` passes: `P n` holds of the states that are `n` passes
away from the failure. -/
theorem loop_fails {e : ε} (P : ℕ → σ → Prop)
    (hstep : ∀ n s, P (n + 1) s → ∃ s', body s = .ok (.next s') ∧ P n s')
    (hend : ∀ s, P 0 s → body s = .error e) :
    ∀ {n fuel : ℕ} {s : σ}, P n s → n < fuel → loop stuck body fuel s = .error e := by
  intro n
  induction n with
  | zero =>
    intro fuel s hs hlt
    obtain ⟨fuel, rfl⟩ := Nat.exists_eq_succ_of_ne_zero (Nat.ne_of_gt hlt)
    exact loop_error (hend s hs)
  | succ n ih =>
    intro fuel s hs hlt
    obtain ⟨fuel, rfl⟩ := Nat.exists_eq_succ_of_ne_zero (Nat.ne_of_gt (Nat.zero_lt_of_lt hlt))
    obtain ⟨s', hb, hs'⟩ := hstep n s hs
    exact (loop_next hb).trans (ih hs' (by omega))

/-- A loop that ends does so with more fuel, and with a body that goes as far. -/
theorem loop_mono {body' : σ → Except ε (Pass σ β)}
    (hbody : ∀ s p, body s = .ok p → body' s = .ok p) :
    ∀ {fuel fuel' : ℕ} {s : σ} {b : β}, loop stuck body fuel s = .ok b → fuel ≤ fuel' →
      loop stuck body' fuel' s = .ok b := by
  intro fuel
  induction fuel with
  | zero =>
    intro fuel' s b h _
    exact absurd h (by simp [loop_zero])
  | succ fuel ih =>
    intro fuel' s b h hle
    obtain ⟨fuel', rfl⟩ := Nat.exists_eq_succ_of_ne_zero (Nat.ne_of_gt (Nat.zero_lt_of_lt hle))
    rcases hb : body s with e | p
    · rw [loop_error hb] at h
      exact absurd h (by simp)
    · cases p with
      | next s' =>
        rw [loop_next hb] at h
        rw [loop_next (hbody s _ hb)]
        exact ih h (by omega)
      | done b' =>
        rw [loop_done hb] at h
        cases h
        exact loop_done (hbody s _ hb)

/-- A loop over the image of its states gives the image of its result. -/
theorem loop_map {body' : τ → Except ε (Pass τ γ)} (f : σ → τ) (g : β → γ)
    (hbody : ∀ s p, body s = .ok p → body' (f s) = .ok (p.map f g)) :
    ∀ {fuel : ℕ} {s : σ} {b : β}, loop stuck body fuel s = .ok b →
      loop stuck body' fuel (f s) = .ok (g b) := by
  intro fuel
  induction fuel with
  | zero =>
    intro s b h
    exact absurd h (by simp [loop_zero])
  | succ fuel ih =>
    intro s b h
    rcases hb : body s with e | p
    · rw [loop_error hb] at h
      exact absurd h (by simp)
    · cases p with
      | next s' =>
        rw [loop_next hb] at h
        rw [loop_next (hbody s _ hb)]
        exact ih h
      | done b' =>
        rw [loop_done hb] at h
        cases h
        exact loop_done (hbody s _ hb)

end Loop

/-! ### Traces of events -/

section Traces

variable {E : Type} {trace new : List E} {a b : E}

/-- Whenever `b` happened, the events before it had the property. -/
def Whenever (trace : List E) (b : E) (P : List E → Prop) : Prop :=
  ∀ pre post, trace = pre ++ b :: post → P pre

theorem Whenever.append {P : List E → Prop} (h : Whenever trace b P)
    (hnew : ∀ pre post, new = pre ++ b :: post → P (trace ++ pre)) :
    Whenever (trace ++ new) b P := by
  intro pre post hsplit
  rcases List.append_eq_append_iff.mp hsplit with ⟨mid, hpre, hmid⟩ | ⟨mid, htrace, hmid⟩
  · -- It happened among the new events.
    rw [hpre]
    exact hnew mid post hmid
  · cases mid with
    | nil =>
      have htrace' : trace = pre := by simpa using htrace
      have := hnew [] post (by simpa using hmid.symm)
      rwa [htrace', List.append_nil] at this
    | cons e mid =>
      obtain ⟨rfl, -⟩ := List.cons.inj hmid
      exact h pre mid htrace

theorem Whenever.append_of_notMem {P : List E → Prop} (h : Whenever trace b P) (hb : b ∉ new) :
    Whenever (trace ++ new) b P :=
  h.append fun pre post hsplit => absurd (by simp [hsplit]) hb

variable [DecidableEq E]

/-- The events in front of the first `b`. -/
def firstBefore (trace : List E) (b : E) : List E :=
  trace.takeWhile fun e => e ≠ b

theorem firstBefore_append (hb : b ∈ trace) :
    firstBefore (trace ++ new) b = firstBefore trace b := by
  obtain ⟨pre, post, rfl⟩ := List.append_of_mem hb
  induction pre with
  | nil => simp [firstBefore]
  | cons e pre ih =>
    by_cases he : e = b
    · simp [firstBefore, he]
    · have := ih (by simp)
      simpa [firstBefore, he] using this

theorem firstBefore_of_notMem (hb : b ∉ trace) : firstBefore (trace ++ b :: new) b = trace := by
  rw [firstBefore, List.takeWhile_append_of_pos]
  · simp
  · intro e he
    simp only [ne_eq, decide_eq_true_eq]
    rintro rfl
    exact hb he

end Traces

end Zui
