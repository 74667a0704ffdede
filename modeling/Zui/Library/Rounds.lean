/-
Rounds over a list that grows.

A state has a number of items, and a visit to an item may add items at the end.  A round visits all
items that were added in the round before, in some order; `rounds` are run until there is nothing to
visit, for at most `depth` rounds.

* `Settling` — a visit finds its item fresh and settles it, and leaves the other items as they are;
* `Settling.rounds` — behind all rounds every item is settled, and a property of the visits is one
  of the items;
* `rounds_sum` — what the visits take from a total is the sum of what each of them takes;
* `Lockstep.rounds` — two states whose visits keep a relation are related behind all rounds.
-/
import Mathlib

namespace Zui

variable {σ M : Type} (len : σ → ℕ) (order : ℕ → ℕ → σ → List ℕ) (visit : ℕ → σ → σ)

/-- The items of a round, one after another. -/
def visits (items : List ℕ) (s : σ) : σ := items.foldl (fun s ix => visit ix s) s

/-- Rounds from the first item that has not been visited. -/
def rounds : ℕ → ℕ → σ → Option σ
  | 0, start, s => if start = len s then some s else none
  | depth + 1, start, s =>
    if start = len s then some s
    else rounds depth (len s) (visits visit (order start (len s) s) s)

/-- What the visits take from a total, each at its state. -/
def visitsSum [AddCommMonoid M] (taken : ℕ → σ → M) : List ℕ → σ → M
  | [], _ => 0
  | ix :: items, s => taken ix s + visitsSum taken items (visit ix s)

/-- What the visits of all rounds take. -/
def roundsSum [AddCommMonoid M] (taken : ℕ → σ → M) : ℕ → ℕ → σ → M
  | 0, _, _ => 0
  | depth + 1, start, s =>
    if start = len s then 0
    else visitsSum visit taken (order start (len s) s) s +
      roundsSum taken depth (len s) (visits visit (order start (len s) s) s)

/-- Every visit finds a state with the property. -/
def VisitsMeet (P : ℕ → σ → Prop) : List ℕ → σ → Prop
  | [], _ => True
  | ix :: items, s => P ix s ∧ VisitsMeet P items (visit ix s)

/-- Every visit of all rounds finds a state with the property. -/
def RoundsMeet (P : ℕ → σ → Prop) : ℕ → ℕ → σ → Prop
  | 0, _, _ => True
  | depth + 1, start, s =>
    if start = len s then True
    else VisitsMeet visit P (order start (len s) s) s ∧
      RoundsMeet P depth (len s) (visits visit (order start (len s) s) s)

@[simp] theorem visits_nil (s : σ) : visits visit [] s = s := rfl

@[simp] theorem visits_cons (ix : ℕ) (items : List ℕ) (s : σ) :
    visits visit (ix :: items) s = visits visit items (visit ix s) := rfl

/-! ### Settling items -/

/-- Visits to fresh items under the invariant `I`.  The item is settled behind its visit, and has
the property `D` exactly if the visit has `P`; other items stay fresh or settled, and new ones are
fresh. -/
structure Settling (I : σ → Prop) (Fresh Settled D P : ℕ → σ → Prop) : Prop where
  len_le : ∀ ix s, len s ≤ len (visit ix s)
  keep : ∀ ix s, I s → ix < len s → Fresh ix s → I (visit ix s)
  settle : ∀ ix s, I s → ix < len s → Fresh ix s →
    Settled ix (visit ix s) ∧ (P ix s ↔ D ix (visit ix s))
  added : ∀ ix s, I s → ix < len s → Fresh ix s → ∀ jx, len s ≤ jx → jx < len (visit ix s) →
    Fresh jx (visit ix s)
  fresh : ∀ ix s, I s → ix < len s → Fresh ix s → ∀ jx, jx ≠ ix → jx < len s → Fresh jx s →
    Fresh jx (visit ix s)
  settled : ∀ ix s, I s → ix < len s → Fresh ix s → ∀ jx, jx ≠ ix → jx < len s → Settled jx s →
    Settled jx (visit ix s) ∧ (D jx s ↔ D jx (visit ix s))

namespace Settling

variable {len order visit} {I : σ → Prop} {Fresh Settled D P : ℕ → σ → Prop}

/-- A round in which all items below a bound are in the rest of the round or settled. -/
theorem visits (h : Settling len visit I Fresh Settled D P) {bound : ℕ} {items : List ℕ} {s : σ}
    (hs : I s) (hnodup : items.Nodup) (hlt : ∀ ix ∈ items, ix < bound) (hbound : bound ≤ len s)
    (hfresh : ∀ ix ∈ items, Fresh ix s) (hsettled : ∀ ix < bound, ix ∉ items → Settled ix s)
    (hnew : ∀ ix, bound ≤ ix → ix < len s → Fresh ix s) :
    I (Zui.visits visit items s) ∧ bound ≤ len (Zui.visits visit items s) ∧
      (∀ ix < bound, Settled ix (Zui.visits visit items s)) ∧
      (∀ ix, bound ≤ ix → ix < len (Zui.visits visit items s) →
        Fresh ix (Zui.visits visit items s)) ∧
      (VisitsMeet visit P items s ∧ (∀ ix < bound, ix ∉ items → D ix s) ↔
        ∀ ix < bound, D ix (Zui.visits visit items s)) := by
  induction items generalizing s with
  | nil =>
    refine ⟨hs, hbound, fun ix hix => hsettled ix hix List.not_mem_nil, hnew, ?_⟩
    simp [VisitsMeet]
  | cons ix items ih =>
    have hix : ix < bound := hlt ix List.mem_cons_self
    have hixlen : ix < len s := hix.trans_le hbound
    have hixfresh : Fresh ix s := hfresh ix List.mem_cons_self
    have hnotin : ix ∉ items := (List.nodup_cons.mp hnodup).1
    have hother : ∀ jx ∈ items, jx ≠ ix := by
      rintro jx hjx rfl
      exact hnotin hjx
    -- the first visit settles its item
    obtain ⟨hixsettled, hmeets⟩ := h.settle ix s hs hixlen hixfresh
    -- and leaves what was settled before as it was
    have hkept : ∀ jx < bound, jx ∉ items → jx ≠ ix →
        Settled jx (visit ix s) ∧ (D jx s ↔ D jx (visit ix s)) := by
      intro jx hjx hout hne
      refine h.settled ix s hs hixlen hixfresh jx hne (hjx.trans_le hbound) ?_
      exact hsettled jx hjx (by simp [hne, hout])
    obtain ⟨hI, hlen, hall, hnew', hiff⟩ := ih (h.keep ix s hs hixlen hixfresh)
      (List.nodup_cons.mp hnodup).2 (fun jx hjx => hlt jx (List.mem_cons_of_mem ix hjx))
      (hbound.trans (h.len_le ix s))
      (fun jx hjx => h.fresh ix s hs hixlen hixfresh jx (hother jx hjx)
        ((hlt jx (List.mem_cons_of_mem ix hjx)).trans_le hbound)
        (hfresh jx (List.mem_cons_of_mem ix hjx)))
      (fun jx hjx hout => by
        by_cases heq : jx = ix
        · exact heq ▸ hixsettled
        · exact (hkept jx hjx hout heq).1)
      (fun jx hjx hlt' => by
        by_cases hold : jx < len s
        · exact h.fresh ix s hs hixlen hixfresh jx (fun heq => absurd hix (by omega)) hold
            (hnew jx hjx hold)
        · exact h.added ix s hs hixlen hixfresh jx (Nat.not_lt.mp hold) hlt')
    refine ⟨hI, hlen, hall, hnew', ?_⟩
    rw [visits_cons, ← hiff, VisitsMeet]
    constructor
    · rintro ⟨⟨hP, hrest⟩, hD⟩
      refine ⟨hrest, ?_⟩
      intro jx hjx hout
      by_cases heq : jx = ix
      · exact heq ▸ hmeets.mp hP
      · exact (hkept jx hjx hout heq).2.mp (hD jx hjx (by simp [heq, hout]))
    · rintro ⟨hrest, hD⟩
      refine ⟨⟨hmeets.mpr (hD ix hix hnotin), hrest⟩, ?_⟩
      intro jx hjx hout
      obtain ⟨hne, hout'⟩ := not_or.mp (List.mem_cons.not.mp hout)
      exact (hkept jx hjx hout' hne).2.mpr (hD jx hjx hout')

/-- All rounds. -/
theorem rounds (h : Settling len visit I Fresh Settled D P)
    (hnodup : ∀ first last s, (order first last s).Nodup)
    (horder : ∀ first last s ix, ix ∈ order first last s ↔ first ≤ ix ∧ ix < last)
    {depth start : ℕ} {s t : σ} (hs : I s) (hstart : start ≤ len s)
    (hsettled : ∀ ix < start, Settled ix s) (hfresh : ∀ ix, start ≤ ix → ix < len s → Fresh ix s)
    (hrounds : Zui.rounds len order visit depth start s = some t) :
    I t ∧ (∀ ix < len t, Settled ix t) ∧
      (RoundsMeet len order visit P depth start s ∧ (∀ ix < start, D ix s) ↔
        ∀ ix < len t, D ix t) := by
  induction depth generalizing start s with
  | zero =>
    rw [Zui.rounds] at hrounds
    split at hrounds
    · rename_i heq
      obtain rfl := Option.some.inj hrounds
      subst heq
      exact ⟨hs, hsettled, and_iff_right trivial⟩
    · exact absurd hrounds (by simp)
  | succ depth ih =>
    rw [Zui.rounds] at hrounds
    rw [RoundsMeet]
    split at hrounds
    · rename_i heq
      obtain rfl := Option.some.inj hrounds
      rw [if_pos heq]
      subst heq
      exact ⟨hs, hsettled, and_iff_right trivial⟩
    · rename_i hne
      rw [if_neg hne]
      have hout : ∀ ix < len s, ix ∉ order start (len s) s ↔ ix < start := by
        intro ix hix
        rw [horder]
        omega
      obtain ⟨hI, hlen, hall, hnew, hiff⟩ := h.visits hs (hnodup start (len s) s)
        (fun ix hix => ((horder _ _ _ ix).mp hix).2) le_rfl
        (fun ix hix => hfresh ix ((horder _ _ _ ix).mp hix).1 ((horder _ _ _ ix).mp hix).2)
        (fun ix hix hnot => hsettled ix ((hout ix hix).mp hnot))
        (fun ix hle hlt => absurd hlt (Nat.not_lt.mpr hle))
      obtain ⟨hI', hall', hiff'⟩ := ih hI hlen hall hnew hrounds
      refine ⟨hI', hall', ?_⟩
      rw [← hiff', ← hiff]
      constructor
      · rintro ⟨⟨hround, hrest⟩, hD⟩
        exact ⟨hrest, hround, fun ix hix hnot => hD ix ((hout ix hix).mp hnot)⟩
      · rintro ⟨hrest, hround, hD⟩
        refine ⟨⟨hround, hrest⟩, ?_⟩
        intro ix hix
        exact hD ix (hix.trans_le hstart) ((hout ix (hix.trans_le hstart)).mpr hix)

end Settling

/-! ### Totals -/

section Sum

variable {len order visit} [AddCommMonoid M] {I : σ → Prop} {taken : ℕ → σ → M}

/-- What a round takes from a total is the sum of what its visits take. -/
theorem visits_sum {total : σ → M} (hvisit : ∀ ix s, I s → I (visit ix s))
    (htaken : ∀ ix s, I s → total (visit ix s) + taken ix s = total s) {items : List ℕ} {s : σ}
    (hs : I s) :
    I (visits visit items s) ∧
      total (visits visit items s) + visitsSum visit taken items s = total s := by
  induction items generalizing s with
  | nil => exact ⟨hs, add_zero _⟩
  | cons ix items ih =>
    obtain ⟨hkept, hsum⟩ := ih (hvisit ix s hs)
    refine ⟨hkept, ?_⟩
    rw [visits_cons, visitsSum, ← htaken ix s hs, ← hsum]
    exact (add_left_comm _ _ _).trans (add_comm _ _)

/-- What the rounds take from a total is the sum of what the visits take. -/
theorem rounds_sum {total : σ → M} (hvisit : ∀ ix s, I s → I (visit ix s))
    (htaken : ∀ ix s, I s → total (visit ix s) + taken ix s = total s) {depth start : ℕ} {s t : σ}
    (hs : I s) (hrounds : rounds len order visit depth start s = some t) :
    total t + roundsSum len order visit taken depth start s = total s := by
  induction depth generalizing start s with
  | zero =>
    rw [rounds] at hrounds
    split at hrounds
    · rw [← Option.some.inj hrounds]
      exact add_zero _
    · exact absurd hrounds (by simp)
  | succ depth ih =>
    rw [rounds] at hrounds
    split at hrounds
    · rename_i heq
      rw [← Option.some.inj hrounds, roundsSum, if_pos heq]
      exact add_zero _
    · rename_i hne
      have hround : I (visits visit (order start (len s) s) s) ∧
          total (visits visit (order start (len s) s) s) +
            visitsSum visit taken (order start (len s) s) s = total s :=
        visits_sum hvisit htaken hs
      obtain ⟨hkept, hsum⟩ := hround
      rw [roundsSum, if_neg hne, ← hsum, ← ih hkept hrounds]
      exact (add_left_comm _ _ _).trans (add_comm _ _)

theorem roundsSum_eq_zero (hvisit : ∀ ix s, I s → I (visit ix s))
    (htaken : ∀ ix s, I s → taken ix s = 0) {s : σ} (hs : I s) (depth start : ℕ) :
    roundsSum len order visit taken depth start s = 0 := by
  have hround : ∀ (items : List ℕ) (s : σ), I s →
      visitsSum visit taken items s = 0 ∧ I (visits visit items s) := by
    intro items
    induction items with
    | nil => exact fun s hs => ⟨rfl, hs⟩
    | cons ix items ih =>
      intro s hs
      obtain ⟨hzero, hkept⟩ := ih (visit ix s) (hvisit ix s hs)
      exact ⟨by rw [visitsSum, htaken ix s hs, hzero, add_zero], hkept⟩
  induction depth generalizing start s with
  | zero => rfl
  | succ depth ih =>
    rw [roundsSum]
    split
    · rfl
    · obtain ⟨hzero, hkept⟩ := hround (order start (len s) s) s hs
      rw [hzero, ih hkept, add_zero]

end Sum

variable {len order visit} in
theorem roundsMeet_of_sum_eq_zero [AddCommMonoid M] [Subsingleton (AddUnits M)]
    {taken : ℕ → σ → M} {depth start : ℕ} {s : σ}
    (h : roundsSum len order visit taken depth start s = 0) :
    RoundsMeet len order visit (fun ix s => taken ix s = 0) depth start s := by
  have hround : ∀ (items : List ℕ) (s : σ), visitsSum visit taken items s = 0 →
      VisitsMeet visit (fun ix s => taken ix s = 0) items s := by
    intro items
    induction items with
    | nil => exact fun _ _ => trivial
    | cons ix items ih =>
      intro s hsum
      obtain ⟨hzero, hrest⟩ := add_eq_zero.mp hsum
      exact ⟨hzero, ih _ hrest⟩
  induction depth generalizing start s with
  | zero => trivial
  | succ depth ih =>
    rw [roundsSum] at h
    rw [RoundsMeet]
    split at h
    · rename_i heq
      rw [if_pos heq]
      trivial
    · rename_i hne
      obtain ⟨hzero, hrest⟩ := add_eq_zero.mp h
      rw [if_neg hne]
      exact ⟨hround _ _ hzero, ih hrest⟩

variable {len order visit} in
/-- Visits that meet two properties. -/
theorem RoundsMeet.and {P Q : ℕ → σ → Prop} {depth start : ℕ} {s : σ}
    (h : RoundsMeet len order visit P depth start s)
    (h' : RoundsMeet len order visit Q depth start s) :
    RoundsMeet len order visit (fun ix s => P ix s ∧ Q ix s) depth start s := by
  have hround : ∀ (items : List ℕ) (s : σ), VisitsMeet visit P items s →
      VisitsMeet visit Q items s → VisitsMeet visit (fun ix s => P ix s ∧ Q ix s) items s := by
    intro items
    induction items with
    | nil => exact fun _ _ _ => trivial
    | cons ix items ih => exact fun s h h' => ⟨⟨h.1, h'.1⟩, ih _ h.2 h'.2⟩
  induction depth generalizing start s with
  | zero => trivial
  | succ depth ih =>
    rw [RoundsMeet] at h h' ⊢
    split
    · trivial
    · rename_i hne
      rw [if_neg hne] at h h'
      exact ⟨hround _ _ h.1 h'.1, ih h.2 h'.2⟩

/-! ### Two runs -/

/-- Visits to two states in step: the relation `R` is kept by a visit that finds the first state
with `P` and the item fresh in the second. -/
structure Lockstep (R : σ → σ → Prop) (P Fresh : ℕ → σ → Prop) : Prop where
  len_eq : ∀ s t, R s t → len s = len t
  order_eq : ∀ s t, R s t → ∀ first last, order first last s = order first last t
  len_le : ∀ ix s, len s ≤ len (visit ix s)
  keep : ∀ ix s t, R s t → ix < len t → P ix s → Fresh ix t → R (visit ix s) (visit ix t)
  added : ∀ ix s t, R s t → Fresh ix t → ∀ jx, len t ≤ jx → jx < len (visit ix t) →
    Fresh jx (visit ix t)
  fresh : ∀ ix t jx, jx ≠ ix → Fresh jx t → Fresh jx (visit ix t)

namespace Lockstep

variable {len order visit} {R : σ → σ → Prop} {P Fresh : ℕ → σ → Prop}

/-- A round. -/
theorem visits (h : Lockstep len order visit R P Fresh) {bound : ℕ} {items : List ℕ} {s t : σ}
    (hR : R s t) (hnodup : items.Nodup) (hlt : ∀ ix ∈ items, ix < bound) (hbound : bound ≤ len t)
    (hfresh : ∀ ix ∈ items, Fresh ix t) (hnew : ∀ ix, bound ≤ ix → ix < len t → Fresh ix t)
    (hmeet : VisitsMeet visit P items s) :
    R (Zui.visits visit items s) (Zui.visits visit items t) ∧
      bound ≤ len (Zui.visits visit items t) ∧
      ∀ ix, bound ≤ ix → ix < len (Zui.visits visit items t) →
        Fresh ix (Zui.visits visit items t) := by
  induction items generalizing s t with
  | nil => exact ⟨hR, hbound, hnew⟩
  | cons ix items ih =>
    have hix : ix < bound := hlt ix List.mem_cons_self
    have hixfresh : Fresh ix t := hfresh ix List.mem_cons_self
    have hnotin : ix ∉ items := (List.nodup_cons.mp hnodup).1
    refine ih (h.keep ix s t hR (hix.trans_le hbound) hmeet.1 hixfresh)
      (List.nodup_cons.mp hnodup).2 (fun jx hjx => hlt jx (List.mem_cons_of_mem ix hjx))
      (hbound.trans (h.len_le ix t)) ?_ ?_ hmeet.2
    · intro jx hjx
      have hne : jx ≠ ix := by
        rintro rfl
        exact hnotin hjx
      exact h.fresh ix t jx hne (hfresh jx (List.mem_cons_of_mem ix hjx))
    · intro jx hjx hlt'
      by_cases hold : jx < len t
      · exact h.fresh ix t jx (by omega) (hnew jx hjx hold)
      · exact h.added ix s t hR hixfresh jx (Nat.not_lt.mp hold) hlt'

/-- All rounds. -/
theorem rounds (h : Lockstep len order visit R P Fresh)
    (hnodup : ∀ first last s, (order first last s).Nodup)
    (horder : ∀ first last s ix, ix ∈ order first last s ↔ first ≤ ix ∧ ix < last)
    {depth start : ℕ} {s t s' : σ} (hR : R s t)
    (hfresh : ∀ ix, start ≤ ix → ix < len t → Fresh ix t)
    (hmeet : RoundsMeet len order visit P depth start s)
    (hrounds : Zui.rounds len order visit depth start s = some s') :
    ∃ t', Zui.rounds len order visit depth start t = some t' ∧ R s' t' := by
  induction depth generalizing start s t with
  | zero =>
    rw [Zui.rounds] at hrounds ⊢
    rw [← h.len_eq s t hR]
    split at hrounds
    · rename_i heq
      rw [if_pos heq]
      exact ⟨t, rfl, Option.some.inj hrounds ▸ hR⟩
    · exact absurd hrounds (by simp)
  | succ depth ih =>
    rw [Zui.rounds] at hrounds ⊢
    rw [RoundsMeet] at hmeet
    have hlen := h.len_eq s t hR
    have hitems := h.order_eq s t hR start (len s)
    rw [← hlen]
    split at hrounds
    · rename_i heq
      rw [if_pos heq]
      exact ⟨t, rfl, Option.some.inj hrounds ▸ hR⟩
    · rename_i hne
      rw [if_neg hne] at hmeet ⊢
      obtain ⟨hround, hlen', hnew⟩ := h.visits hR (hnodup start (len s) s)
        (fun ix hix => ((horder _ _ _ ix).mp hix).2) hlen.le
        (fun ix hix => hfresh ix ((horder _ _ _ ix).mp hix).1
          (hlen ▸ ((horder _ _ _ ix).mp hix).2))
        (fun ix hle hlt => absurd hlt (by omega)) hmeet.1
      rw [← hitems]
      exact ih hround hnew hmeet.2 hrounds

end Lockstep

end Zui
