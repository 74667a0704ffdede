/-
Values that are kept from one generation to the next.

A history tells which keys are used and which values are stored at keys, and where a
generation ends and the next one begins.  A value is `Kept` at its key while it is the one that
was stored last, as long as no generation passes in which the key is not used.

Each kind of event that is appended to a history changes what is kept in one way: `kept_use`,
`kept_store_self`, `kept_store_of_ne` and `kept_turn`.
-/
import Zui.Library.Separated

namespace Zui

/-- What happens to the values at keys. -/
inductive Keeping (κ : Type) (V : κ → Type)
  | use (key : κ)
  | store (key : κ) (value : V key)
  | turn

namespace Keeping

variable {κ : Type} {V : κ → Type} {key key' : κ} {value value' : V key}
  {history : List (Keeping κ V)}

/-- The key is used.  Storing a value at it is a use. -/
def Uses (key : κ) : Keeping κ V → Prop
  | use key' => key' = key
  | store key' _ => key' = key
  | turn => False

/-- The key is used in every generation that both begins and ends in the history. -/
def UsedThroughout (key : κ) (history : List (Keeping κ V)) : Prop :=
  ∀ before generation after, history = before ++ turn :: (generation ++ turn :: after) →
    turn ∉ generation → ∃ event ∈ generation, event.Uses key

/-- The key is used in the generation that goes on at the end of the history. -/
def UsedLast (key : κ) (history : List (Keeping κ V)) : Prop :=
  ∃ before generation, history = before ++ generation ∧ turn ∉ generation ∧
    ∃ event ∈ generation, event.Uses key

/-- The value was stored last at the key, which has been in use ever since. -/
def Kept (history : List (Keeping κ V)) (key : κ) (value : V key) : Prop :=
  ∃ past since, history = past ++ store key value :: since ∧
    (∀ value', store key value' ∉ since) ∧ UsedThroughout key since

/-! ### Use in the last generation -/

theorem not_usedLast_nil : ¬UsedLast key ([] : List (Keeping κ V)) := by
  rintro ⟨before, generation, hsplit, -, event, hevent, -⟩
  have hnil : generation = [] := (List.append_eq_nil_iff.mp hsplit.symm).2
  simp [hnil] at hevent

theorem not_usedLast_turn : ¬UsedLast key (history ++ [turn]) := by
  rintro ⟨before, generation, hsplit, hturn, event, hevent, -⟩
  rcases List.eq_nil_or_concat generation with rfl | ⟨front, last, rfl⟩
  · simp at hevent
  · rw [List.concat_eq_append, ← List.append_assoc] at hsplit
    have hlast := (List.append_inj' hsplit rfl).2
    simp only [List.cons.injEq, and_true] at hlast
    exact hturn (by simp [← hlast])

theorem usedLast_concat {event : Keeping κ V} (h : event ≠ turn) :
    UsedLast key (history ++ [event]) ↔ event.Uses key ∨ UsedLast key history := by
  constructor
  · rintro ⟨before, generation, hsplit, hturn, used, hused, huses⟩
    rcases List.eq_nil_or_concat generation with rfl | ⟨front, last, rfl⟩
    · simp at hused
    · rw [List.concat_eq_append] at hsplit hturn hused
      rw [← List.append_assoc] at hsplit
      obtain ⟨hhistory, hlast⟩ := List.append_inj' hsplit rfl
      simp only [List.cons.injEq, and_true] at hlast
      rcases List.mem_append.mp hused with hfront | hend
      · exact .inr ⟨before, front, hhistory, fun hmem => hturn (by simp [hmem]),
          used, hfront, huses⟩
      · refine .inl ?_
        rw [hlast, ← List.mem_singleton.mp hend]
        exact huses
  · rintro (huses | ⟨before, generation, rfl, hturn, used, hused, huses⟩)
    · exact ⟨history, [event], rfl, by simpa using h.symm, event, by simp, huses⟩
    · refine ⟨before, generation ++ [event], by simp, ?_, used, by simp [hused], huses⟩
      intro hmem
      rcases List.mem_append.mp hmem with hmem | hmem
      · exact hturn hmem
      · exact h (List.mem_singleton.mp hmem).symm

/-! ### Events that end a history -/

/-- A history that ends in `event` has one that ends in it behind every other event. -/
theorem split_concat {event stored : Keeping κ V} {past since : List (Keeping κ V)}
    (h : history ++ [event] = past ++ stored :: since) :
    (since = [] ∧ history = past ∧ event = stored) ∨
      ∃ front, since = front ++ [event] ∧ history = past ++ stored :: front := by
  rcases List.eq_nil_or_concat since with rfl | ⟨front, last, rfl⟩
  · obtain ⟨hhistory, hevent⟩ := List.append_inj' h rfl
    exact .inl ⟨rfl, hhistory, by simpa using hevent⟩
  · rw [List.concat_eq_append, ← List.cons_append, ← List.append_assoc] at h
    obtain ⟨hhistory, hevent⟩ := List.append_inj' h rfl
    simp only [List.cons.injEq, and_true] at hevent
    exact .inr ⟨front, by simp [hevent], hhistory⟩

theorem UsedThroughout.of_concat {event : Keeping κ V}
    (h : UsedThroughout key (history ++ [event])) : UsedThroughout key history := by
  intro before generation after hsplit
  exact h before generation (after ++ [event]) (by simp [hsplit])

theorem usedThroughout_concat {event : Keeping κ V} (hevent : event ≠ turn) :
    UsedThroughout key (history ++ [event]) ↔ UsedThroughout key history := by
  refine ⟨.of_concat, ?_⟩
  intro h before generation after hsplit
  rw [← List.cons_append, ← List.append_assoc] at hsplit
  rcases split_concat hsplit with ⟨-, -, hturn⟩ | ⟨front, -, hhistory⟩
  · exact absurd hturn hevent
  · exact h before generation front (by simpa using hhistory)

theorem not_kept_nil : ¬Kept [] key value := by
  rintro ⟨past, since, hsplit, -⟩
  simp at hsplit

/-- An event that neither stores at the key nor ends a generation leaves its value. -/
theorem kept_concat {event : Keeping κ V} (hturn : event ≠ turn)
    (hstore : ∀ value', event ≠ store key value') :
    Kept (history ++ [event]) key value ↔ Kept history key value := by
  constructor
  · rintro ⟨past, since, hsplit, hlast, hused⟩
    rcases split_concat hsplit with ⟨-, -, hevent⟩ | ⟨front, rfl, hhistory⟩
    · exact absurd hevent (hstore value)
    · exact ⟨past, front, hhistory, fun value' hmem => hlast value' (by simp [hmem]),
        hused.of_concat⟩
  · rintro ⟨past, since, rfl, hlast, hused⟩
    refine ⟨past, since ++ [event], by simp, ?_, (usedThroughout_concat hturn).mpr hused⟩
    intro value' hmem
    rcases List.mem_append.mp hmem with hmem | hmem
    · exact hlast value' hmem
    · exact hstore value' (List.mem_singleton.mp hmem).symm

theorem kept_use : Kept (history ++ [use key']) key value ↔ Kept history key value :=
  kept_concat (by simp) (by simp)

theorem kept_store_of_ne {stored : V key'} (h : key' ≠ key) :
    Kept (history ++ [store key' stored]) key value ↔ Kept history key value := by
  refine kept_concat (by simp) ?_
  intro value' heq
  injection heq with hkey
  exact h hkey

theorem kept_store_self : Kept (history ++ [store key value']) key value ↔ value' = value := by
  constructor
  · rintro ⟨past, since, hsplit, hlast, -⟩
    rcases split_concat hsplit with ⟨-, -, hevent⟩ | ⟨front, rfl, -⟩
    · injection hevent
    · exact absurd (by simp) (hlast value')
  · rintro rfl
    exact ⟨history, [], rfl, by simp, fun before generation after hsplit => by simp at hsplit⟩

/-- A generation without the key is followed by none that has a value for it. -/
theorem kept_turn :
    Kept (history ++ [turn]) key value ↔ Kept history key value ∧ UsedLast key history := by
  constructor
  · rintro ⟨past, since, hsplit, hlast, hused⟩
    rcases split_concat hsplit with ⟨-, -, hevent⟩ | ⟨front, rfl, rfl⟩
    · simp at hevent
    refine ⟨⟨past, front, rfl, fun value' hmem => hlast value' (by simp [hmem]),
      hused.of_concat⟩, ?_⟩
    -- The last generation begins in `front`, or it is the one in which the value was stored.
    by_cases hturn : turn ∈ front
    · obtain ⟨before, after, rfl, hafter⟩ := eq_append_last hturn
      obtain ⟨event, hevent, huses⟩ := hused before after [] (by simp) hafter
      exact ⟨past ++ store key value :: (before ++ [turn]), after, by simp, hafter, event,
        hevent, huses⟩
    · exact ⟨past, store key value :: front, rfl, by simp [hturn], store key value, by simp, rfl⟩
  · rintro ⟨⟨past, since, hhistory, hlast, hused⟩, before, generation, hsplit, hturn, event,
      hevent, huses⟩
    refine ⟨past, since ++ [turn], by simp [hhistory], ?_, ?_⟩
    · intro value' hmem
      rcases List.mem_append.mp hmem with hmem | hmem
      · exact hlast value' hmem
      · simp at hmem
    intro before' generation' after hsplit' hturn'
    rw [← List.cons_append, ← List.append_assoc] at hsplit'
    rcases split_concat hsplit' with ⟨-, hsince, -⟩ | ⟨front, -, hsince⟩
    · -- This generation is the last one of the history, and has the use of it.
      refine ⟨event, ?_, huses⟩
      rw [hsplit, hsince] at hhistory
      have hends : before ++ generation = (past ++ store key value :: before' ++ [turn]) ++
          generation' := by simpa using hhistory
      rcases List.append_eq_append_iff.mp hends with ⟨mid, hmid, hgeneration⟩ | ⟨mid, -, rfl⟩
      · rcases List.eq_nil_or_concat mid with rfl | ⟨front, last, rfl⟩
        · simpa [hgeneration] using hevent
        · rw [List.concat_eq_append, ← List.append_assoc] at hmid
          have hlast' := (List.append_inj' hmid rfl).2
          simp only [List.cons.injEq, and_true] at hlast'
          exact absurd (by simp [hgeneration, ← hlast']) hturn
      · simp [hevent]
    · exact hused before' generation' front (by simpa using hsince) hturn'

/-! ### Several uses -/

theorem kept_uses {keys : List κ} :
    Kept (history ++ keys.map use) key value ↔ Kept history key value := by
  induction keys using List.reverseRecOn with
  | nil => simp
  | append_singleton keys key' ih =>
    rw [List.map_append, List.map_singleton, ← List.append_assoc, kept_use, ih]

theorem usedLast_uses {keys : List κ} :
    UsedLast key (history ++ keys.map use) ↔ key ∈ keys ∨ UsedLast key history := by
  induction keys using List.reverseRecOn with
  | nil => simp
  | append_singleton keys key' ih =>
    rw [List.map_append, List.map_singleton, ← List.append_assoc, usedLast_concat (by simp), ih,
      List.mem_append, List.mem_singleton]
    show key' = key ∨ key ∈ keys ∨ UsedLast key history ↔ _
    constructor
    · rintro (h | h | h)
      · exact .inl (.inr h.symm)
      · exact .inl (.inl h)
      · exact .inr h
    · rintro ((h | h) | h)
      · exact .inr (.inl h)
      · exact .inl h.symm
      · exact .inr (.inr h)

end Keeping

end Zui
