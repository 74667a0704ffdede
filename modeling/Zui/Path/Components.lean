/-
Paths as lists of names.

A name is a text that may stand between two separators of a normalised path.  A path is
normalised if and only if it spells a list of names (`normalized_iff`), and what the
operations do to the text is what the list operations do to the names: `push` appends, `pop`
drops the last name, and the iterator takes names from both ends.

`collect_spec` says what the iterator gives on any text at all, and `foldlM_normalizeStep`
that the loop of `RelPath.new` resolves the components as a walk through the tree.
-/
import Zui.Path.Basic

namespace Zui.Path

open RelPath

/-- A component that a normalised path may have. -/
structure IsName (component : Text) : Prop where
  ne_nil : component ≠ []
  ne_dot : component ≠ ['.']
  ne_dots : component ≠ ['.', '.']
  separator_free : separator ∉ component

/-- The names of files and directories. -/
structure Name where
  text : Text
  isName : IsName text

/-- The text of components with separators between them. -/
def joined (components : List Text) : Text :=
  [separator].intercalate components

/-- The path of a list of names. -/
def spell (names : List Name) : RelPath :=
  ⟨joined (names.map Name.text)⟩

/-- A path is normalised. -/
def RelPath.Normalized (self : RelPath) : Prop :=
  self.text = [] ∨
    ∀ component ∈ self.text.splitOn separator,
      component ≠ [] ∧ component ≠ ['.'] ∧ component ≠ ['.', '.']

/-- What a component means for the walk through the directories. -/
def kind (component : Text) : Stride :=
  if component = [] ∨ component = ['.'] then .stay
  else if component = ['.', '.'] then .up
  else .down

/-! ### Names -/

theorem Name.separator_free (name : Name) : separator ∉ name.text :=
  name.isName.separator_free

@[simp] theorem spell_nil : spell [] = RelPath.empty := rfl

theorem join_names_eq_nil {names : List Name} : joined (names.map Name.text) = [] ↔ names = [] := by
  rw [joined, intercalate_eq_nil, List.map_eq_nil_iff]
  intro component h
  obtain ⟨name, -, rfl⟩ := List.mem_map.mp h
  exact name.isName.ne_nil

theorem isEmpty_spell {names : List Name} : (spell names).isEmpty = true ↔ names = [] := by
  rw [isEmpty, List.isEmpty_iff]
  exact join_names_eq_nil

theorem spell_append {names others : List Name} (h : names ≠ []) (h' : others ≠ []) :
    (spell (names ++ others)).text = (spell names).text ++ separator :: (spell others).text := by
  show joined ((names ++ others).map Name.text) = _
  rw [List.map_append, joined, intercalate_append (by simpa using h) (by simpa using h')]
  rfl

theorem spell_singleton (name : Name) : (spell [name]).text = name.text := by
  show joined [name.text] = name.text
  exact List.intercalate_singleton

theorem spell_concat {names : List Name} {name : Name} (h : names ≠ []) :
    (spell (names ++ [name])).text = (spell names).text ++ separator :: name.text := by
  rw [spell_append h (by simp), spell_singleton]

theorem spell_cons {names : List Name} {name : Name} (h : names ≠ []) :
    (spell (name :: names)).text = name.text ++ separator :: (spell names).text := by
  rw [← List.singleton_append, spell_append (by simp) h, spell_singleton]

theorem splitOn_spell {names : List Name} (h : names ≠ []) :
    (spell names).text.splitOn separator = names.map Name.text := by
  refine List.splitOn_intercalate separator ?_ (by simpa using h)
  intro component hmem
  obtain ⟨name, -, rfl⟩ := List.mem_map.mp hmem
  exact name.separator_free

theorem splitOn_separator_free (text : Text) : ∀ component ∈ text.splitOn separator,
    separator ∉ component := by
  intro component hmem hin
  rw [List.splitOn_eq_splitOnP] at hmem
  simpa using Zui.separator_free component hmem separator hin

theorem exists_names {components : List Text} (h : ∀ component ∈ components, IsName component) :
    ∃ names : List Name, names.map Name.text = components := by
  induction components with
  | nil => exact ⟨[], rfl⟩
  | cons component components ih =>
    obtain ⟨names, hnames⟩ := ih fun c hc => h c (by simp [hc])
    exact ⟨⟨component, h component (by simp)⟩ :: names, by simp [hnames]⟩

/-- **Normalised paths** are the paths that spell a list of names. -/
theorem normalized_iff {path : RelPath} : path.Normalized ↔ ∃ names, path = spell names := by
  constructor
  · rintro (hnil | hall)
    · exact ⟨[], RelPath.ext_iff.mpr hnil⟩
    · have hnames : ∀ component ∈ path.text.splitOn separator, IsName component := by
        intro component hmem
        obtain ⟨hnil, hdot, hdots⟩ := hall component hmem
        exact ⟨hnil, hdot, hdots, splitOn_separator_free path.text component hmem⟩
      obtain ⟨names, hnames⟩ := exists_names hnames
      refine ⟨names, ?_⟩
      show path = ⟨joined (names.map Name.text)⟩
      rw [hnames, joined, List.intercalate_splitOn]
  · rintro ⟨names, rfl⟩
    by_cases h : names = []
    · exact .inl (by rw [h]; rfl)
    · refine .inr ?_
      rw [splitOn_spell h]
      intro component hmem
      obtain ⟨name, -, rfl⟩ := List.mem_map.mp hmem
      exact ⟨name.isName.ne_nil, name.isName.ne_dot, name.isName.ne_dots⟩

/-! ### Taking names off -/

namespace RelPathComponents

@[simp] theorem next_nil : next ⟨[]⟩ = (none, ⟨[]⟩) := rfl

theorem next_append_cons {component text : Text} (h : separator ∉ component) :
    next ⟨component ++ separator :: text⟩ = (some component, ⟨text⟩) := by
  rw [next, idxOf?_append_cons h]
  simp

theorem next_of_free {text : Text} (h : separator ∉ text) (hne : text ≠ []) :
    next ⟨text⟩ = (some text, ⟨[]⟩) := by
  rw [next, List.idxOf?_eq_none_iff.mpr h]
  exact if_neg hne

theorem nextBack_append_cons {component text : Text} (h : separator ∉ component) :
    nextBack ⟨text ++ separator :: component⟩ = (some component, ⟨text⟩) := by
  rw [nextBack, lastIdxOf?_append_cons h]
  simp

theorem nextBack_of_free {text : Text} (h : separator ∉ text) (hne : text ≠ []) :
    nextBack ⟨text⟩ = (some text, ⟨[]⟩) := by
  rw [nextBack, lastIdxOf?_eq_none h]
  exact if_neg hne

theorem next_spell {name : Name} {names : List Name} :
    (spell (name :: names)).components.next = (some name.text, (spell names).components) := by
  by_cases h : names = []
  · subst h
    rw [components, spell_singleton]
    exact next_of_free name.separator_free name.isName.ne_nil
  · rw [components, spell_cons h]
    exact next_append_cons name.separator_free

theorem nextBack_spell {name : Name} {names : List Name} :
    (spell (names ++ [name])).components.nextBack
      = (some name.text, (spell names).components) := by
  by_cases h : names = []
  · subst h
    rw [components, List.nil_append, spell_singleton]
    exact nextBack_of_free name.separator_free name.isName.ne_nil
  · rw [components, spell_concat h]
    exact nextBack_append_cons name.separator_free

/-- What the iterator gives on any text: what the text is split into, but for the empty
component at the end. -/
theorem collectUpTo_spec {n : ℕ} : ∀ {text : Text}, text.length < n →
    (text.splitOn separator = collectUpTo n ⟨text⟩) ∨
      (text.splitOn separator = collectUpTo n ⟨text⟩ ++ [[]]) := by
  induction n with
  | zero =>
    intro text h
    omega
  | succ n ih =>
    intro text h
    by_cases hmem : separator ∈ text
    · obtain ⟨component, text', rfl, hfree⟩ := List.eq_append_cons_of_mem hmem
      have hlength : text'.length < n := by
        simp only [List.length_append, List.length_cons] at h
        omega
      rw [collectUpTo, next_append_cons hfree, List.splitOn_append_cons_self_of_not_mem hfree]
      exact (ih hlength).imp (congrArg (component :: ·)) (congrArg (component :: ·))
    · rw [List.splitOn_eq_singleton hmem, collectUpTo]
      by_cases hnil : text = []
      · subst hnil
        exact .inr rfl
      · rw [next_of_free hmem hnil]
        refine .inl ?_
        cases n with
        | zero => rfl
        | succ n => rfl

/-- **The components of a text.** -/
theorem collect_spec (text : Text) :
    text.splitOn separator = collect ⟨text⟩ ∨
      text.splitOn separator = collect ⟨text⟩ ++ [[]] :=
  collectUpTo_spec (Nat.lt_succ_self _)

theorem collect_separator_free {text : Text} : ∀ component ∈ collect ⟨text⟩,
    separator ∉ component := by
  intro component hmem
  refine splitOn_separator_free text component ?_
  rcases collect_spec text with h | h
  · rwa [h]
  · rw [h]
    exact List.mem_append_left _ hmem

theorem join_collect {text : Text} (h : ∀ text', text ≠ text' ++ [separator]) :
    joined (collect ⟨text⟩) = text := by
  have hjoin : joined (text.splitOn separator) = text := List.intercalate_splitOn separator
  rcases collect_spec text with hsplit | hsplit
  · rw [← hsplit, hjoin]
  · by_cases hnil : collect ⟨text⟩ = []
    · rw [hnil]
      rw [hsplit, hnil] at hjoin
      exact hjoin
    · rw [hsplit, joined, intercalate_concat hnil] at hjoin
      exact absurd hjoin.symm (h _)

end RelPathComponents

/-! ### Changing a path -/

namespace RelPath

theorem pop_spell {names : List Name} {name : Name} :
    (spell (names ++ [name])).pop = (true, spell names) := by
  by_cases h : names = []
  · subst h
    rw [pop, List.nil_append, spell_singleton, lastIdxOf?_eq_none name.separator_free,
      if_neg (by rw [isEmpty_spell]; simp)]
    rfl
  · rw [pop, spell_concat h, lastIdxOf?_append_cons name.separator_free]
    simp

theorem push_spell {names others : List Name} :
    (spell names).push (spell others) = spell (names ++ others) := by
  by_cases h' : others = []
  · subst h'
    rw [push, if_pos (isEmpty_spell.mpr rfl), List.append_nil]
  · rw [push, if_neg (by rwa [isEmpty_spell])]
    by_cases h : names = []
    · subst h
      rw [if_pos (isEmpty_spell.mpr rfl)]
      rfl
    · rw [if_neg (by rwa [isEmpty_spell]), ← spell_append h h']

end RelPath

/-! ### Resolving components -/

theorem kind_of_isName {component : Text} (h : IsName component) : kind component = .down := by
  rw [kind, if_neg (by simp [h.ne_nil, h.ne_dot]), if_neg h.ne_dots]

theorem kind_eq_down {component : Text} : kind component = .down ↔
    component ≠ [] ∧ component ≠ ['.'] ∧ component ≠ ['.', '.'] := by
  unfold kind
  split_ifs with h h'
  · simpa using fun h₁ h₂ => absurd h (by simp [h₁, h₂])
  · simp [h']
  · simp only [not_or] at h
    simp [h.1, h.2, h']

theorem normalizeStep_spell {names : List Name} {component : Text}
    (hfree : separator ∉ component) :
    normalizeStep (spell names) component
      = (resolveStep kind (names.map Name.text) component).map fun place => ⟨joined place⟩ := by
  unfold normalizeStep
  by_cases hnil : component = []
  · rw [if_pos hnil, resolveStep_stay (by simp [kind, hnil])]
    rfl
  by_cases hdot : component = ['.']
  · rw [if_neg hnil, if_pos hdot, resolveStep_stay (by simp [kind, hdot])]
    rfl
  rw [if_neg hnil, if_neg hdot]
  by_cases hdots : component = ['.', '.']
  · rw [if_pos hdots, resolveStep_up (by simp [kind, hdots])]
    cases names using List.reverseRecOn with
    | nil => rfl
    | append_singleton names name =>
      rw [pop_spell, if_neg (by simp), List.map_append, List.map_singleton, List.dropLast_concat]
      rfl
  · have hname : IsName component := ⟨hnil, hdot, hdots, hfree⟩
    rw [if_neg hdots, resolveStep_down (kind_of_isName hname)]
    have hcomponent : (⟨component⟩ : RelPath) = spell [⟨component, hname⟩] :=
      RelPath.ext_iff.mpr (spell_singleton ⟨component, hname⟩).symm
    rw [hcomponent, push_spell]
    show some (spell _) = some _
    rw [spell, List.map_append]
    rfl

/-- **The loop of `RelPath.new`** resolves the components. -/
theorem foldlM_normalizeStep {components : List Text} : ∀ names : List Name,
    (∀ component ∈ components, separator ∉ component) →
      components.foldlM normalizeStep (spell names)
        = (resolveFrom kind (names.map Name.text) components).map fun place => ⟨joined place⟩ := by
  induction components with
  | nil =>
    intro names _
    rfl
  | cons component components ih =>
    intro names hfree
    rw [List.foldlM_cons, resolveFrom_cons, normalizeStep_spell (hfree component (by simp))]
    cases hstep : resolveStep kind (names.map Name.text) component with
    | none => rfl
    | some place =>
      -- the place is again made of names, so that the rest of the loop spells one
      obtain ⟨names', rfl⟩ : ∃ names' : List Name, names'.map Name.text = place := by
        refine exists_names ?_
        intro c hc
        have hfrom : resolveFrom kind (names.map Name.text) [component] = some place := by
          rw [resolveFrom_cons, hstep]
          rfl
        rcases of_mem_resolveFrom hfrom hc with hin | ⟨hin, hdown⟩
        · obtain ⟨name, -, rfl⟩ := List.mem_map.mp hin
          exact name.isName
        · obtain ⟨h₁, h₂, h₃⟩ := kind_eq_down.mp hdown
          exact ⟨h₁, h₂, h₃, hfree c (by simpa using Or.inl (List.mem_singleton.mp hin))⟩
      exact ih names' fun c hc => hfree c (by simp [hc])

end Zui.Path
