/-
The operations on paths are operations on lists of names.

The functions of `RelPath` never split a path: they search its text for separators and compare it
with the text of another path.  On normalised paths each of them does to the names what its name
says (`ListOperations`), and both double-ended iterators give each of their items once, whichever
ends they are asked at.

Main statements:

* `cmp_spell` — paths are ordered as the lists of their components;
* `components_yieldsAll`, `ancestors_yieldsAll` — what the iterators give, from both ends;
* `list_operations` — all operations on two normalised paths.
-/
import Zui.Library.Ends
import Zui.Path.Normal

namespace Zui.Path

open RelPath

/-- The steps of `components()`. -/
def RelPathComponents.step : End → RelPathComponents → Option Text × RelPathComponents
  | .front, self => self.next
  | .back, self => self.nextBack

/-- The steps of `ancestors()`. -/
def RelPathAncestors.step : End → RelPathAncestors → Option RelPath × RelPathAncestors
  | .front, self => self.next
  | .back, self => self.nextBack

/-- The ancestors of `j` to `i` names, the longest one first. -/
def ancestorsOf (names : List Name) (i j : ℕ) : List RelPath :=
  (List.range' j (i + 1 - j)).reverse.map fun n => spell (names.take n)

/-- What the operations do to the paths of two lists of names. -/
structure ListOperations (names others : List Name) : Prop where
  join : (spell names).join (spell others) = spell (names ++ others)
  startsWith : (spell names).startsWith (spell others) = true ↔ others <+: names
  stripPrefix : ∀ result, (spell names).stripPrefix (spell others) = .ok result ↔
    ∃ rest, names = others ++ rest ∧ result = spell rest
  stripPrefix_join : ((spell names).join (spell others)).stripPrefix (spell names)
    = .ok (spell others)
  endsWith : (spell names).endsWith (spell others) = true ↔ others <:+ names
  parent : (spell names).parent = if names = [] then none else some (spell names.dropLast)
  fileName : (spell names).fileName = names.getLast?.map Name.text
  pop : (spell names).pop = (!names.isEmpty, spell names.dropLast)
  len : (spell names).len = names.length
  lastNComponents : ∀ count, (spell names).lastNComponents count = if count ≤ names.length
    then some (spell (names.drop (names.length - count))) else none
  less : (spell names).cmp (spell others) = .lt ↔ names.map Name.text < others.map Name.text
  equal : (spell names).cmp (spell others) = .eq ↔ spell names = spell others
  greater : (spell names).cmp (spell others) = .gt ↔ others.map Name.text < names.map Name.text
  components : YieldsAll RelPathComponents.step (spell names).components (names.map Name.text)
  ancestors : YieldsAll RelPathAncestors.step (spell names).ancestors
    (ancestorsOf names names.length 0)

variable {names others : List Name}

/-! ### Prefixes and suffixes -/

theorem startsWith_spell :
    (spell names).startsWith (spell others) = true ↔ others <+: names := by
  rw [startsWith]
  cases hstrip : (spell names).stripPrefix (spell others) with
  | ok result =>
    obtain ⟨rest, rfl, -⟩ := stripPrefix_spell.mp hstrip
    exact iff_of_true rfl (List.prefix_append others rest)
  | error e =>
    refine iff_of_false (by simp [Except.isOk, Except.toBool]) ?_
    rintro ⟨rest, rfl⟩
    rw [stripPrefix_spell.mpr ⟨rest, rfl, rfl⟩] at hstrip
    cases hstrip

/-- **A suffix of a path** is a suffix of its names. -/
theorem endsWith_spell : (spell names).endsWith (spell others) = true ↔ others <:+ names := by
  by_cases hothers : others = []
  · subst hothers
    rw [endsWith, if_pos (isEmpty_spell.mpr rfl)]
    exact iff_of_true rfl List.nil_suffix
  rw [endsWith, if_neg (by rwa [isEmpty_spell])]
  constructor
  · intro h
    cases hdrop : (spell names).text.dropSuffix? (spell others).text with
    | none =>
      rw [hdrop] at h
      cases h
    | some front =>
      obtain ⟨back, htext, hback⟩ := List.dropSuffix?_eq_some_iff.mp hdrop
      rw [eq_of_beq hback] at htext
      rw [hdrop] at h
      dsimp only at h
      rw [Bool.or_eq_true, beq_iff_eq, List.isEmpty_iff] at h
      rcases h with hseparator | rfl
      · -- the names behind the separator are those of the suffix
        obtain ⟨init, rfl⟩ := List.getLast?_eq_some_iff.mp hseparator
        rw [List.append_assoc, List.singleton_append] at htext
        have hsplit := names_eq_append_of_text htext
        rw [splitOn_spell hothers] at hsplit
        have hdrop' : names.drop (init.splitOn separator).length = others := by
          refine List.map_injective_iff.mpr Name.text_injective ?_
          rw [List.map_drop, hsplit, List.drop_left' rfl]
        rw [← hdrop']
        exact List.drop_suffix _ names
      · rw [names_eq_of_text htext]
  · rintro ⟨rest, rfl⟩
    by_cases hrest : rest = []
    · subst hrest
      have hdrop : (spell ([] ++ others)).text.dropSuffix? (spell others).text = some [] :=
        List.dropSuffix?_eq_some_iff.mpr ⟨(spell others).text, rfl, by simp⟩
      rw [hdrop]
      rfl
    · have hdrop : (spell (rest ++ others)).text.dropSuffix? (spell others).text
          = some ((spell rest).text ++ [separator]) := by
        refine List.dropSuffix?_eq_some_iff.mpr ⟨(spell others).text, ?_, by simp⟩
        rw [spell_append hrest hothers, List.append_assoc]
        rfl
      rw [hdrop]
      dsimp only
      rw [List.getLast?_concat]
      rfl

/-! ### The last name -/

theorem parent_eq : (spell names).parent
    = if names = [] then none else some (spell names.dropLast) := by
  cases names using List.reverseRecOn with
  | nil => rfl
  | append_singleton names name =>
    rw [parent_spell, if_neg (by simp), List.dropLast_concat]

theorem fileName_eq : (spell names).fileName = names.getLast?.map Name.text := by
  cases names using List.reverseRecOn with
  | nil => rfl
  | append_singleton names name =>
    rw [fileName_spell, List.getLast?_concat]
    rfl

theorem pop_eq : (spell names).pop = (!names.isEmpty, spell names.dropLast) := by
  cases names using List.reverseRecOn with
  | nil => rfl
  | append_singleton names name =>
    rw [pop_spell, List.dropLast_concat]
    simp

/-! ### The order -/

theorem compareOfLessAndEq_cons {x y : Text} {xs ys : List Text} :
    compareOfLessAndEq (x :: xs) (y :: ys)
      = (compareOfLessAndEq x y).then (compareOfLessAndEq xs ys) := by
  unfold compareOfLessAndEq
  by_cases hlt : x < y
  · rw [if_pos hlt, if_pos (List.cons_lt_cons_iff.mpr (.inl hlt))]
    rfl
  · by_cases heq : x = y
    · subst heq
      simp
    · rw [if_neg hlt, if_neg heq, if_neg, if_neg]
      · rfl
      · exact fun hcons => heq (List.cons.inj hcons).1
      · rw [List.cons_lt_cons_iff]
        rintro (h | ⟨h, -⟩)
        · exact hlt h
        · exact heq h

theorem cmpUpTo_spell {n : ℕ} (h : names.length < n) :
    RelPathComponents.cmpUpTo n (spell names).components (spell others).components
      = compareOfLessAndEq (names.map Name.text) (others.map Name.text) := by
  induction n generalizing names others with
  | zero => omega
  | succ n ih =>
    cases names with
    | nil =>
      cases others with
      | nil => rfl
      | cons other others =>
        rw [RelPathComponents.cmpUpTo, RelPathComponents.next_spell]
        rfl
    | cons name names =>
      cases others with
      | nil =>
        rw [RelPathComponents.cmpUpTo, RelPathComponents.next_spell]
        rfl
      | cons other others =>
        rw [RelPathComponents.cmpUpTo, RelPathComponents.next_spell,
          RelPathComponents.next_spell, List.map_cons, List.map_cons, compareOfLessAndEq_cons]
        dsimp only
        rw [ih (Nat.lt_of_succ_lt_succ h)]

theorem length_le_text : names.length ≤ (spell names).text.length := by
  induction names with
  | nil => exact Nat.zero_le _
  | cons name names ih =>
    have hpos : 0 < name.text.length := List.length_pos_of_ne_nil name.isName.ne_nil
    by_cases hnil : names = []
    · subst hnil
      rw [spell_singleton]
      exact hpos
    · rw [spell_cons hnil, List.length_append, List.length_cons, List.length_cons]
      omega

/-- **Paths are ordered as the lists of their components.** -/
theorem cmp_spell : (spell names).cmp (spell others)
    = compareOfLessAndEq (names.map Name.text) (others.map Name.text) :=
  cmpUpTo_spell (Nat.lt_succ_of_le length_le_text)

theorem cmp_eq_lt : (spell names).cmp (spell others) = .lt ↔
    names.map Name.text < others.map Name.text := by
  rw [cmp_spell, compareOfLessAndEq]
  split_ifs with hlt
  · exact iff_of_true rfl hlt
  · exact iff_of_false (by simp) hlt
  · exact iff_of_false (by simp) hlt

theorem cmp_eq_eq : (spell names).cmp (spell others) = .eq ↔ spell names = spell others := by
  have hsame : names.map Name.text = others.map Name.text ↔ spell names = spell others := by
    constructor
    · intro h
      rw [spell, h]
      rfl
    · intro h
      rw [names_eq_of_text (congrArg RelPath.text h)]
  rw [cmp_spell, compareOfLessAndEq, ← hsame]
  split_ifs with hlt heq
  · refine iff_of_false (by simp) fun heq => ?_
    rw [heq] at hlt
    exact lt_irrefl _ hlt
  · exact iff_of_true rfl heq
  · exact iff_of_false (by simp) heq

theorem cmp_eq_gt : (spell names).cmp (spell others) = .gt ↔
    others.map Name.text < names.map Name.text := by
  rw [cmp_spell, compareOfLessAndEq]
  split_ifs with hlt heq
  · exact iff_of_false (by simp) (lt_asymm hlt)
  · refine iff_of_false (by simp) fun hgt => ?_
    rw [heq] at hgt
    exact lt_irrefl _ hgt
  · refine iff_of_true rfl ?_
    rcases lt_trichotomy (names.map Name.text) (others.map Name.text) with h | h | h
    · exact absurd h hlt
    · exact absurd h heq
    · exact h

/-! ### The iterators -/

theorem components_follows : Follows RelPathComponents.step fun state components =>
    ∃ names, state = (spell names).components ∧ components = names.map Name.text := by
  rintro side _ _ ⟨names, rfl, rfl⟩
  cases side with
  | front =>
    cases names with
    | nil => exact ⟨rfl, [], rfl, rfl⟩
    | cons name names =>
      rw [RelPathComponents.step, RelPathComponents.next_spell]
      exact ⟨rfl, names, rfl, rfl⟩
  | back =>
    cases names using List.reverseRecOn with
    | nil => exact ⟨rfl, [], rfl, rfl⟩
    | append_singleton names name =>
      rw [RelPathComponents.step, RelPathComponents.nextBack_spell, List.map_append]
      refine ⟨?_, names, rfl, ?_⟩
      · exact List.getLast?_concat.symm
      · exact List.dropLast_concat

/-- **Components**, for every order of the two ends. -/
theorem components_yieldsAll :
    YieldsAll RelPathComponents.step (spell names).components (names.map Name.text) :=
  components_follows.yieldsAll ⟨names, rfl, rfl⟩

section Ancestors

variable {i j : ℕ}

theorem ancestorsOf_front (h : j ≤ i) : ancestorsOf names i j
    = spell (names.take i) :: if i = j then [] else ancestorsOf names (i - 1) j := by
  rw [ancestorsOf, show i + 1 - j = (i - j) + 1 by omega, List.range'_1_concat,
    List.reverse_concat, List.map_cons, show j + (i - j) = i by omega]
  split_ifs with hij
  · subst hij
    rw [Nat.sub_self]
    rfl
  · rw [ancestorsOf, show i - 1 + 1 - j = i - j by omega]

theorem ancestorsOf_back (h : j ≤ i) : ancestorsOf names i j
    = (if i = j then [] else ancestorsOf names i (j + 1)) ++ [spell (names.take j)] := by
  rw [ancestorsOf, show i + 1 - j = (i - j) + 1 by omega, List.range'_succ, List.reverse_cons,
    List.map_append]
  split_ifs with hij
  · subst hij
    rw [Nat.sub_self]
    rfl
  · rw [ancestorsOf, show i + 1 - (j + 1) = i - j by omega]
    rfl

/-- An iterator stands for the ancestors that it has not given yet. -/
def StandsForAncestors (names : List Name) (self : RelPathAncestors) (items : List RelPath) :
    Prop :=
  (self.done = true ∧ items = []) ∨
    (self.done = false ∧ ∃ i j, Between names i j self ∧ items = ancestorsOf names i j)

theorem ancestors_follows : Follows RelPathAncestors.step (StandsForAncestors names) := by
  rintro side self _ (⟨hdone, rfl⟩ | ⟨hdone, i, j, hbetween, rfl⟩)
  · -- an iterator that is done gives nothing
    cases side with
    | front =>
      rw [RelPathAncestors.step, RelPathAncestors.next, if_pos hdone]
      exact ⟨rfl, .inl ⟨hdone, rfl⟩⟩
    | back =>
      rw [RelPathAncestors.step, RelPathAncestors.nextBack, if_pos hdone]
      exact ⟨rfl, .inl ⟨hdone, rfl⟩⟩
  · cases side with
    | front =>
      obtain ⟨hitem, hnext⟩ := next_of_between hbetween hdone
      rw [RelPathAncestors.step, ancestorsOf_front hbetween.le]
      refine ⟨hitem, ?_⟩
      split_ifs at hnext ⊢
      · rw [hnext]
        exact .inl ⟨rfl, rfl⟩
      · exact .inr ⟨hnext.1, i - 1, j, hnext.2, rfl⟩
    | back =>
      obtain ⟨hitem, hnext⟩ := nextBack_of_between hbetween hdone
      rw [RelPathAncestors.step, ancestorsOf_back hbetween.le]
      refine ⟨?_, ?_⟩
      · rw [hitem]
        exact List.getLast?_concat.symm
      · show StandsForAncestors names self.nextBack.2 (List.dropLast _)
        rw [List.dropLast_concat]
        split_ifs at hnext ⊢
        · rw [hnext]
          exact .inl ⟨rfl, rfl⟩
        · exact .inr ⟨hnext.1, i, j + 1, hnext.2, rfl⟩

/-- **Ancestors**, for every order of the two ends. -/
theorem ancestors_yieldsAll : YieldsAll RelPathAncestors.step (spell names).ancestors
    (ancestorsOf names names.length 0) := by
  refine ancestors_follows.yieldsAll (.inr ⟨rfl, names.length, 0, ?_, rfl⟩)
  refine ⟨rfl, ?_, rfl, Nat.zero_le _, le_refl _⟩
  rw [offset, List.take_length]
  rfl

end Ancestors

/-- **Operations on normalised paths** are operations on the lists of their names. -/
theorem list_operations {path other : RelPath} (h : path.Normalized) (h' : other.Normalized) :
    ∃ names others, path = spell names ∧ other = spell others ∧ ListOperations names others := by
  obtain ⟨names, rfl⟩ := normalized_iff.mp h
  obtain ⟨others, rfl⟩ := normalized_iff.mp h'
  refine ⟨names, others, rfl, rfl, ?_⟩
  exact
    { join := join_spell
      startsWith := startsWith_spell
      stripPrefix := fun _ => stripPrefix_spell
      stripPrefix_join := by
        rw [join_spell]
        exact stripPrefix_spell.mpr ⟨others, rfl, rfl⟩
      endsWith := endsWith_spell
      parent := parent_eq
      fileName := fileName_eq
      pop := pop_eq
      len := len_spell
      lastNComponents := fun _ => lastNComponents_spell
      less := cmp_eq_lt
      equal := cmp_eq_eq
      greater := cmp_eq_gt
      components := components_yieldsAll
      ancestors := ancestors_yieldsAll }

/-- A path and one whose text it starts with, but whose name it does not start with. -/
theorem list_operations_ab : ∃ names others, (⟨['a', 'b', '/', 'c']⟩ : RelPath) = spell names ∧
    (⟨['a']⟩ : RelPath) = spell others ∧ ListOperations names others :=
  list_operations (.inr (by decide)) (.inr (by decide))

end Zui.Path
