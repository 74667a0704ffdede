/-
Which operations keep a path normalised.

A path may be taken apart and put together by the other functions without being checked
again.  On the names that a normalised path spells, each of them is a list operation, so that
its result is normalised: except `setExtension`, which lets the standard library rebuild the
last name.  Without a new extension, what is in front of the last dot remains, and that may
be "." or "..".

Main statements:

* `ancestors_spell`, `consumed_spell` — what the iterators give, in any order of the two ends;
* `setExtension_normalized_iff` — when `setExtension` keeps a path normalised;
* `obtained_normalized` — all paths of a run are normalised if its extensions keep the names.
-/
import Zui.Path.New

namespace Zui.Path

open RelPath

/-! ### What is obtained from `RelPath.new` -/

/-- The states of `components()` that is partially consumed. -/
inductive Consumed (path : RelPath) : RelPathComponents → Prop
  | components : Consumed path path.components
  | next {self : RelPathComponents} : Consumed path self → Consumed path self.next.2
  | nextBack {self : RelPathComponents} : Consumed path self → Consumed path self.nextBack.2

/-- The states of `ancestors()`. -/
inductive Ascending (path : RelPath) : RelPathAncestors → Prop
  | ancestors : Ascending path path.ancestors
  | next {self : RelPathAncestors} : Ascending path self → Ascending path self.next.2
  | nextBack {self : RelPathAncestors} : Ascending path self → Ascending path self.nextBack.2

/-- The paths that are obtained from `RelPath.new` by any sequence of operations, where
`allowed` says which extensions are set. -/
inductive Obtained (allowed : RelPath → Text → Prop) : RelPath → Prop
  | new {path : Text} {pathStyle : PathStyle} {result : Cow} :
      RelPath.new path pathStyle = .ok result → Obtained allowed result.intoOwned
  | push {self path : RelPath} :
      Obtained allowed self → Obtained allowed path → Obtained allowed (self.push path)
  | pushComponent {self result : RelPath} {component : Text} :
      Obtained allowed self → self.pushComponent component = .ok result → Obtained allowed result
  | pop {self : RelPath} : Obtained allowed self → Obtained allowed self.pop.2
  | setExtension {self : RelPath} {extension : Text} :
      Obtained allowed self → separator ∉ extension → allowed self extension →
        Obtained allowed (self.setExtension extension).2
  | join {self other : RelPath} :
      Obtained allowed self → Obtained allowed other → Obtained allowed (self.join other)
  | stripPrefix {self other result : RelPath} :
      Obtained allowed self → Obtained allowed other → self.stripPrefix other = .ok result →
        Obtained allowed result
  | parent {self result : RelPath} :
      Obtained allowed self → self.parent = some result → Obtained allowed result
  | lastNComponents {self result : RelPath} {count : ℕ} :
      Obtained allowed self → self.lastNComponents count = some result → Obtained allowed result
  | ancestor {self item : RelPath} {iter : RelPathAncestors} :
      Obtained allowed self → Ascending self iter →
        (iter.next.1 = some item ∨ iter.nextBack.1 = some item) → Obtained allowed item
  | rest {self : RelPath} {iter : RelPathComponents} :
      Obtained allowed self → Consumed self iter → Obtained allowed iter.rest

/-- What is in front of the last dot is "." or "..". -/
def DotStem (filename : Text) : Prop :=
  ∃ after, '.' ∉ after ∧
    (after ≠ [] ∧ filename = '.' :: '.' :: after ∨ filename = '.' :: '.' :: '.' :: after)

/-- A new extension, or a file name that keeps a name in front of its last dot. -/
def KeepsName (self : RelPath) (extension : Text) : Prop :=
  extension ≠ [] ∨ ∀ filename, self.fileName = some filename → ¬ DotStem filename

/-! ### The operations on names -/

theorem join_spell {names others : List Name} :
    (spell names).join (spell others) = spell (names ++ others) := by
  by_cases h : names = []
  · subst h
    rw [join, if_pos (isEmpty_spell.mpr rfl), List.nil_append]
  · rw [join, if_neg (by rwa [isEmpty_spell])]
    by_cases h' : others = []
    · subst h'
      rw [if_pos (isEmpty_spell.mpr rfl), List.append_nil]
    · rw [if_neg (by rwa [isEmpty_spell]), ← spell_append h h']

theorem pushComponent_spell {names : List Name} {component : Text} {result : RelPath}
    (h : (spell names).pushComponent component = .ok result) :
    ∃ name : Name, name.text = component ∧ result = spell (names ++ [name]) := by
  unfold pushComponent at h
  split at h
  · rename_i hvalid
    obtain ⟨hnil, hslash, hdot, hdots⟩ := hvalid
    obtain ⟨name, rfl⟩ : ∃ name : Name, name.text = component :=
      ⟨⟨component, hnil, hdot, hdots, hslash⟩, rfl⟩
    refine ⟨name, rfl, ?_⟩
    by_cases hempty : names = []
    · subst hempty
      rw [if_pos (isEmpty_spell.mpr rfl)] at h
      rw [← Except.ok.inj h]
      exact RelPath.ext_iff.mpr (spell_singleton name).symm
    · rw [if_neg (by rwa [isEmpty_spell])] at h
      rw [← Except.ok.inj h]
      exact RelPath.ext_iff.mpr (spell_concat hempty).symm
  · cases h

theorem fileName_spell {names : List Name} {name : Name} :
    (spell (names ++ [name])).fileName = some name.text := by
  rw [fileName, RelPathComponents.nextBack_spell]

theorem parent_spell {names : List Name} {name : Name} :
    (spell (names ++ [name])).parent = some (spell names) := by
  rw [parent, RelPathComponents.nextBack_spell]
  rfl

theorem Name.text_injective : Function.Injective Name.text := by
  rintro ⟨text, htext⟩ ⟨text', htext'⟩ rfl
  rfl

theorem names_eq_of_text {names others : List Name} (h : (spell names).text = (spell others).text) :
    names = others := by
  by_cases hothers : others = []
  · subst hothers
    exact join_names_eq_nil.mp h
  · have hnames : names ≠ [] := by
      rintro rfl
      exact hothers (join_names_eq_nil.mp h.symm)
    have hsplit := congrArg (List.splitOn separator) h
    rw [splitOn_spell hnames, splitOn_spell hothers] at hsplit
    exact List.map_injective_iff.mpr Name.text_injective hsplit

theorem names_eq_append_of_text {names : List Name} {front back : Text}
    (h : (spell names).text = front ++ separator :: back) :
    names.map Name.text = front.splitOn separator ++ back.splitOn separator := by
  have hnames : names ≠ [] := by
    rintro rfl
    exact absurd h (by simp [RelPath.empty])
  rw [← splitOn_spell hnames, h, List.splitOn_append_cons_self]

/-- **A prefix of a path** is a prefix of its names. -/
theorem stripPrefix_spell {names others : List Name} {result : RelPath} :
    (spell names).stripPrefix (spell others) = .ok result ↔
      ∃ rest, names = others ++ rest ∧ result = spell rest := by
  by_cases hothers : others = []
  · subst hothers
    rw [stripPrefix, if_pos (isEmpty_spell.mpr rfl)]
    constructor
    · intro h
      exact ⟨names, rfl, (Except.ok.inj h).symm⟩
    · rintro ⟨rest, rfl, rfl⟩
      rfl
  rw [stripPrefix, if_neg (by rwa [isEmpty_spell])]
  constructor
  · intro h
    split at h
    · rename_i suffix hdrop
      obtain ⟨front, htext, hfront⟩ := List.dropPrefix?_eq_some_iff.mp hdrop
      rw [eq_of_beq hfront] at htext
      have hsplit := names_eq_append_of_text htext
      rw [splitOn_spell hothers] at hsplit
      -- the names in front are those of the prefix
      have htake : names.take others.length = others := by
        refine List.map_injective_iff.mpr Name.text_injective ?_
        rw [List.map_take, hsplit, List.take_left' (List.length_map _)]
      have hrest : (names.drop others.length).map Name.text = suffix.splitOn separator := by
        rw [List.map_drop, hsplit, List.drop_left' (List.length_map _)]
      refine ⟨names.drop others.length, ?_, ?_⟩
      · conv_lhs => rw [← List.take_append_drop others.length names, htake]
      · rw [← Except.ok.inj h, spell, hrest, joined, List.intercalate_splitOn]
    · rename_i hdrop
      obtain ⟨front, htext, hfront⟩ := List.dropPrefix?_eq_some_iff.mp hdrop
      rw [eq_of_beq hfront, List.append_nil] at htext
      exact ⟨[], by rw [names_eq_of_text htext, List.append_nil], (Except.ok.inj h).symm⟩
    · cases h
  · rintro ⟨rest, rfl, rfl⟩
    by_cases hrest : rest = []
    · subst hrest
      have hdrop : (spell (others ++ [])).text.dropPrefix? (spell others).text = some [] :=
        List.dropPrefix?_eq_some_iff.mpr ⟨(spell others).text, by simp, by simp⟩
      rw [hdrop]
      rfl
    · have hdrop : (spell (others ++ rest)).text.dropPrefix? (spell others).text
          = some (separator :: (spell rest).text) :=
        List.dropPrefix?_eq_some_iff.mpr
          ⟨(spell others).text, spell_append hothers hrest, by simp⟩
      rw [hdrop]
      rfl

theorem skip_spell {n : ℕ} {names : List Name} (h : n ≤ names.length) :
    skip n (spell names).components = some (spell (names.drop n)).components := by
  induction n generalizing names with
  | zero => rfl
  | succ n ih =>
    cases names with
    | nil => simp at h
    | cons name names =>
      rw [skip, RelPathComponents.next_spell]
      exact ih (Nat.le_of_succ_le_succ h)

theorem len_spell {names : List Name} : (spell names).len = names.length := by
  induction names with
  | nil => rfl
  | cons name names ih =>
    have hname : name.text.count '/' = 0 := List.count_eq_zero.mpr name.separator_free
    have hcons : (spell (name :: names)).text.isEmpty = false := by
      rw [List.isEmpty_eq_false_iff]
      exact fun hnil => absurd (join_names_eq_nil.mp hnil) (by simp)
    rw [len, hcons, if_neg (by simp), List.length_cons]
    by_cases hnil : names = []
    · subst hnil
      rw [spell_singleton, hname]
      rfl
    · have hrest : (spell names).text.isEmpty = false := by
        rw [List.isEmpty_eq_false_iff]
        exact fun heq => hnil (join_names_eq_nil.mp heq)
      rw [len, hrest, if_neg (by simp)] at ih
      rw [spell_cons hnil, List.count_append, hname, Nat.zero_add, separator, List.count_cons_self,
        ih]

theorem lastNComponents_spell {names : List Name} {count : ℕ} :
    (spell names).lastNComponents count = if count ≤ names.length
      then some (spell (names.drop (names.length - count))) else none := by
  rw [lastNComponents, len_spell]
  split_ifs with hcount
  · rw [skip_spell (Nat.sub_le _ _)]
    rfl
  · rfl

/-- A partially consumed iterator is one over some of the names. -/
theorem consumed_spell {names : List Name} {iter : RelPathComponents}
    (h : Consumed (spell names) iter) : ∃ left : List Name, iter = (spell left).components := by
  induction h with
  | components => exact ⟨names, rfl⟩
  | next _ ih =>
    obtain ⟨left, rfl⟩ := ih
    cases left with
    | nil => exact ⟨[], rfl⟩
    | cons name left => exact ⟨left, by rw [RelPathComponents.next_spell]⟩
  | nextBack _ ih =>
    obtain ⟨left, rfl⟩ := ih
    cases left using List.reverseRecOn with
    | nil => exact ⟨[], rfl⟩
    | append_singleton left name => exact ⟨left, by rw [RelPathComponents.nextBack_spell]⟩

/-! ### Extensions -/

theorem fileStem_of_free {filename : Text} (h : '.' ∉ filename) : fileStem filename = filename := by
  rw [fileStem, lastIdxOf?_eq_none h]

theorem fileStem_append {before after : Text} (h : '.' ∉ after) :
    fileStem (before ++ '.' :: after) = if before = [] then '.' :: after else before := by
  rw [fileStem, lastIdxOf?_append_cons h]
  cases before with
  | nil => rfl
  | cons c before => simp

theorem fileStem_of_dotStem {filename : Text} (h : DotStem filename) :
    fileStem filename = ['.'] ∨ fileStem filename = ['.', '.'] := by
  obtain ⟨after, hafter, ⟨-, rfl⟩ | rfl⟩ := h
  · refine .inl ?_
    rw [← List.singleton_append, fileStem_append hafter]
    exact if_neg (by simp)
  · refine .inr ?_
    show fileStem (['.', '.'] ++ '.' :: after) = _
    rw [fileStem_append hafter]
    exact if_neg (by simp)

/-- The stem of a name is a name again, if it is not made of dots. -/
theorem fileStem_isName {filename : Text} (hname : IsName filename) (h : ¬ DotStem filename) :
    IsName (fileStem filename) := by
  by_cases hdot : '.' ∈ filename
  · obtain ⟨before, after, rfl, hafter⟩ := eq_append_last hdot
    rw [fileStem_append hafter]
    split_ifs with hnil
    · subst hnil
      exact hname
    · refine ⟨hnil, ?_, ?_, fun hin => hname.separator_free (List.mem_append_left _ hin)⟩
      · rintro rfl
        refine h ⟨after, hafter, .inl ⟨?_, rfl⟩⟩
        rintro rfl
        exact hname.ne_dots rfl
      · rintro rfl
        exact h ⟨after, hafter, .inr rfl⟩
  · rwa [fileStem_of_free hdot]

theorem fileStem_ne_nil {filename : Text} (hname : IsName filename) : fileStem filename ≠ [] := by
  by_cases h : DotStem filename
  · rcases fileStem_of_dotStem h with hstem | hstem
    · simp [hstem]
    · simp [hstem]
  · exact (fileStem_isName hname h).ne_nil

theorem fileStem_separator_free {filename : Text} (hname : IsName filename) :
    separator ∉ fileStem filename := by
  by_cases h : DotStem filename
  · rcases fileStem_of_dotStem h with hstem | hstem
    · rw [hstem]
      decide
    · rw [hstem]
      decide
  · exact (fileStem_isName hname h).separator_free

theorem withExtension_of_isName {filename extension : Text} (hname : IsName filename) :
    withExtension filename extension
      = if extension = [] then fileStem filename else fileStem filename ++ '.' :: extension := by
  rw [withExtension, if_neg (by simp [hname.ne_nil, hname.ne_dot, hname.ne_dots])]

/-- **When a name with an extension is a name.** -/
theorem withExtension_isName_iff {filename extension : Text} (hname : IsName filename)
    (hextension : separator ∉ extension) :
    IsName (withExtension filename extension) ↔ extension ≠ [] ∨ ¬ DotStem filename := by
  rw [withExtension_of_isName hname]
  by_cases hnil : extension = []
  · rw [if_pos hnil]
    constructor
    · intro hstem
      refine .inr fun hdots => ?_
      rcases fileStem_of_dotStem hdots with heq | heq
      · exact hstem.ne_dot heq
      · exact hstem.ne_dots heq
    · intro h
      exact fileStem_isName hname (h.resolve_left fun hne => hne hnil)
  · rw [if_neg hnil]
    refine ⟨fun _ => .inl hnil, fun _ => ?_⟩
    -- a stem, a dot and an extension have at least three characters
    obtain ⟨c, stem, hstem⟩ := List.exists_cons_of_ne_nil (fileStem_ne_nil hname)
    obtain ⟨d, rest, rfl⟩ := List.exists_cons_of_ne_nil hnil
    refine ⟨by simp, ?_, ?_, ?_⟩
    · rw [hstem]
      simp
    · intro heq
      have hlength := congrArg List.length heq
      rw [hstem] at hlength
      simp only [List.length_append, List.length_cons, List.length_nil] at hlength
      omega
    · rw [List.mem_append, List.mem_cons, not_or, not_or]
      exact ⟨fileStem_separator_free hname, by decide, hextension⟩

theorem withExtension_ne_nil {filename extension : Text} (hname : IsName filename) :
    withExtension filename extension ≠ [] := by
  rw [withExtension_of_isName hname]
  split_ifs
  · exact fileStem_ne_nil hname
  · simp

theorem withExtension_separator_free {filename extension : Text} (hname : IsName filename)
    (hextension : separator ∉ extension) : separator ∉ withExtension filename extension := by
  rw [withExtension_of_isName hname]
  split_ifs
  · exact fileStem_separator_free hname
  · rw [List.mem_append, List.mem_cons, not_or, not_or]
    exact ⟨fileStem_separator_free hname, by decide, hextension⟩

theorem push_normalized_iff {names : List Name} {component : Text} (hne : component ≠ [])
    (hfree : separator ∉ component) :
    ((spell names).push ⟨component⟩).Normalized ↔ IsName component := by
  constructor
  · intro h
    have hmem : component ∈ ((spell names).push ⟨component⟩).text.splitOn separator := by
      rw [push, if_neg (by simpa [isEmpty] using hne)]
      split_ifs with hempty
      · rw [isEmpty_spell.mp hempty]
        show component ∈ component.splitOn separator
        rw [List.splitOn_eq_singleton hfree]
        simp
      · rw [List.splitOn_append_cons_self, List.splitOn_eq_singleton hfree]
        simp
    rcases h with hnil | hall
    · rw [hnil] at hmem
      exact absurd (by simpa using hmem) hne
    · obtain ⟨-, hdot, hdots⟩ := hall component hmem
      exact ⟨hne, hdot, hdots, hfree⟩
  · intro hname
    obtain ⟨name, rfl⟩ : ∃ name : Name, name.text = component := ⟨⟨component, hname⟩, rfl⟩
    have hpath : (⟨name.text⟩ : RelPath) = spell [name] :=
      RelPath.ext_iff.mpr (spell_singleton name).symm
    rw [hpath, push_spell]
    exact normalized_iff.mpr ⟨_, rfl⟩

/-- **When `setExtension` keeps a path normalised.** -/
theorem setExtension_normalized_iff {path : RelPath} {extension : Text} (h : path.Normalized)
    (hextension : separator ∉ extension) :
    (path.setExtension extension).2.Normalized ↔ KeepsName path extension := by
  obtain ⟨names, rfl⟩ := normalized_iff.mp h
  cases names using List.reverseRecOn with
  | nil =>
    refine ⟨fun _ => .inr fun filename hname => ?_, fun _ => h⟩
    cases hname
  | append_singleton names name =>
    rw [setExtension, fileName_spell]
    show ((spell (names ++ [name])).pop.2.push ⟨withExtension name.text extension⟩).Normalized ↔ _
    rw [pop_spell, push_normalized_iff (withExtension_ne_nil name.isName)
      (withExtension_separator_free name.isName hextension),
      withExtension_isName_iff name.isName hextension, KeepsName, fileName_spell]
    simp

/-! ### Ancestors -/

/-- Where the first `n` names end in the text. -/
def offset (names : List Name) (n : ℕ) : ℕ :=
  (spell (names.take n)).text.length

/-- An iterator that still has the ancestors of `j` to `i` names to give. -/
structure Between (names : List Name) (i j : ℕ) (iter : RelPathAncestors) : Prop where
  full : iter.full = (spell names).text
  front : iter.front = offset names i
  back : iter.back = offset names j
  le : j ≤ i
  le_length : i ≤ names.length

theorem take_offset {names : List Name} {n : ℕ} :
    (spell names).text.take (offset names n) = (spell (names.take n)).text := by
  by_cases hfront : names.take n = []
  · rw [offset, hfront]
    rfl
  by_cases hback : names.drop n = []
  · rw [offset, List.take_of_length_le (List.drop_eq_nil_iff.mp hback), List.take_length]
  · have happend := spell_append hfront hback
    rw [List.take_append_drop] at happend
    rw [happend]
    exact List.take_left' rfl

theorem lastIdxOf?_spell {names : List Name} {name : Name} :
    (lastIdxOf? separator (spell (names ++ [name])).text).getD 0 = (spell names).text.length := by
  by_cases h : names = []
  · subst h
    rw [List.nil_append, spell_singleton, lastIdxOf?_eq_none name.separator_free]
    rfl
  · rw [spell_concat h, lastIdxOf?_append_cons name.separator_free]
    rfl

theorem offset_succ_lt {names : List Name} {n : ℕ} (h : n < names.length) :
    offset names n < offset names (n + 1) := by
  rw [offset, offset, List.take_succ_eq_append_getElem h]
  by_cases hnil : names.take n = []
  · rw [hnil, List.nil_append, spell_singleton]
    exact List.length_pos_of_ne_nil (names[n]).isName.ne_nil
  · rw [spell_concat hnil, List.length_append, List.length_cons]
    omega

theorem offset_lt {names : List Name} {i j : ℕ} (h : j < i) (hi : i ≤ names.length) :
    offset names j < offset names i := by
  induction i, h using Nat.le_induction with
  | base => exact offset_succ_lt hi
  | succ i _ ih => exact (ih (by omega)).trans (offset_succ_lt hi)

theorem Between.meet_iff {names : List Name} {i j : ℕ} {self : RelPathAncestors}
    (h : Between names i j self) : self.front = self.back ↔ i = j := by
  rw [h.front, h.back]
  constructor
  · intro heq
    by_contra hne
    have hlt := offset_lt (by have := h.le; omega : j < i) h.le_length
    omega
  · rintro rfl
    rfl

/-- **One call of `next`** while there are ancestors left. -/
theorem next_of_between {names : List Name} {i j : ℕ} {self : RelPathAncestors}
    (h : Between names i j self) (hdone : self.done = false) :
    self.next.1 = some (spell (names.take i)) ∧
      (if i = j then self.next.2 = { self with done := true }
        else self.next.2.done = false ∧ Between names (i - 1) j self.next.2) := by
  have hresult : self.full.take self.front = (spell (names.take i)).text := by
    rw [h.full, h.front, take_offset]
  rw [RelPathAncestors.next, if_neg (by simp [hdone])]
  dsimp only
  rw [hresult]
  by_cases hmeet : i = j
  · rw [if_pos (h.meet_iff.mpr hmeet), if_pos hmeet]
    exact ⟨rfl, rfl⟩
  · have hle := h.le
    obtain ⟨m, rfl⟩ : ∃ m, i = m + 1 := ⟨i - 1, by omega⟩
    have hlength := h.le_length
    rw [if_neg fun heq => hmeet (h.meet_iff.mp heq), if_neg hmeet]
    refine ⟨rfl, hdone, h.full, ?_, h.back, by omega, by omega⟩
    show (lastIdxOf? separator _).getD 0 = offset names m
    rw [List.take_succ_eq_append_getElem (by omega), lastIdxOf?_spell]
    rfl

theorem next_between {names : List Name} {i j : ℕ} {self : RelPathAncestors}
    (h : Between names i j self) :
    (∀ item, self.next.1 = some item → item = spell (names.take i)) ∧
      ∃ i', Between names i' j self.next.2 := by
  cases hdone : self.done with
  | true =>
    rw [RelPathAncestors.next, if_pos hdone]
    exact ⟨fun item hitem => (by cases hitem), i, h⟩
  | false =>
    obtain ⟨hitem, hnext⟩ := next_of_between h hdone
    refine ⟨fun item hitem' => Option.some.inj (hitem'.symm.trans hitem), ?_⟩
    split_ifs at hnext
    · rw [hnext]
      exact ⟨i, h.full, h.front, h.back, h.le, h.le_length⟩
    · exact ⟨i - 1, hnext.2⟩

/-- `next_back` goes on behind the separator of the names that it has gone past. -/
theorem searchStart_eq {names : List Name} {i j : ℕ} {self : RelPathAncestors}
    (h : Between names i j self) :
    self.searchStart = if names.take j = [] then 0 else offset names j + 1 := by
  rw [RelPathAncestors.searchStart, h.back]
  by_cases hj : names.take j = []
  · rw [if_pos hj, if_pos]
    rw [offset, hj]
    rfl
  · rw [if_neg hj, if_neg]
    intro hzero
    exact hj (join_names_eq_nil.mp (List.length_eq_zero_iff.mp hzero))

/-- What is left of the text there.  The slice is not past its end. -/
theorem drop_searchStart {names : List Name} {i j : ℕ} {self : RelPathAncestors}
    (h : Between names i j self) (hlt : j < i) :
    self.searchStart ≤ self.full.length ∧
      self.full.drop self.searchStart = (spell (names.drop j)).text := by
  have hlength := h.le_length
  rw [searchStart_eq h, h.full]
  by_cases hj : names.take j = []
  · have hdrop : names.drop j = names := by
      rcases List.take_eq_nil_iff.mp hj with rfl | rfl
      · rfl
      · exact List.drop_nil
    rw [if_pos hj, hdrop]
    exact ⟨Nat.zero_le _, rfl⟩
  · have hrest : names.drop j ≠ [] := by
      rw [Ne, List.drop_eq_nil_iff]
      omega
    have happend := spell_append hj hrest
    rw [List.take_append_drop] at happend
    rw [if_neg hj, happend]
    refine ⟨?_, ?_⟩
    · rw [List.length_append, List.length_cons, offset]
      omega
    · rw [offset, ← List.drop_drop, List.drop_left' rfl]
      rfl

theorem searchStart_add {names : List Name} {i j : ℕ} {self : RelPathAncestors}
    (h : Between names i j self) (hj : j < names.length) :
    self.searchStart + names[j].text.length = offset names (j + 1) := by
  show _ = (spell (names.take (j + 1))).text.length
  rw [searchStart_eq h, List.take_succ_eq_append_getElem hj]
  by_cases hnil : names.take j = []
  · rw [if_pos hnil, hnil, List.nil_append, spell_singleton, Nat.zero_add]
  · rw [if_neg hnil, spell_concat hnil, List.length_append, List.length_cons, offset]
    omega

theorem idxOf?_spell {names : List Name} {name : Name} :
    (spell (name :: names)).text.idxOf? separator
      = if names = [] then none else some name.text.length := by
  by_cases h : names = []
  · subst h
    rw [if_pos rfl, spell_singleton, List.idxOf?_eq_none_iff]
    exact name.separator_free
  · rw [if_neg h, spell_cons h, idxOf?_append_cons name.separator_free]

/-- **One call of `next_back`** while there are ancestors left. -/
theorem nextBack_of_between {names : List Name} {i j : ℕ} {self : RelPathAncestors}
    (h : Between names i j self) (hdone : self.done = false) :
    self.nextBack.1 = some (spell (names.take j)) ∧
      (if i = j then self.nextBack.2 = { self with done := true }
        else self.nextBack.2.done = false ∧ Between names i (j + 1) self.nextBack.2) := by
  have hresult : self.full.take self.back = (spell (names.take j)).text := by
    rw [h.full, h.back, take_offset]
  rw [RelPathAncestors.nextBack, if_neg (by simp [hdone])]
  dsimp only
  rw [hresult]
  by_cases hmeet : i = j
  · rw [if_pos (h.meet_iff.mpr hmeet), if_pos hmeet]
    exact ⟨rfl, rfl⟩
  · have hle := h.le
    have hlength := h.le_length
    have hlt : j < i := by omega
    have hj : j < names.length := by omega
    rw [if_neg fun heq => hmeet (h.meet_iff.mp heq), if_neg hmeet, (drop_searchStart h hlt).2,
      List.drop_eq_getElem_cons hj, idxOf?_spell]
    by_cases hlast : names.drop (j + 1) = []
    · rw [if_pos hlast]
      refine ⟨rfl, hdone, h.full, h.front, ?_, hlt, hlength⟩
      show self.full.length = offset names (j + 1)
      rw [h.full, offset, List.take_of_length_le (List.drop_eq_nil_iff.mp hlast)]
    · rw [if_neg hlast]
      exact ⟨rfl, hdone, h.full, h.front, searchStart_add h hj, hlt, hlength⟩

theorem nextBack_between {names : List Name} {i j : ℕ} {self : RelPathAncestors}
    (h : Between names i j self) :
    (∀ item, self.nextBack.1 = some item → item = spell (names.take j)) ∧
      ∃ j', Between names i j' self.nextBack.2 := by
  cases hdone : self.done with
  | true =>
    rw [RelPathAncestors.nextBack, if_pos hdone]
    exact ⟨fun item hitem => (by cases hitem), j, h⟩
  | false =>
    obtain ⟨hitem, hnext⟩ := nextBack_of_between h hdone
    refine ⟨fun item hitem' => Option.some.inj (hitem'.symm.trans hitem), ?_⟩
    split_ifs at hnext
    · rw [hnext]
      exact ⟨j, h.full, h.front, h.back, h.le, h.le_length⟩
    · exact ⟨j + 1, hnext.2⟩

/-- An ancestor iterator in any state, and what it gives next from either end. -/
theorem ancestors_spell {names : List Name} {iter : RelPathAncestors}
    (h : Ascending (spell names) iter) : ∃ i j, Between names i j iter := by
  induction h with
  | ancestors =>
    refine ⟨names.length, 0, rfl, ?_, rfl, Nat.zero_le _, le_refl _⟩
    rw [offset, List.take_length]
    rfl
  | next _ ih =>
    obtain ⟨i, j, hbetween⟩ := ih
    obtain ⟨i', hnext⟩ := (next_between hbetween).2
    exact ⟨i', j, hnext⟩
  | nextBack _ ih =>
    obtain ⟨i, j, hbetween⟩ := ih
    obtain ⟨j', hnext⟩ := (nextBack_between hbetween).2
    exact ⟨i, j', hnext⟩

/-! ### Whole runs -/

/-- `RelPath.new` only returns normalised paths, also for the texts that it misreads. -/
theorem new_normalized {path : Text} {pathStyle : PathStyle} {result : Cow}
    (h : RelPath.new path pathStyle = .ok result) : result.intoOwned.Normalized := by
  have hnew : newBuf path pathStyle = .ok result.intoOwned := by
    rw [newBuf, h]
    rfl
  rw [newBuf_eq rfl] at hnew
  split_ifs at hnew
  cases hresolve : resolve kind (split pathStyle path) with
  | none =>
    rw [hresolve] at hnew
    cases hnew
  | some components =>
    rw [hresolve] at hnew
    have hclean := clean_of_resolve hresolve
    have hnames : ∀ component ∈ components, IsName component := by
      intro component hmem
      obtain ⟨hdown, hfree⟩ := hclean component hmem
      obtain ⟨hnil, hdot, hdots⟩ := kind_eq_down.mp hdown
      exact ⟨hnil, hdot, hdots, fun hin => hfree _ hin slash_mem_separatorsCh⟩
    obtain ⟨names, rfl⟩ := exists_names hnames
    exact normalized_iff.mpr ⟨names, (Except.ok.inj hnew).symm⟩

/-- **Every path of a run** is normalised, if its extensions keep the names. -/
theorem obtained_normalized {path : RelPath} (h : Obtained KeepsName path) : path.Normalized := by
  induction h with
  | new hnew => exact new_normalized hnew
  | push _ _ ih ih' =>
    obtain ⟨names, rfl⟩ := normalized_iff.mp ih
    obtain ⟨others, rfl⟩ := normalized_iff.mp ih'
    exact normalized_iff.mpr ⟨names ++ others, push_spell⟩
  | pushComponent _ hpush ih =>
    obtain ⟨names, rfl⟩ := normalized_iff.mp ih
    obtain ⟨name, -, rfl⟩ := pushComponent_spell hpush
    exact normalized_iff.mpr ⟨names ++ [name], rfl⟩
  | pop _ ih =>
    obtain ⟨names, rfl⟩ := normalized_iff.mp ih
    cases names using List.reverseRecOn with
    | nil => exact ih
    | append_singleton names name => exact normalized_iff.mpr ⟨names, by rw [pop_spell]⟩
  | setExtension _ hextension hkeeps ih =>
    exact (setExtension_normalized_iff ih hextension).mpr hkeeps
  | join _ _ ih ih' =>
    obtain ⟨names, rfl⟩ := normalized_iff.mp ih
    obtain ⟨others, rfl⟩ := normalized_iff.mp ih'
    exact normalized_iff.mpr ⟨names ++ others, join_spell⟩
  | stripPrefix _ _ hstrip ih ih' =>
    obtain ⟨names, rfl⟩ := normalized_iff.mp ih
    obtain ⟨others, rfl⟩ := normalized_iff.mp ih'
    obtain ⟨rest, -, rfl⟩ := stripPrefix_spell.mp hstrip
    exact normalized_iff.mpr ⟨rest, rfl⟩
  | parent _ hparent ih =>
    obtain ⟨names, rfl⟩ := normalized_iff.mp ih
    cases names using List.reverseRecOn with
    | nil => cases hparent
    | append_singleton names name =>
      rw [parent_spell] at hparent
      exact normalized_iff.mpr ⟨names, (Option.some.inj hparent).symm⟩
  | lastNComponents _ hlast ih =>
    obtain ⟨names, rfl⟩ := normalized_iff.mp ih
    rw [lastNComponents_spell] at hlast
    split_ifs at hlast
    exact normalized_iff.mpr ⟨_, (Option.some.inj hlast).symm⟩
  | ancestor _ hiter hitem ih =>
    obtain ⟨names, rfl⟩ := normalized_iff.mp ih
    obtain ⟨i, j, hbetween⟩ := ancestors_spell hiter
    rcases hitem with hnext | hback
    · exact normalized_iff.mpr ⟨_, (next_between hbetween).1 _ hnext⟩
    · exact normalized_iff.mpr ⟨_, (nextBack_between hbetween).1 _ hback⟩
  | rest _ hiter ih =>
    obtain ⟨names, rfl⟩ := normalized_iff.mp ih
    obtain ⟨left, rfl⟩ := consumed_spell hiter
    exact normalized_iff.mpr ⟨left, rfl⟩

/-- The path `a.b` with another extension. -/
theorem obtained_normalized_extension :
    (RelPath.setExtension ⟨['a', '.', 'b']⟩ ['c']).2.Normalized := by
  have hnew : RelPath.new ['a', '.', 'b'] .unix = .ok (.borrowed ⟨['a', '.', 'b']⟩) := by
    decide +kernel
  exact obtained_normalized (.setExtension (.new hnew) (by decide) (.inl (by simp)))

/-- The path `..x` becomes `.` without its extension. -/
theorem obtained_not_normalized :
    ¬ ∀ path, Obtained (fun _ _ => True) path → path.Normalized := by
  intro hall
  have hnew : RelPath.new ['.', '.', 'x'] .unix = .ok (.borrowed ⟨['.', '.', 'x']⟩) := by
    decide +kernel
  have hset : (RelPath.setExtension ⟨['.', '.', 'x']⟩ []).2 = ⟨['.']⟩ := by decide +kernel
  have hobtained : Obtained (fun _ _ => True) (RelPath.setExtension ⟨['.', '.', 'x']⟩ []).2 :=
    .setExtension (.new hnew) (by simp) trivial
  rw [hset] at hobtained
  rcases hall _ hobtained with hnil | hcomponents
  · cases hnil
  · exact (hcomponents ['.'] (by decide)).2.1 rfl

end Zui.Path
