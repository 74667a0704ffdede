/-
Texts that `RelPath::from_unix_str` takes for paths.

It refuses a text if `RelPath.new` has made a new one.  But `RelPath.new` makes no new text when it
strips a "./" from the front of a text or a separator from its end.

Main statements:

* `fromUnixStr_eq` — a text is refused unless it is a normalised path when it is stripped;
* `fromUnixStr_strict_iff` — the texts about which it is right;
* `fromUnixStr_loose` — two about which it is not.
-/
import Zui.Path.New

namespace Zui.Path

open RelPath

/-- A text is accepted if and only if it is a normalised path, and as what it is. -/
def ReadsStrictly (path : Text) : Prop :=
  (Normalized ⟨path⟩ ∧ fromUnixStr path = .ok ⟨path⟩) ∨
    (¬ Normalized ⟨path⟩ ∧ ∃ error, fromUnixStr path = .error error)

/-- A normalised path with a number of "./" in front and of separators behind, some of both
together. Nothing but separators is no path with separators behind. -/
def Loosened (path : Text) : Prop :=
  ∃ (dots : ℕ) (names : List Name) (slashes : ℕ),
    path = (List.replicate dots ['.', '/']).flatten ++ (spell names).text ++
      List.replicate slashes '/' ∧
    (dots ≠ 0 ∨ slashes ≠ 0) ∧ (names = [] → slashes = 0)

/-! ### Normalised texts -/

theorem head_spell {name : Name} {names : List Name} :
    ∃ c rest, (spell (name :: names)).text = c :: rest ∧ c ≠ separator := by
  obtain ⟨c, text, htext⟩ := List.exists_cons_of_ne_nil name.isName.ne_nil
  have hc : c ≠ separator := by
    rintro rfl
    exact name.separator_free (by simp [htext])
  by_cases hnil : names = []
  · subst hnil
    exact ⟨c, text, by rw [spell_singleton, htext], hc⟩
  · exact ⟨c, _, by rw [spell_cons hnil, htext]; rfl, hc⟩

theorem last_spell {names : List Name} {name : Name} :
    ∃ rest c, (spell (names ++ [name])).text = rest ++ [c] ∧ c ≠ separator := by
  obtain ⟨text, c, htext⟩ : ∃ text c, name.text = text ++ [c] :=
    ⟨_, _, (List.dropLast_append_getLast name.isName.ne_nil).symm⟩
  have hc : c ≠ separator := by
    rintro rfl
    exact name.separator_free (by simp [htext])
  by_cases hnil : names = []
  · subst hnil
    exact ⟨text, c, by rw [List.nil_append, spell_singleton, htext], hc⟩
  · refine ⟨(spell names).text ++ separator :: text, c, ?_, hc⟩
    rw [spell_concat hnil, htext, List.append_assoc]
    rfl

theorem isAbsolute_spell {names : List Name} : isAbsolute (spell names).text .unix = false := by
  rw [← Bool.not_eq_true, isAbsolute_iff]
  rintro (⟨c, rest, hc, htext⟩ | ⟨hwindows, -⟩)
  · cases names with
    | nil => cases htext
    | cons name names =>
      obtain ⟨c', rest', htext', hc'⟩ := @head_spell name names
      obtain ⟨rfl, -⟩ := List.cons.inj (htext'.symm.trans htext)
      exact hc' (List.mem_singleton.mp hc)
  · cases hwindows

theorem collect_spell (names : List Name) :
    (spell names).components.collect = names.map Name.text := by
  by_cases hnil : names = []
  · subst hnil
    rfl
  · rcases RelPathComponents.collect_spec (spell names).text with hsplit | hsplit
    · exact hsplit.symm.trans (splitOn_spell hnil)
    · -- no name is empty
      rw [splitOn_spell hnil] at hsplit
      have hempty : ([] : Text) ∈ names.map Name.text := by simp [hsplit]
      obtain ⟨name, -, hname⟩ := List.mem_map.mp hempty
      exact absurd hname name.isName.ne_nil

/-- A component that stops a text from being taken as it is. -/
def isOdd (component : Text) : Bool :=
  component == [] || component == ['.'] || component == ['.', '.']

theorem isOdd_iff {component : Text} :
    isOdd component = false ↔ component ≠ [] ∧ component ≠ ['.'] ∧ component ≠ ['.', '.'] := by
  simp [isOdd, and_assoc]

/-- **Texts that are taken as they are**: no separator at the end, and no odd component. -/
theorem normalized_iff_collect {text : Text} (h : ∀ text', text ≠ text' ++ [separator]) :
    Normalized ⟨text⟩ ↔ (RelPathComponents.collect ⟨text⟩).any isOdd = false := by
  rw [List.any_eq_false, normalized_iff]
  constructor
  · rintro ⟨names, hspell⟩ component hmem
    obtain rfl : text = (spell names).text := congrArg RelPath.text hspell
    have hcollect := collect_spell names
    rw [components] at hcollect
    rw [hcollect] at hmem
    obtain ⟨name, -, rfl⟩ := List.mem_map.mp hmem
    rw [Bool.not_eq_true, isOdd_iff]
    exact ⟨name.isName.ne_nil, name.isName.ne_dot, name.isName.ne_dots⟩
  · intro hall
    have hnames : ∀ component ∈ RelPathComponents.collect ⟨text⟩, IsName component := by
      intro component hmem
      obtain ⟨hnil, hdot, hdots⟩ := isOdd_iff.mp (Bool.not_eq_true _ ▸ hall component hmem)
      exact ⟨hnil, hdot, hdots, RelPathComponents.collect_separator_free component hmem⟩
    obtain ⟨names, hnames⟩ := exists_names hnames
    refine ⟨names, RelPath.ext ?_⟩
    show text = joined (names.map Name.text)
    rw [hnames, RelPathComponents.join_collect h]

/-! ### Stripping -/

/-- The text that is looked at. -/
def strip (path : Text) : Text := stripSuffixes .unix (stripPrefixes .unix path)

theorem eq_replicate_dots {dots : List Text} (h : ∀ d ∈ dots, d ∈ prefixes .unix) :
    dots = List.replicate dots.length ['.', '/'] := by
  refine List.eq_replicate_of_mem ?_
  intro d hd
  simpa [prefixes] using h d hd

/-- Separators in front of any other character are stripped from a reversed text. -/
theorem stripReversed_replicate {c : Char} {rest : Text} (hc : c ≠ separator) (slashes : ℕ) :
    stripReversed .unix (List.replicate slashes '/' ++ c :: rest) = c :: rest := by
  induction slashes with
  | zero =>
    cases rest with
    | nil => rfl
    | cons d rest =>
      show stripReversed .unix (c :: d :: rest) = _
      rw [stripReversed, if_neg]
      simpa [suffixes, separator] using hc
  | succ slashes ih =>
    rw [List.replicate_succ, List.cons_append]
    obtain ⟨d, text, htext⟩ : ∃ d text, List.replicate slashes '/' ++ c :: rest = d :: text :=
      List.exists_cons_of_ne_nil (by simp)
    rw [htext] at ih ⊢
    rw [stripReversed, if_pos (by simp [suffixes])]
    exact ih

theorem stripPrefixes_spell {name : Name} {names : List Name} {rest : Text} :
    stripPrefixes .unix ((spell (name :: names)).text ++ rest)
      = (spell (name :: names)).text ++ rest := by
  obtain ⟨tail, htail⟩ : ∃ tail, (spell (name :: names)).text ++ rest = name.text ++ tail := by
    by_cases hnil : names = []
    · subst hnil
      exact ⟨rest, by rw [spell_singleton]⟩
    · exact ⟨_, by rw [spell_cons hnil, List.append_assoc]⟩
  rcases htext : (spell (name :: names)).text ++ rest with _ | ⟨c, _ | ⟨d, text⟩⟩
  · rfl
  · rfl
  · rw [stripPrefixes, if_neg]
    intro hany
    obtain ⟨rfl, hd⟩ := any_isPrefixOf.mp hany
    obtain rfl : d = separator := by simpa [PathStyle.separatorsCh, separator] using hd
    -- the first name would be a dot
    rw [htext] at htail
    rcases hname : name.text with _ | ⟨c, _ | ⟨d, text'⟩⟩
    · exact name.isName.ne_nil hname
    · rw [hname] at htail
      obtain ⟨rfl, -⟩ := List.cons.inj htail
      exact name.isName.ne_dot hname
    · rw [hname] at htail
      obtain ⟨-, htail⟩ := List.cons.inj htail
      obtain ⟨rfl, -⟩ := List.cons.inj htail
      exact name.separator_free (by simp [hname])

/-- **What is stripped**: the "./" in front and the separators behind. -/
theorem strip_eq_spell_iff {path : Text} {names : List Name} :
    (⟨strip path⟩ : RelPath) = spell names ↔ ∃ dots slashes : ℕ,
      path = (List.replicate dots ['.', '/']).flatten ++ (spell names).text ++
        List.replicate slashes '/' ∧ (names = [] → slashes = 0) := by
  constructor
  · intro hstrip
    obtain ⟨dots, hdots, hfront⟩ := stripPrefixes_spec .unix path
    obtain ⟨slashes, hslashes, hback, hne, -⟩ :=
      stripSuffixes_spec .unix (stripPrefixes .unix path)
    have hspell : stripSuffixes .unix (stripPrefixes .unix path) = (spell names).text :=
      congrArg RelPath.text hstrip
    have hreplicate : slashes = List.replicate slashes.length '/' :=
      List.eq_replicate_of_mem fun c hc => by
        simpa [PathStyle.separatorsCh] using hslashes c hc
    refine ⟨dots.length, slashes.length, ?_, ?_⟩
    · rw [← eq_replicate_dots hdots, ← hreplicate, List.append_assoc, ← hspell, ← hback]
      exact hfront
    · rintro rfl
      -- nothing is left of the empty text only
      have hnil : stripPrefixes .unix path = [] := by
        by_contra hne'
        exact hne hne' hspell
      rw [hnil] at hback
      exact List.length_eq_zero_iff.mpr (List.append_eq_nil_iff.mp hback.symm).2
  · rintro ⟨dots, slashes, rfl, hslashes⟩
    refine RelPath.ext ?_
    show stripSuffixes .unix (stripPrefixes .unix _) = _
    rw [List.append_assoc, stripPrefixes_append (by simp [prefixes])]
    cases names with
    | nil =>
      rw [hslashes rfl]
      rfl
    | cons name names =>
      rw [stripPrefixes_spell, stripSuffixes, List.reverse_append, List.reverse_replicate]
      obtain ⟨init, last, hlast⟩ : ∃ init last, name :: names = init ++ [last] :=
        ⟨_, _, (List.dropLast_append_getLast (by simp)).symm⟩
      rw [hlast]
      obtain ⟨rest, c, htext, hc⟩ := @last_spell init last
      rw [htext, List.reverse_append, List.reverse_singleton, List.singleton_append,
        stripReversed_replicate hc, List.reverse_cons, List.reverse_reverse]

theorem strip_of_normalized {path : Text} (h : Normalized ⟨path⟩) : strip path = path := by
  obtain ⟨names, hnames⟩ := normalized_iff.mp h
  have hstrip : (⟨strip path⟩ : RelPath) = spell names := by
    refine strip_eq_spell_iff.mpr ⟨0, 0, ?_, fun _ => rfl⟩
    simpa using congrArg RelPath.text hnames
  exact congrArg RelPath.text (hstrip.trans hnames.symm)

/-- **What `RelPath::from_unix_str` accepts**: the texts that are normalised when they are stripped,
as the stripped ones. -/
theorem fromUnixStr_eq (path : Text) :
    (Normalized ⟨strip path⟩ ∧ fromUnixStr path = .ok ⟨strip path⟩) ∨
      (¬ Normalized ⟨strip path⟩ ∧ ∃ error, fromUnixStr path = .error error) := by
  rw [fromUnixStr, RelPath.new]
  dsimp only
  rw [← strip.eq_def path]
  cases habsolute : isAbsolute (strip path) .unix with
  | true =>
    refine .inr ⟨?_, _, rfl⟩
    intro hnormalized
    obtain ⟨names, hnames⟩ := normalized_iff.mp hnormalized
    rw [show strip path = (spell names).text from congrArg RelPath.text hnames,
      isAbsolute_spell] at habsolute
    cases habsolute
  | false =>
    -- only a lone separator is left at the end of a text
    have hend : ∀ text, strip path ≠ text ++ [separator] := by
      intro text
      have hunix : toUnix .unix (strip path) ≠ text ++ [separator] :=
        toUnix_stripSuffixes_ne habsolute
      exact hunix
    rw [normalized_iff_collect hend]
    have hunix : ¬ (PathStyle.unix = .windows ∧ '\\' ∈ strip path) := by simp
    rw [if_neg (by simp), if_neg hunix]
    show (_ ∧ ((if (components ⟨strip path⟩).collect.any isOdd = true then _ else _) >>= _)
      = _) ∨ (_ ∧ ∃ error, ((if (components ⟨strip path⟩).collect.any isOdd = true then _ else _)
        >>= _) = _)
    rw [components]
    cases hodd : (RelPathComponents.collect ⟨strip path⟩).any isOdd with
    | false => exact .inl ⟨rfl, rfl⟩
    | true =>
      refine .inr ⟨by simp, ?_⟩
      rw [if_pos rfl]
      cases hfold : List.foldlM normalizeStep empty
          (components (Cow.borrowed ⟨strip path⟩).intoOwned).collect with
      | none => exact ⟨_, rfl⟩
      | some normalized => exact ⟨_, rfl⟩

/-! ### Strictness -/

/-- **`RelPath::from_unix_str` is strict** about all texts but the loosened paths, and about none of
them. -/
theorem fromUnixStr_strict_iff (path : Text) : ReadsStrictly path ↔ ¬ Loosened path := by
  constructor
  · rintro hreads ⟨dots, names, slashes, hpath, hsome, hnil⟩
    have hstrip : (⟨strip path⟩ : RelPath) = spell names :=
      strip_eq_spell_iff.mpr ⟨dots, slashes, hpath, hnil⟩
    have hnormalized : Normalized ⟨strip path⟩ := normalized_iff.mpr ⟨names, hstrip⟩
    obtain ⟨-, hok⟩ := (fromUnixStr_eq path).resolve_right fun h => h.1 hnormalized
    rcases hreads with ⟨-, hok'⟩ | ⟨-, error, herror⟩
    · -- the text is longer than what it is accepted as
      have hsame : path = (spell names).text := by
        rw [← hstrip]
        exact congrArg RelPath.text (Except.ok.inj (hok'.symm.trans hok))
      have hlength := congrArg List.length hpath
      rw [← hsame] at hlength
      simp at hlength
      omega
    · rw [hok] at herror
      cases herror
  · intro hloosened
    rcases fromUnixStr_eq path with ⟨hnormalized, hok⟩ | ⟨hodd, herror⟩
    · obtain ⟨names, hstrip⟩ := normalized_iff.mp hnormalized
      obtain ⟨dots, slashes, hpath, hnil⟩ := strip_eq_spell_iff.mp hstrip
      -- nothing was stripped
      have hnone : dots = 0 ∧ slashes = 0 := by
        by_contra hsome
        exact hloosened ⟨dots, names, slashes, hpath, by omega, hnil⟩
      obtain ⟨rfl, rfl⟩ := hnone
      have hsame : strip path = path := by
        rw [show strip path = (spell names).text from congrArg RelPath.text hstrip, hpath]
        simp
      rw [hsame] at hnormalized hok
      exact .inl ⟨hnormalized, hok⟩
    · refine .inr ⟨fun hnormalized => hodd ?_, herror⟩
      rwa [strip_of_normalized hnormalized]

/-- Two texts that are accepted although they are no normalised paths. -/
theorem fromUnixStr_loose : ¬ ReadsStrictly ['.', '/', 'a'] ∧ ¬ ReadsStrictly ['a', '/'] := by
  constructor
  · have hok : fromUnixStr ['.', '/', 'a'] = .ok ⟨['a']⟩ := by decide +kernel
    rintro (⟨-, hok'⟩ | ⟨-, error, herror⟩)
    · cases hok.symm.trans hok'
    · cases hok.symm.trans herror
  · have hok : fromUnixStr ['a', '/'] = .ok ⟨['a']⟩ := by decide +kernel
    rintro (⟨-, hok'⟩ | ⟨-, error, herror⟩)
    · cases hok.symm.trans hok'
    · cases hok.symm.trans herror

end Zui.Path
