/-
Joining a relative path to a parent, and stripping the parent again.

`PathStyle::join` puts the primary separator of the style between the two, unless the parent ends
with it.  `PathStyle::strip_prefix` takes any separator off the parent first.  If the parent ends
with the other one, there are two separators in a row, and what is left is absolute.  Nor does a
path come back whose display has separators that are none of its own.

Main statements:

* `newBuf_display_iff` — which paths are read back from their display;
* `stripPrefix_of_trimmed` — what is left of a text that starts with the parent;
* `stripPrefix_join_iff` — when `strip_prefix` inverts `join`.
-/
import Zui.Path.Normal

namespace Zui.Path

open RelPath

namespace PathStyle

/-- `PathStyle::primary_separator`. -/
def primarySeparator : PathStyle → Text
  | unix => ['/']
  | windows => ['\\']

/-- `PathStyle::separators`. -/
def separators : PathStyle → List Text
  | unix => [['/']]
  | windows => [['\\'], ['/']]

/-- `PathStyle::join`. -/
def join (self : PathStyle) (left right : Text) : Option Text :=
  if isAbsolute right self then none
  else if left = [] then some right
  else
    some (left ++ (if self.primarySeparator.isSuffixOf left then [] else self.primarySeparator)
      ++ right)

/-- Whether two texts start with the same drive letter and a colon: a colon as the second byte
stands behind an ASCII character. -/
def sameDrive : Text → Text → Bool
  | c :: ':' :: _, d :: ':' :: _ => c.toNat < 128 && d.toNat < 128 && c.toLower == d.toLower
  | _, _ => false

/-- `PathStyle::strip_prefix`. -/
def stripPrefix (self : PathStyle) (child parent : Text) : Option Cow :=
  if parent = [] then (RelPath.new child self).toOption
  else
    let parent := (self.separators.findSome? parent.dropSuffix?).getD parent
    let stripped :=
      if self == .windows && sameDrive child parent then
        (child.drop 2).dropPrefix? (parent.drop 2)
      else child.dropPrefix? parent
    stripped.bind fun stripped =>
      match self.separators.findSome? stripped.dropPrefix? with
      | some relative => (RelPath.new relative self).toOption
      | none => if stripped = [] then some (.borrowed empty) else none

/-- A path that is joined to a parent comes back when the parent is stripped. -/
def Inverts (self : PathStyle) (parent : Text) (path : RelPath) : Prop :=
  ∃ child, self.join parent (path.display self) = some child ∧
    (self.stripPrefix child parent).map Cow.intoOwned = some path

/-- The parent ends with the secondary separator, or a name of the path holds the primary one. -/
def Confuses (self : PathStyle) (parent : Text) (path : RelPath) : Prop :=
  self = .windows ∧ (['/'] <:+ parent ∨ '\\' ∈ path.text)

end PathStyle

variable {pathStyle : PathStyle}

/-! ### Reading a display back -/

theorem mem_joined_of_mem {component : Text} {components : List Text} (h : component ∈ components)
    {c : Char} (hc : c ∈ component) : c ∈ joined components := by
  induction components with
  | nil => cases h
  | cons first components ih =>
    by_cases hnil : components = []
    · subst hnil
      rw [joined, List.intercalate_singleton]
      rwa [List.mem_singleton.mp h] at hc
    · rw [join_cons hnil]
      rcases List.mem_cons.mp h with rfl | hmem
      · exact List.mem_append_left _ hc
      · exact List.mem_append_right _ (List.mem_cons_of_mem _ (ih hmem))

/-- The names of a path are clean, if they hold no backslash where that is a separator. -/
theorem clean_names {names : List Name}
    (h : ¬ (pathStyle = .windows ∧ '\\' ∈ (spell names).text)) :
    Clean pathStyle (names.map Name.text) := by
  intro component hmem
  obtain ⟨name, hname, rfl⟩ := List.mem_map.mp hmem
  refine ⟨kind_of_isName name.isName, ?_⟩
  intro c hc hseparator
  cases pathStyle with
  | unix =>
    obtain rfl := List.mem_singleton.mp hseparator
    exact name.separator_free hc
  | windows =>
    simp only [PathStyle.separatorsCh, List.mem_cons, List.not_mem_nil, or_false] at hseparator
    rcases hseparator with rfl | rfl
    · exact h ⟨rfl, mem_joined_of_mem hmem hc⟩
    · exact name.separator_free hc

/-- **Which paths are read back** from a display that is relative. -/
theorem newBuf_display_iff {names : List Name}
    (hrelative : isAbsolute ((spell names).display pathStyle) pathStyle = false) :
    newBuf ((spell names).display pathStyle) pathStyle = .ok (spell names) ↔
      ¬ (pathStyle = .windows ∧ '\\' ∈ (spell names).text) := by
  constructor
  · rintro hnew ⟨rfl, hback⟩
    rw [newBuf_eq rfl] at hnew
    split_ifs at hnew
    cases hresolve : resolve kind (split .windows ((spell names).display .windows)) with
    | none =>
      rw [hresolve] at hnew
      cases hnew
    | some components =>
      -- no component that is read holds a backslash
      rw [hresolve] at hnew
      have htext := congrArg RelPath.text (Except.ok.inj hnew)
      rw [← htext] at hback
      exact backslash_not_mem_join (clean_of_resolve hresolve) hback
  · intro hfree
    have hclean := clean_names hfree
    have hdisplay := toUnix_display hclean
    refine newBuf_of_toUnix hclean ?_ hdisplay
    rw [← hdisplay, isAbsolute_toUnix]
    exact hrelative

/-! ### Stripping a parent -/

theorem dropPrefix?_append (front rest : Text) : (front ++ rest).dropPrefix? front = some rest :=
  List.dropPrefix?_eq_some_iff.mpr ⟨front, rfl, by simp⟩

theorem dropSuffix?_append (rest back : Text) : (rest ++ back).dropSuffix? back = some rest :=
  List.dropSuffix?_eq_some_iff.mpr ⟨back, rfl, by simp⟩

namespace PathStyle

/-- A text that starts with a parent is stripped of it, also where their drives are compared. -/
theorem stripped_append (parent rest : Text) :
    (if pathStyle == .windows && sameDrive (parent ++ rest) parent then
        ((parent ++ rest).drop 2).dropPrefix? (parent.drop 2)
      else (parent ++ rest).dropPrefix? parent) = some rest := by
  split_ifs with hdrive
  · rw [Bool.and_eq_true] at hdrive
    obtain ⟨-, hdrive⟩ := hdrive
    rcases parent with _ | ⟨c, _ | ⟨d, parent⟩⟩
    · cases hchild : rest with
      | nil => rfl
      | cons c rest =>
        rw [hchild] at hdrive
        simp [sameDrive] at hdrive
    · simp [sameDrive] at hdrive
    · exact dropPrefix?_append parent rest
  · exact dropPrefix?_append parent rest

/-- **What is left of a text** that starts with a parent without the separator at its end. -/
theorem stripPrefix_of_trimmed {parent trimmed : Text} (rest : Text) (hne : parent ≠ [])
    (htrimmed : (pathStyle.separators.findSome? parent.dropSuffix?).getD parent = trimmed) :
    pathStyle.stripPrefix (trimmed ++ rest) parent =
      match pathStyle.separators.findSome? rest.dropPrefix? with
      | some relative => (RelPath.new relative pathStyle).toOption
      | none => if rest = [] then some (.borrowed empty) else none := by
  rw [PathStyle.stripPrefix, if_neg hne]
  dsimp only
  rw [htrimmed, stripped_append]
  rfl

theorem trimmed_of_not_suffix {parent : Text}
    (h : ∀ separator ∈ pathStyle.separators, ¬ separator <:+ parent) :
    (pathStyle.separators.findSome? parent.dropSuffix?).getD parent = parent := by
  have hnone : pathStyle.separators.findSome? parent.dropSuffix? = none := by
    rw [List.findSome?_eq_none_iff]
    intro separator hmem
    rw [Option.eq_none_iff_forall_ne_some]
    intro rest hrest
    obtain ⟨back, rfl, hback⟩ := List.dropSuffix?_eq_some_iff.mp hrest
    rw [eq_of_beq hback] at h
    exact h separator hmem (List.suffix_append rest separator)
  rw [hnone]
  rfl

theorem trimmed_primary (trimmed : Text) :
    (pathStyle.separators.findSome? (trimmed ++ pathStyle.primarySeparator).dropSuffix?).getD
      (trimmed ++ pathStyle.primarySeparator) = trimmed := by
  cases pathStyle with
  | unix => rw [separators, List.findSome?_cons, primarySeparator, dropSuffix?_append]; rfl
  | windows => rw [separators, List.findSome?_cons, primarySeparator, dropSuffix?_append]; rfl

theorem stripPrefix_primary {parent trimmed : Text} (display : Text) (hne : parent ≠ [])
    (htrimmed : (pathStyle.separators.findSome? parent.dropSuffix?).getD parent = trimmed) :
    pathStyle.stripPrefix (trimmed ++ (pathStyle.primarySeparator ++ display)) parent
      = (RelPath.new display pathStyle).toOption := by
  rw [stripPrefix_of_trimmed _ hne htrimmed]
  cases pathStyle with
  | unix => rw [separators, List.findSome?_cons, primarySeparator, dropPrefix?_append]
  | windows => rw [separators, List.findSome?_cons, primarySeparator, dropPrefix?_append]

theorem toOption_new_iff {display : Text} {path : RelPath} :
    ((RelPath.new display pathStyle).toOption).map Cow.intoOwned = some path ↔
      newBuf display pathStyle = .ok path := by
  rw [newBuf]
  cases RelPath.new display pathStyle with
  | ok result => simp [Except.toOption, Except.map]
  | error e => simp [Except.toOption, Except.map]

/-- A joined text in which the primary separator stands behind the trimmed parent. -/
theorem inverts_iff_of_trimmed {parent trimmed : Text} {path : RelPath} (hne : parent ≠ [])
    (htrimmed : (pathStyle.separators.findSome? parent.dropSuffix?).getD parent = trimmed)
    (hjoin : pathStyle.join parent (path.display pathStyle)
      = some (trimmed ++ (pathStyle.primarySeparator ++ path.display pathStyle))) :
    pathStyle.Inverts parent path ↔ newBuf (path.display pathStyle) pathStyle = .ok path := by
  rw [Inverts, hjoin]
  constructor
  · rintro ⟨child, hchild, hstrip⟩
    obtain rfl := Option.some.inj hchild
    rw [stripPrefix_primary _ hne htrimmed] at hstrip
    exact toOption_new_iff.mp hstrip
  · intro hnew
    refine ⟨_, rfl, ?_⟩
    rw [stripPrefix_primary _ hne htrimmed]
    exact toOption_new_iff.mpr hnew

theorem inverts_empty_iff {path : RelPath}
    (hrelative : isAbsolute (path.display pathStyle) pathStyle = false) :
    pathStyle.Inverts [] path ↔ newBuf (path.display pathStyle) pathStyle = .ok path := by
  have hjoin : pathStyle.join [] (path.display pathStyle) = some (path.display pathStyle) := by
    rw [join, if_neg (by simp [hrelative]), if_pos rfl]
  rw [Inverts, hjoin, ← toOption_new_iff]
  constructor
  · rintro ⟨child, hchild, hstrip⟩
    obtain rfl := Option.some.inj hchild
    exact hstrip
  · intro hnew
    exact ⟨_, rfl, hnew⟩

theorem suffix_concat {c d : Char} {front : Text} : [c] <:+ front ++ [d] ↔ c = d := by
  constructor
  · rintro ⟨rest, hrest⟩
    obtain ⟨-, heq⟩ := List.append_inj' hrest rfl
    exact List.singleton_inj.mp heq
  · rintro rfl
    exact List.suffix_append front [c]

/-- Behind the secondary separator the primary one stands again. -/
theorem not_inverts_secondary {front : Text} {path : RelPath} :
    ¬ PathStyle.windows.Inverts (front ++ ['/']) path := by
  rintro ⟨child, hjoin, hstrip⟩
  rw [join] at hjoin
  split_ifs at hjoin with habsolute hnil hsuffix
  · simp at hnil
  · rw [List.isSuffixOf_iff_suffix, primarySeparator, suffix_concat] at hsuffix
    exact absurd hsuffix (by decide)
  · obtain rfl := Option.some.inj hjoin
    have htrimmed : (separators .windows |>.findSome? (front ++ ['/']).dropSuffix?).getD
        (front ++ ['/']) = front := by
      have hback : (front ++ ['/']).dropSuffix? ['\\'] = none := by
        rw [Option.eq_none_iff_forall_ne_some]
        intro rest hrest
        obtain ⟨back, hsplit, hback⟩ := List.dropSuffix?_eq_some_iff.mp hrest
        rw [eq_of_beq hback] at hsplit
        exact absurd (suffix_concat.mp ⟨rest, hsplit.symm⟩) (by decide)
      rw [separators, List.findSome?_cons, hback, List.findSome?_cons, dropSuffix?_append]
      rfl
    -- what is left starts with the primary separator, and is absolute
    obtain ⟨display, hdisplay⟩ : ∃ display, path.display .windows = display := ⟨_, rfl⟩
    have hrest := stripPrefix_of_trimmed ('/' :: '\\' :: display) (by simp) htrimmed
    rw [hdisplay, primarySeparator, List.append_assoc, List.append_assoc] at hstrip
    have habsolute : ∃ error, newBuf ('\\' :: display) .windows = .error error := by
      have hchecked : isAbsolute (stripSuffixes .windows (stripPrefixes .windows
          ('\\' :: display))) .windows = true := by
        refine isAbsolute_strip.mpr (.inl ⟨isAbsolute_iff.mpr (.inl ⟨'\\', display, ?_, rfl⟩), ?_⟩)
        · decide
        rintro ⟨-, drive, separators, hdrive, -, -, hpath⟩
        obtain ⟨rfl, -⟩ := List.cons.inj hpath
        exact absurd hdrive (by decide)
      rw [newBuf_eq rfl, if_pos hchecked]
      exact ⟨_, rfl⟩
    obtain ⟨error, herror⟩ := habsolute
    have hnew : newBuf ('\\' :: display) .windows = .ok path := by
      rw [← toOption_new_iff]
      exact (congrArg (Option.map Cow.intoOwned) hrest).symm.trans hstrip
    rw [herror] at hnew
    cases hnew

/-- **When `strip_prefix` inverts `join`**: the parent does not end with the secondary separator,
and no name of the path holds the primary one. -/
theorem stripPrefix_join_iff {parent : Text} {path : RelPath} (h : path.Normalized)
    (hrelative : isAbsolute (path.display pathStyle) pathStyle = false) :
    pathStyle.Inverts parent path ↔ ¬ pathStyle.Confuses parent path := by
  obtain ⟨names, rfl⟩ := normalized_iff.mp h
  have hread := newBuf_display_iff hrelative
  by_cases hnil : parent = []
  · subst hnil
    rw [inverts_empty_iff hrelative, hread, Confuses]
    simp
  by_cases hprimary : pathStyle.primarySeparator <:+ parent
  · have hnot : ¬ (pathStyle = .windows ∧ ['/'] <:+ parent) := by
      rintro ⟨rfl, hslash⟩
      obtain ⟨trimmed, rfl⟩ := hprimary
      rw [primarySeparator, suffix_concat] at hslash
      exact absurd hslash (by decide)
    obtain ⟨trimmed, rfl⟩ := hprimary
    have hjoin : pathStyle.join (trimmed ++ pathStyle.primarySeparator)
        ((spell names).display pathStyle) = some (trimmed ++
          (pathStyle.primarySeparator ++ (spell names).display pathStyle)) := by
      rw [join, if_neg (by simp [hrelative]), if_neg hnil, if_pos (by simp)]
      simp
    rw [inverts_iff_of_trimmed hnil (trimmed_primary trimmed) hjoin, hread, Confuses]
    tauto
  by_cases hsecondary : pathStyle = .windows ∧ ['/'] <:+ parent
  · obtain ⟨rfl, front, rfl⟩ := id hsecondary
    exact iff_of_false not_inverts_secondary (not_not.mpr ⟨rfl, .inl hsecondary.2⟩)
  · -- the parent ends with no separator
    have hfree : ∀ separator ∈ pathStyle.separators, ¬ separator <:+ parent := by
      cases pathStyle with
      | unix => simpa [separators, primarySeparator] using hprimary
      | windows =>
        have hslash : ¬ ['/'] <:+ parent := fun h => hsecondary ⟨rfl, h⟩
        simpa [separators, primarySeparator] using ⟨hprimary, hslash⟩
    have hjoin : pathStyle.join parent ((spell names).display pathStyle) = some (parent ++
          (pathStyle.primarySeparator ++ (spell names).display pathStyle)) := by
      rw [join, if_neg (by simp [hrelative]), if_neg hnil,
        if_neg (by rwa [List.isSuffixOf_iff_suffix]), List.append_assoc]
    rw [inverts_iff_of_trimmed hnil (trimmed_of_not_suffix hfree) hjoin, hread, Confuses]
    tauto

/-- A path that is joined to the root of a drive. -/
theorem inverts_drive : PathStyle.windows.Inverts ['C', ':', '\\'] ⟨['a', '/', 'b']⟩ := by
  refine (stripPrefix_join_iff (.inr (by decide)) (by decide)).mpr ?_
  rintro ⟨-, hslash | hback⟩
  · exact absurd hslash (by decide)
  · exact absurd hback (by decide)

/-- A parent that ends with the secondary separator, and a name with the primary one. -/
theorem not_inverts :
    (Normalized ⟨['b']⟩ ∧ isAbsolute (display ⟨['b']⟩ .windows) .windows = false ∧
      ¬ PathStyle.windows.Inverts ['a', '/'] ⟨['b']⟩) ∧
    (Normalized ⟨['b', '\\', 'c']⟩ ∧
      isAbsolute (display ⟨['b', '\\', 'c']⟩ .windows) .windows = false ∧
      ¬ PathStyle.windows.Inverts ['a'] ⟨['b', '\\', 'c']⟩) := by
  refine ⟨⟨.inr (by decide), by decide, ?_⟩, .inr (by decide), by decide, ?_⟩
  · rintro ⟨child, hjoin, hstrip⟩
    have hchild : PathStyle.windows.join ['a', '/'] (display ⟨['b']⟩ .windows)
        = some ['a', '/', '\\', 'b'] := by decide +kernel
    obtain rfl := Option.some.inj (hchild.symm.trans hjoin)
    have hnone : PathStyle.windows.stripPrefix ['a', '/', '\\', 'b'] ['a', '/'] = none := by
      decide +kernel
    rw [hnone] at hstrip
    cases hstrip
  · rintro ⟨child, hjoin, hstrip⟩
    have hchild : PathStyle.windows.join ['a'] (display ⟨['b', '\\', 'c']⟩ .windows)
        = some ['a', '\\', 'b', '\\', 'c'] := by decide +kernel
    obtain rfl := Option.some.inj (hchild.symm.trans hjoin)
    have hsome : PathStyle.windows.stripPrefix ['a', '\\', 'b', '\\', 'c'] ['a']
        = some (.owned ⟨['b', '/', 'c']⟩) := by decide +kernel
    rw [hsome] at hstrip
    exact absurd (Option.some.inj hstrip) (by decide)

end PathStyle

end Zui.Path
