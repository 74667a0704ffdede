/-
Which texts are relative paths.

A text should be accepted if and only if it is not absolute and its components resolve, and
then become the path of the components that remain.  `RelPath.new` asks whether the text is
absolute after it has stripped the text at both ends and before it has resolved the
components.  So it takes some texts for what they are not (`Misread`): a drive with nothing
but separators behind it, a text that is absolute only without the "./" in front of it, and a
text whose first remaining component is a drive.

Main statements:

* `newBuf_eq` — what `RelPath.new` returns, in terms of the components of the whole text;
* `isAbsolute_join` — when the components that remain are absolute again;
* `new_accepts_relative` — `RelPath.new` is right about all texts but the misread ones.
-/
import Zui.Path.Components

namespace Zui.Path

open RelPath

/-! ### What is asked of `RelPath.new` -/

/-- `RelPath.new`, without whose the text of the path is. -/
def newBuf (path : Text) (pathStyle : PathStyle) : Except PathError RelPathBuf :=
  (RelPath.new path pathStyle).map Cow.intoOwned

/-- What stands between the separators of a style. -/
def split (pathStyle : PathStyle) (path : Text) : List Text :=
  path.splitOnP fun c => decide (c ∈ pathStyle.separatorsCh)

/-- A text is accepted if and only if it is relative, and as what remains of it. -/
def AcceptsRelative (path : Text) (pathStyle : PathStyle) : Prop :=
  match resolve kind (split pathStyle path), isAbsolute path pathStyle with
  | some components, false =>
    newBuf path pathStyle = .ok ⟨joined components⟩ ∧
      isAbsolute (joined components) pathStyle = false
  | _, _ => ∃ error, newBuf path pathStyle = .error error

/-- An accepted text gives a path that is read back from its own text and from its display. -/
def ReadsBack (path : Text) (pathStyle : PathStyle) : Prop :=
  ∀ result, newBuf path pathStyle = .ok result →
    newBuf result.text pathStyle = .ok result ∧
      newBuf (result.display pathStyle) pathStyle = .ok result

/-! ### The misread texts -/

/-- A drive and separators, which are all stripped. -/
def BareRoot (path : Text) (pathStyle : PathStyle) : Prop :=
  pathStyle = .windows ∧ ∃ drive separators, drive.isAlpha = true ∧ separators ≠ [] ∧
    (∀ c ∈ separators, c ∈ pathStyle.separatorsCh) ∧ path = drive :: ':' :: separators

/-- Only the "./" in front keeps the text from being absolute. -/
def Uncovered (path : Text) (pathStyle : PathStyle) : Prop :=
  ∃ (dots : List Text) (rest : Text), dots ≠ [] ∧ (∀ d ∈ dots, d ∈ prefixes pathStyle) ∧
    path = dots.flatten ++ rest ∧ isAbsolute rest pathStyle = true ∧ ¬ BareRoot rest pathStyle ∧
    depth kind (split pathStyle path) ≠ none

/-- Everything in front of a drive is taken back, and something behind it is not. -/
def ReachesDrive (path : Text) (pathStyle : PathStyle) : Prop :=
  pathStyle = .windows ∧ isAbsolute path pathStyle = false ∧
    ∃ before drive after n, drive.isAlpha = true ∧
      split pathStyle path = before ++ [drive, ':'] :: after ∧
      depth kind before = some 0 ∧ depth kind after = some (n + 1)

/-- The texts about which `RelPath.new` is wrong. -/
def Misread (path : Text) (pathStyle : PathStyle) : Prop :=
  BareRoot path pathStyle ∨ Uncovered path pathStyle ∨ ReachesDrive path pathStyle

section Reading

variable {pathStyle : PathStyle}

/-! ### Absolute texts -/

theorem mem_suffixes {c : Char} : c ∈ suffixes pathStyle ↔ c ∈ pathStyle.separatorsCh := by
  cases pathStyle with
  | unix => rfl
  | windows => simp [suffixes, PathStyle.separatorsCh, or_comm]

theorem slash_mem_separatorsCh : separator ∈ pathStyle.separatorsCh := by
  cases pathStyle with
  | unix => simp [separator, PathStyle.separatorsCh]
  | windows => simp [separator, PathStyle.separatorsCh]

/-- A drive, a colon and a separator. -/
def DriveRoot (path : Text) : Prop :=
  ∃ drive c rest, drive.isAlpha = true ∧ c ∈ PathStyle.windows.separatorsCh ∧
    path = drive :: ':' :: c :: rest

theorem isPrefixOf_singleton {c : Char} {path : Text} :
    [c].isPrefixOf path = true ↔ ∃ rest, path = c :: rest := by
  rw [ List.isPrefixOf_iff_prefix]
  constructor
  · rintro ⟨rest, rfl⟩
    exact ⟨rest, rfl⟩
  · rintro ⟨rest, rfl⟩
    exact ⟨rest, rfl⟩

theorem startsWithDrive_iff {path : Text} : startsWithDrive path = true ↔ DriveRoot path := by
  constructor
  · intro h
    unfold startsWithDrive at h
    split at h
    · rename_i c path
      rw [Bool.and_eq_true, Bool.or_eq_true, isPrefixOf_singleton, isPrefixOf_singleton] at h
      obtain ⟨hc, ⟨rest, rfl⟩ | ⟨rest, rfl⟩⟩ := h
      · exact ⟨c, '/', rest, hc, by simp [PathStyle.separatorsCh], rfl⟩
      · exact ⟨c, '\\', rest, hc, by simp [PathStyle.separatorsCh], rfl⟩
    · exact absurd h (by simp)
  · rintro ⟨c, d, rest, hc, hd, rfl⟩
    simp only [PathStyle.separatorsCh, List.mem_cons, List.not_mem_nil, or_false] at hd
    rcases hd with rfl | rfl
    · simp [startsWithDrive, hc, List.isPrefixOf]
    · simp [startsWithDrive, hc, List.isPrefixOf]

theorem isAbsolute_iff {path : Text} : isAbsolute path pathStyle = true ↔
    (∃ c rest, c ∈ pathStyle.separatorsCh ∧ path = c :: rest) ∨
      (pathStyle = .windows ∧ DriveRoot path) := by
  rw [isAbsolute, Bool.or_eq_true, Bool.and_eq_true, Bool.or_eq_true, startsWithDrive_iff,
    isPrefixOf_singleton, isPrefixOf_singleton, beq_iff_eq]
  cases pathStyle with
  | unix => simp [PathStyle.separatorsCh]
  | windows =>
    simp only [PathStyle.separatorsCh, List.mem_cons, List.not_mem_nil, or_false, true_and]
    constructor
    · rintro (⟨rest, rfl⟩ | ⟨rest, rfl⟩ | h)
      · exact .inl ⟨'/', rest, .inr rfl, rfl⟩
      · exact .inl ⟨'\\', rest, .inl rfl, rfl⟩
      · exact .inr h
    · rintro (⟨c, rest, rfl | rfl, rfl⟩ | h)
      · exact .inr (.inl ⟨rest, rfl⟩)
      · exact .inl ⟨rest, rfl⟩
      · exact .inr (.inr h)

theorem isAbsolute_append {path rest : Text} (h : isAbsolute path pathStyle = true) :
    isAbsolute (path ++ rest) pathStyle = true := by
  rw [isAbsolute_iff] at h ⊢
  rcases h with ⟨c, path, hc, rfl⟩ | ⟨hwindows, drive, c, path, hdrive, hc, rfl⟩
  · exact .inl ⟨c, path ++ rest, hc, rfl⟩
  · exact .inr ⟨hwindows, drive, c, path ++ rest, hdrive, hc, rfl⟩

/-! ### Stripping a text -/

theorem mem_prefixes {d : Text} : d ∈ prefixes pathStyle ↔
    ∃ c ∈ pathStyle.separatorsCh, d = ['.', c] := by
  cases pathStyle with
  | unix => simp [prefixes, PathStyle.separatorsCh]
  | windows => simp [prefixes, PathStyle.separatorsCh, or_comm]

theorem any_isPrefixOf {c d : Char} {path : Text} :
    (prefixes pathStyle).any (·.isPrefixOf (c :: d :: path)) = true ↔
      c = '.' ∧ d ∈ pathStyle.separatorsCh := by
  rw [List.any_eq_true]
  constructor
  · rintro ⟨p, hp, h⟩
    obtain ⟨s, hs, rfl⟩ := mem_prefixes.mp hp
    rw [ List.isPrefixOf_iff_prefix, List.cons_prefix_cons, List.cons_prefix_cons] at h
    exact ⟨h.1.symm, h.2.1 ▸ hs⟩
  · rintro ⟨rfl, hd⟩
    refine ⟨['.', d], mem_prefixes.mpr ⟨d, hd, rfl⟩, ?_⟩
    simp [List.isPrefixOf]

theorem stripPrefixes_spec (pathStyle : PathStyle) (path : Text) :
    ∃ dots : List Text, (∀ d ∈ dots, d ∈ prefixes pathStyle) ∧
      path = dots.flatten ++ stripPrefixes pathStyle path := by
  induction path using stripPrefixes.induct pathStyle with
  | case1 c d path h ih =>
    obtain ⟨dots, hdots, hsplit⟩ := ih
    rw [stripPrefixes, if_pos h]
    obtain ⟨rfl, hd⟩ := any_isPrefixOf.mp h
    refine ⟨['.', d] :: dots, ?_, ?_⟩
    · intro p hp
      rcases List.mem_cons.mp hp with rfl | hp
      · exact mem_prefixes.mpr ⟨d, hd, rfl⟩
      · exact hdots p hp
    · rw [List.flatten_cons, List.append_assoc, ← hsplit]
      rfl
  | case2 c d path h =>
    rw [stripPrefixes, if_neg h]
    exact ⟨[], by simp, rfl⟩
  | case3 path h =>
    rw [stripPrefixes]
    · exact ⟨[], by simp, rfl⟩
    · exact h

theorem stripPrefixes_append {dots : List Text} {rest : Text}
    (hdots : ∀ d ∈ dots, d ∈ prefixes pathStyle) :
    stripPrefixes pathStyle (dots.flatten ++ rest) = stripPrefixes pathStyle rest := by
  induction dots with
  | nil => rfl
  | cons d dots ih =>
    obtain ⟨c, hc, rfl⟩ := mem_prefixes.mp (hdots d (by simp))
    show stripPrefixes pathStyle ('.' :: c :: (dots.flatten ++ rest)) = _
    rw [stripPrefixes, if_pos (any_isPrefixOf.mpr ⟨rfl, hc⟩)]
    exact ih fun d hd => hdots d (by simp [hd])

theorem isAbsolute_dot {rest : Text} : isAbsolute ('.' :: rest) pathStyle = false := by
  rw [Bool.eq_false_iff]
  intro h
  rcases isAbsolute_iff.mp h with ⟨c, rest', hc, hpath⟩ | ⟨-, drive, c, rest', hdrive, -, hpath⟩
  · obtain ⟨rfl, -⟩ := List.cons.inj hpath
    cases pathStyle with
    | unix => simp [PathStyle.separatorsCh] at hc
    | windows => simp [PathStyle.separatorsCh] at hc
  · obtain ⟨rfl, -⟩ := List.cons.inj hpath
    exact absurd hdrive (by decide)

theorem stripPrefixes_of_isAbsolute {path : Text} (h : isAbsolute path pathStyle = true) :
    stripPrefixes pathStyle path = path := by
  have hdot : ∀ rest, path ≠ '.' :: rest := by
    rintro rest rfl
    rw [isAbsolute_dot] at h
    cases h
  match path, hdot with
  | [], _ => rfl
  | [c], _ => rfl
  | c :: d :: rest, hdot =>
    rw [stripPrefixes, if_neg]
    intro hany
    obtain ⟨rfl, -⟩ := any_isPrefixOf.mp hany
    exact hdot _ rfl

theorem stripReversed_spec (pathStyle : PathStyle) (path : Text) :
    ∃ separators, (∀ c ∈ separators, c ∈ pathStyle.separatorsCh) ∧
      path = separators ++ stripReversed pathStyle path ∧
      (path ≠ [] → stripReversed pathStyle path ≠ []) ∧
      (∀ c rest, stripReversed pathStyle path = c :: rest → c ∈ pathStyle.separatorsCh →
        rest = []) := by
  induction path using stripReversed.induct pathStyle with
  | case1 c d path h ih =>
    obtain ⟨separators, hall, hsplit, hne, hlast⟩ := ih
    rw [stripReversed, if_pos h]
    refine ⟨c :: separators, ?_, ?_, fun _ => hne (by simp), hlast⟩
    · intro s hs
      rcases List.mem_cons.mp hs with rfl | hs
      · exact mem_suffixes.mp h
      · exact hall s hs
    · rw [List.cons_append, ← hsplit]
  | case2 c d path h =>
    rw [stripReversed, if_neg h]
    refine ⟨[], by simp, rfl, by simp, ?_⟩
    intro c' rest heq hc'
    obtain ⟨rfl, -⟩ := List.cons.inj heq
    exact absurd (mem_suffixes.mpr hc') h
  | case3 path h =>
    rw [stripReversed]
    · refine ⟨[], by simp, rfl, id, ?_⟩
      intro c rest heq _
      cases rest with
      | nil => rfl
      | cons d rest => exact absurd heq (h c d rest)
    · exact h

theorem stripSuffixes_spec (pathStyle : PathStyle) (path : Text) :
    ∃ separators, (∀ c ∈ separators, c ∈ pathStyle.separatorsCh) ∧
      path = stripSuffixes pathStyle path ++ separators ∧
      (path ≠ [] → stripSuffixes pathStyle path ≠ []) ∧
      (∀ rest c, stripSuffixes pathStyle path = rest ++ [c] → c ∈ pathStyle.separatorsCh →
        rest = []) := by
  obtain ⟨separators, hall, hsplit, hne, hlast⟩ :=
    stripReversed_spec pathStyle path.reverse
  refine ⟨separators.reverse, by simpa using hall, ?_, ?_, ?_⟩
  · have hreverse := congrArg List.reverse hsplit
    simpa [stripSuffixes] using hreverse
  · simpa [stripSuffixes] using hne
  · intro rest c heq hc
    have hreverse : stripReversed pathStyle path.reverse = c :: rest.reverse := by
      have := congrArg List.reverse heq
      simpa [stripSuffixes] using this
    simpa using hlast c rest.reverse hreverse hc

theorem not_mem_separatorsCh_of_isAlpha {c : Char} (h : c.isAlpha = true) :
    c ∉ pathStyle.separatorsCh := by
  intro hc
  cases pathStyle with
  | unix =>
    simp only [PathStyle.separatorsCh, List.mem_singleton] at hc
    exact absurd h (by rw [hc]; decide)
  | windows =>
    simp only [PathStyle.separatorsCh, List.mem_cons, List.not_mem_nil, or_false] at hc
    rcases hc with rfl | rfl
    · exact absurd h (by decide)
    · exact absurd h (by decide)

theorem colon_not_mem_separatorsCh : ':' ∉ pathStyle.separatorsCh := by
  cases pathStyle with
  | unix => decide
  | windows => decide

/-- Stripping its end only matters to a drive with nothing but separators behind it. -/
theorem isAbsolute_stripSuffixes {path : Text} :
    isAbsolute (stripSuffixes pathStyle path) pathStyle = true ↔
      isAbsolute path pathStyle = true ∧ ¬ BareRoot path pathStyle := by
  obtain ⟨separators, hall, hsplit, hne, hlast⟩ := stripSuffixes_spec pathStyle path
  obtain ⟨stripped, hstripped⟩ : ∃ stripped, stripSuffixes pathStyle path = stripped := ⟨_, rfl⟩
  rw [hstripped] at hsplit hne hlast ⊢
  constructor
  · intro h
    refine ⟨by rw [hsplit]; exact isAbsolute_append h, ?_⟩
    rintro ⟨-, drive, separators', hdrive, hsep, hall', hpath⟩
    rw [hpath] at hsplit
    rcases isAbsolute_iff.mp h with ⟨c, rest, hc, rfl⟩ | ⟨-, drive', c, rest, -, hc, rfl⟩
    · obtain ⟨rfl, -⟩ := List.cons.inj hsplit
      exact not_mem_separatorsCh_of_isAlpha hdrive hc
    · -- the text that is left would still end in a separator
      have htail : separators' = (c :: rest) ++ separators := by
        simpa using congrArg (List.drop 2) hsplit
      have hend : (c :: rest).getLast (by simp) ∈ pathStyle.separatorsCh :=
        hall' _ (by rw [htail]; exact List.mem_append_left _ (List.getLast_mem _))
      have hinit := hlast (drive' :: ':' :: (c :: rest).dropLast) _
        (by rw [List.cons_append, List.cons_append, List.dropLast_append_getLast]) hend
      cases hinit
  · rintro ⟨h, hbare⟩
    rw [isAbsolute_iff] at h ⊢
    rcases h with ⟨c, rest, hc, hpath⟩ | ⟨hwindows, drive, c, rest, hdrive, hc, hpath⟩
    · obtain ⟨d, stripped, rfl⟩ := List.exists_cons_of_ne_nil (hne (by simp [hpath]))
      rw [hpath] at hsplit
      obtain ⟨rfl, -⟩ := List.cons.inj hsplit
      exact .inl ⟨c, stripped, hc, rfl⟩
    · refine .inr ⟨hwindows, ?_⟩
      rw [hpath] at hsplit
      match stripped, hne (by simp [hpath]) with
      | [x], _ =>
        simp only [List.cons_append, List.nil_append, List.cons.injEq] at hsplit
        exact absurd (hall ':' (by simp [← hsplit.2])) colon_not_mem_separatorsCh
      | [x, y], _ =>
        simp only [List.cons_append, List.nil_append, List.cons.injEq] at hsplit
        refine absurd ⟨hwindows, drive, c :: rest, hdrive, by simp, ?_, hpath⟩ hbare
        rwa [hsplit.2.2]
      | x :: y :: z :: stripped, _ =>
        simp only [List.cons_append, List.cons.injEq] at hsplit
        obtain ⟨rfl, rfl, rfl, -⟩ := hsplit
        exact ⟨drive, c, stripped, hdrive, hc, rfl⟩

/-! ### Components of a stripped text -/

theorem split_append_cons {path rest : Text} {c : Char} (hc : c ∈ pathStyle.separatorsCh) :
    split pathStyle (path ++ c :: rest) = split pathStyle path ++ split pathStyle rest :=
  List.splitOnP_append_cons path rest (by simpa using hc)

theorem split_of_free {path : Text} (h : ∀ c ∈ path, c ∉ pathStyle.separatorsCh) :
    split pathStyle path = [path] :=
  List.splitOnP_eq_singleton (by simpa using h)

theorem split_dot_cons {rest : Text} {c : Char} (hc : c ∈ pathStyle.separatorsCh) :
    split pathStyle ('.' :: c :: rest) = ['.'] :: split pathStyle rest := by
  have hdot : split pathStyle ['.'] = [['.']] := by
    refine split_of_free ?_
    cases pathStyle with
    | unix => simp [PathStyle.separatorsCh]
    | windows => simp [PathStyle.separatorsCh]
  rw [← List.singleton_append, split_append_cons hc, hdot]
  rfl

theorem resolve_split_dots {dots : List Text} {rest : Text}
    (hdots : ∀ d ∈ dots, d ∈ prefixes pathStyle) :
    resolve kind (split pathStyle (dots.flatten ++ rest))
      = resolve kind (split pathStyle rest) := by
  induction dots with
  | nil => rfl
  | cons d dots ih =>
    obtain ⟨c, hc, rfl⟩ := mem_prefixes.mp (hdots d (by simp))
    show resolve kind (split pathStyle ('.' :: c :: (dots.flatten ++ rest))) = _
    rw [split_dot_cons hc, resolve_cons_stay (by decide)]
    exact ih fun d hd => hdots d (by simp [hd])

theorem resolve_split_separators {path separators : Text}
    (h : ∀ c ∈ separators, c ∈ pathStyle.separatorsCh) :
    resolve kind (split pathStyle (path ++ separators)) = resolve kind (split pathStyle path) := by
  induction separators using List.reverseRecOn with
  | nil => rw [List.append_nil]
  | append_singleton separators c ih =>
    have hnil : split pathStyle [] = [[]] := rfl
    rw [← List.append_assoc, split_append_cons (h c (by simp)), hnil,
      resolve_concat_stay (by decide)]
    exact ih fun c hc => h c (by simp [hc])

theorem resolve_split_strip {path : Text} :
    resolve kind (split pathStyle (stripSuffixes pathStyle (stripPrefixes pathStyle path)))
      = resolve kind (split pathStyle path) := by
  obtain ⟨dots, hdots, hfront⟩ := stripPrefixes_spec pathStyle path
  obtain ⟨separators, hall, hback, -, -⟩ :=
    stripSuffixes_spec pathStyle (stripPrefixes pathStyle path)
  conv_rhs => rw [hfront, resolve_split_dots hdots, hback, resolve_split_separators hall]

/-! ### The text behind the check -/

theorem replace_of_not_mem {c d : Char} {text : Text} (h : c ∉ text) : replace c d text = text := by
  refine (List.map_congr_left ?_).trans (List.map_id text)
  intro x hx
  exact if_neg fun (heq : x = c) => h (heq ▸ hx)

/-- The text with the separators of a path. -/
def toUnix (pathStyle : PathStyle) (path : Text) : Text :=
  match pathStyle with
  | .unix => path
  | .windows => replace '\\' '/' path

/-- Splitting at the separators of a style, and at the one separator of a path. -/
theorem splitOn_toUnix {path : Text} :
    (toUnix pathStyle path).splitOn separator = split pathStyle path := by
  cases pathStyle with
  | unix =>
    show path.splitOn '/' = path.splitOnP _
    rw [List.splitOn_eq_splitOnP]
    congr 1
    funext c
    rw [beq_eq_decide]
    simp [PathStyle.separatorsCh]
  | windows =>
    show (replace '\\' '/' path).splitOn '/' = path.splitOnP _
    rw [List.splitOn_eq_splitOnP, replace, splitOnP_map]
    have hsep : (fun x => (if x = '\\' then '/' else x) == '/')
        = fun x => decide (x ∈ PathStyle.windows.separatorsCh) := by
      funext x
      rw [beq_eq_decide]
      by_cases h : x = '\\'
      · simp [h, PathStyle.separatorsCh]
      · simp [h, PathStyle.separatorsCh]
    rw [hsep]
    -- the parts hold no backslash, so mapping them does nothing
    refine (List.map_congr_left ?_).trans (List.map_id _)
    intro part hpart
    refine replace_of_not_mem fun hin => ?_
    have hfree := Zui.separator_free part hpart _ hin
    simp [PathStyle.separatorsCh] at hfree

/-- A text with a separator at its end ends in one of the separators of the style. -/
theorem ends_of_toUnix {path text : Text} (h : toUnix pathStyle path = text ++ [separator]) :
    ∃ rest, ∃ c ∈ pathStyle.separatorsCh, path = rest ++ [c] := by
  cases pathStyle with
  | unix => exact ⟨text, separator, slash_mem_separatorsCh, h⟩
  | windows =>
    obtain ⟨rest, last, rfl, -, hlast⟩ := List.map_eq_append_iff.mp h
    obtain ⟨c, rfl, hc⟩ := List.map_eq_singleton_iff.mp hlast
    refine ⟨rest, c, ?_, rfl⟩
    by_cases hback : c = '\\'
    · rw [hback]
      decide
    · rw [if_neg hback] at hc
      rw [hc]
      exact slash_mem_separatorsCh

theorem toUnix_stripSuffixes_ne {path text : Text}
    (h : isAbsolute (stripSuffixes pathStyle path) pathStyle = false) :
    toUnix pathStyle (stripSuffixes pathStyle path) ≠ text ++ [separator] := by
  intro hends
  obtain ⟨rest, c, hc, hstripped⟩ := ends_of_toUnix hends
  obtain ⟨-, -, -, -, hlast⟩ := stripSuffixes_spec pathStyle path
  rw [hlast rest c hstripped hc] at hstripped
  have habsolute : isAbsolute (stripSuffixes pathStyle path) pathStyle = true :=
    isAbsolute_iff.mpr (.inl ⟨c, [], hc, hstripped⟩)
  rw [h] at habsolute
  cases habsolute

theorem resolve_collect {text : Text} :
    resolve kind (RelPathComponents.collect ⟨text⟩) = resolve kind (text.splitOn separator) := by
  rcases RelPathComponents.collect_spec text with h | h
  · rw [h]
  · rw [h, resolve_concat_stay (by decide)]

theorem intoOwned_replaced {path : Text} :
    (if pathStyle = .windows ∧ '\\' ∈ path then Cow.owned ⟨replace '\\' '/' path⟩
      else Cow.borrowed ⟨path⟩).intoOwned = ⟨toUnix pathStyle path⟩ := by
  by_cases h : pathStyle = .windows ∧ '\\' ∈ path
  · rw [if_pos h, h.1]
    rfl
  · rw [if_neg h]
    cases pathStyle with
    | unix => rfl
    | windows =>
      have hfree : '\\' ∉ path := fun hin => h ⟨rfl, hin⟩
      show (⟨path⟩ : RelPath) = ⟨replace '\\' '/' path⟩
      rw [replace_of_not_mem hfree]

/-- **What `RelPath.new` returns.**  The check is made on the stripped text, and the components
are those of the whole text. -/
theorem newBuf_eq {path stripped : Text}
    (hstripped : stripSuffixes pathStyle (stripPrefixes pathStyle path) = stripped) :
    newBuf path pathStyle =
      if isAbsolute stripped pathStyle then .error (.absolutePathNotAllowed stripped)
      else match resolve kind (split pathStyle path) with
        | some components => .ok ⟨joined components⟩
        | none => .error (.pathIsNotRelative ⟨toUnix pathStyle stripped⟩) := by
  rw [newBuf, RelPath.new, hstripped]
  by_cases habsolute : isAbsolute stripped pathStyle = true
  · rw [if_pos habsolute, if_pos habsolute]
    rfl
  rw [if_neg habsolute, if_neg habsolute]
  obtain ⟨result, hresult⟩ : ∃ result, result = if pathStyle = .windows ∧ '\\' ∈ stripped then
      Cow.owned ⟨replace '\\' '/' stripped⟩ else Cow.borrowed ⟨stripped⟩ := ⟨_, rfl⟩
  have howned : result.intoOwned = ⟨toUnix pathStyle stripped⟩ := by
    rw [hresult]
    exact intoOwned_replaced
  simp only [← hresult, howned, components]
  have hresolve : resolve kind (RelPathComponents.collect ⟨toUnix pathStyle stripped⟩)
      = resolve kind (split pathStyle path) := by
    rw [resolve_collect, splitOn_toUnix, ← hstripped, resolve_split_strip]
  by_cases hany : (RelPathComponents.collect ⟨toUnix pathStyle stripped⟩).any
      (fun component => component == [] || component == ['.'] || component == ['.', '.']) = true
  · have hfold : (RelPathComponents.collect ⟨toUnix pathStyle stripped⟩).foldlM normalizeStep empty
        = (resolve kind (split pathStyle path)).map fun place => ⟨joined place⟩ := by
      rw [← hresolve]
      exact foldlM_normalizeStep [] RelPathComponents.collect_separator_free
    rw [if_pos hany, hfold]
    cases resolve kind (split pathStyle path) with
    | none => rfl
    | some components => rfl
  · have hdown : ∀ component ∈ RelPathComponents.collect ⟨toUnix pathStyle stripped⟩,
        kind component = .down := by
      intro component hmem
      rw [kind_eq_down, ← and_assoc]
      simp only [List.any_eq_true, not_exists, not_and, Bool.or_eq_true, beq_iff_eq, not_or] at hany
      exact hany component hmem
    have hends : ∀ text, toUnix pathStyle stripped ≠ text ++ [separator] := by
      intro text
      rw [← hstripped] at habsolute ⊢
      exact toUnix_stripSuffixes_ne (by simpa using habsolute)
    rw [if_neg hany, ← hresolve, resolve_of_down hdown]
    show Except.ok result.intoOwned = Except.ok _
    rw [howned, RelPathComponents.join_collect hends]

theorem isAbsolute_strip {path : Text} :
    isAbsolute (stripSuffixes pathStyle (stripPrefixes pathStyle path)) pathStyle = true ↔
      (isAbsolute path pathStyle = true ∧ ¬ BareRoot path pathStyle) ∨
        ∃ (dots : List Text) (rest : Text), dots ≠ [] ∧ (∀ d ∈ dots, d ∈ prefixes pathStyle) ∧
          path = dots.flatten ++ rest ∧ isAbsolute rest pathStyle = true ∧
            ¬ BareRoot rest pathStyle := by
  rw [isAbsolute_stripSuffixes]
  constructor
  · rintro ⟨habsolute, hbare⟩
    obtain ⟨dots, hdots, hfront⟩ := stripPrefixes_spec pathStyle path
    by_cases hnil : dots = []
    · subst hnil
      rw [List.flatten_nil, List.nil_append] at hfront
      rw [← hfront] at habsolute hbare
      exact .inl ⟨habsolute, hbare⟩
    · exact .inr ⟨dots, _, hnil, hdots, hfront, habsolute, hbare⟩
  · rintro (⟨habsolute, hbare⟩ | ⟨dots, rest, -, hdots, rfl, habsolute, hbare⟩)
    · rw [stripPrefixes_of_isAbsolute habsolute]
      exact ⟨habsolute, hbare⟩
    · rw [stripPrefixes_append hdots, stripPrefixes_of_isAbsolute habsolute]
      exact ⟨habsolute, hbare⟩

/-! ### The components that remain -/

/-- Components that a text may be split into and that resolve to themselves. -/
def Clean (pathStyle : PathStyle) (components : List Text) : Prop :=
  ∀ component ∈ components,
    kind component = .down ∧ ∀ c ∈ component, c ∉ pathStyle.separatorsCh

theorem clean_of_resolve {path : Text} {components : List Text}
    (h : resolve kind (split pathStyle path) = some components) : Clean pathStyle components := by
  intro component hmem
  obtain ⟨hin, hdown⟩ := of_mem_resolve h hmem
  exact ⟨hdown, fun c hc => by simpa using Zui.separator_free component hin c hc⟩

theorem join_cons {component : Text} {components : List Text} (h : components ≠ []) :
    joined (component :: components) = component ++ separator :: joined components := by
  rw [joined, List.intercalate_cons_of_ne_nil h, List.append_assoc]
  rfl

/-- **When the components that remain are absolute.** -/
theorem isAbsolute_join {components : List Text} (h : Clean pathStyle components) :
    isAbsolute (joined components) pathStyle = true ↔
      pathStyle = .windows ∧ ∃ drive rest, drive.isAlpha = true ∧ rest ≠ [] ∧
        components = [drive, ':'] :: rest := by
  constructor
  · intro habsolute
    cases components with
    | nil =>
      rcases isAbsolute_iff.mp habsolute with ⟨c, rest, -, hnil⟩ | ⟨-, drive, c, rest, -, -, hnil⟩
      · cases hnil
      · cases hnil
    | cons component components =>
      obtain ⟨hdown, hfree⟩ := h component (by simp)
      obtain ⟨a, component, rfl⟩ := List.exists_cons_of_ne_nil (kind_eq_down.mp hdown).1
      obtain ⟨tail, htail⟩ : ∃ tail, joined ((a :: component) :: components)
          = a :: component ++ tail ∧ (components = [] → tail = []) ∧
            (components ≠ [] → tail = separator :: joined components) := by
        by_cases hnil : components = []
        · subst hnil
          refine ⟨[], ?_, fun _ => rfl, fun hne => absurd rfl hne⟩
          rw [joined, List.intercalate_singleton, List.append_nil]
        · exact ⟨_, join_cons hnil, fun hn => absurd hn hnil, fun _ => rfl⟩
      obtain ⟨hjoin, hnil, hcons⟩ := htail
      rw [hjoin] at habsolute
      rcases isAbsolute_iff.mp habsolute with
        ⟨c, rest, hc, hpath⟩ | ⟨hwindows, drive, c, rest, hdrive, hc, hpath⟩
      · obtain ⟨rfl, -⟩ := List.cons.inj hpath
        exact absurd hc (hfree a (by simp))
      · rw [List.cons_append, List.cons.injEq] at hpath
        obtain ⟨rfl, hpath⟩ := hpath
        have htail : components = [] ∨ tail = separator :: joined components :=
          (em (components = [])).imp id hcons
        -- the drive is the first component, whose second character is the colon
        rcases component with _ | ⟨d, _ | ⟨e, component⟩⟩
        · rcases htail with hn | hs
          · rw [hnil hn] at hpath
            cases hpath
          · rw [hs] at hpath
            exact absurd (List.cons.inj hpath).1 (by decide)
        · rw [List.singleton_append, List.cons.injEq] at hpath
          refine ⟨hwindows, a, components, hdrive, fun hn => ?_, by rw [hpath.1]⟩
          rw [hnil hn] at hpath
          cases hpath.2
        · simp only [List.cons_append, List.cons.injEq] at hpath
          obtain ⟨-, rfl, -⟩ := hpath
          exact absurd (hwindows ▸ hc) (hfree e (by simp))
  · rintro ⟨hwindows, drive, rest, hdrive, hrest, rfl⟩
    refine isAbsolute_iff.mpr (.inr ⟨hwindows, drive, separator, joined rest, hdrive,
      slash_mem_separatorsCh, ?_⟩)
    exact join_cons hrest

/-! ### Reading a path back -/

theorem isAbsolute_toUnix {path : Text} :
    isAbsolute (toUnix pathStyle path) pathStyle = isAbsolute path pathStyle := by
  cases pathStyle with
  | unix => rfl
  | windows =>
    have hmem : ∀ a, (if a = '\\' then '/' else a) ∈ PathStyle.windows.separatorsCh ↔
        a ∈ PathStyle.windows.separatorsCh := by
      intro a
      by_cases h : a = '\\'
      · simp [h, PathStyle.separatorsCh]
      · rw [if_neg h]
    have halpha : ∀ a, (if a = '\\' then '/' else a).isAlpha = true → a ≠ '\\' := by
      rintro a h rfl
      exact absurd h (by decide)
    have hcolon : ∀ a, ':' = (if a = '\\' then '/' else a) → a = ':' := by
      intro a h
      by_cases hback : a = '\\'
      · rw [if_pos hback] at h
        exact absurd h (by decide)
      · rw [if_neg hback] at h
        exact h.symm
    rw [Bool.eq_iff_iff, isAbsolute_iff, isAbsolute_iff]
    constructor
    · rintro (⟨c, rest, hc, hpath⟩ | ⟨hwindows, drive, c, rest, hdrive, hc, hpath⟩)
      · obtain ⟨a, path, rfl, rfl, -⟩ := List.map_eq_cons_iff.mp hpath
        exact .inl ⟨a, path, (hmem a).mp hc, rfl⟩
      · obtain ⟨a, tail, rfl, rfl, htail⟩ := List.map_eq_cons_iff.mp hpath
        obtain ⟨b, tail, rfl, hb, htail⟩ := List.map_eq_cons_iff.mp htail
        obtain ⟨d, tail, rfl, rfl, -⟩ := List.map_eq_cons_iff.mp htail
        rw [if_neg (halpha a hdrive)] at hdrive
        exact .inr ⟨hwindows, a, d, tail, hdrive, (hmem d).mp hc, by rw [hcolon b hb.symm]⟩
    · rintro (⟨c, rest, hc, rfl⟩ | ⟨hwindows, drive, c, rest, hdrive, hc, rfl⟩)
      · exact .inl ⟨_, _, (hmem c).mpr hc, rfl⟩
      · refine .inr ⟨hwindows, drive, _, replace '\\' '/' rest, hdrive, (hmem c).mpr hc, ?_⟩
        have hne : drive ≠ '\\' := by
          rintro rfl
          exact absurd hdrive (by decide)
        show replace '\\' '/' (drive :: ':' :: c :: rest) = _
        rw [replace, List.map_cons, if_neg hne]
        rfl

theorem mem_join {components : List Text} {c : Char} (h : c ∈ joined components) :
    c = separator ∨ ∃ component ∈ components, c ∈ component := by
  induction components with
  | nil => cases h
  | cons component components ih =>
    by_cases hnil : components = []
    · subst hnil
      rw [joined, List.intercalate_singleton] at h
      exact .inr ⟨component, by simp, h⟩
    · rw [join_cons hnil, List.mem_append, List.mem_cons] at h
      rcases h with h | h | h
      · exact .inr ⟨component, by simp, h⟩
      · exact .inl h
      · rcases ih h with h | ⟨component', hmem, h⟩
        · exact .inl h
        · exact .inr ⟨component', by simp [hmem], h⟩

theorem backslash_not_mem_join {components : List Text} (h : Clean .windows components) :
    '\\' ∉ joined components := by
  intro hin
  rcases mem_join hin with heq | ⟨component, hmem, hin⟩
  · exact absurd heq (by decide)
  · exact absurd (by decide) ((h component hmem).2 _ hin)

theorem toUnix_join {components : List Text} (h : Clean pathStyle components) :
    toUnix pathStyle (joined components) = joined components := by
  cases pathStyle with
  | unix => rfl
  | windows =>
    exact replace_of_not_mem (backslash_not_mem_join h)

theorem toUnix_display {components : List Text} (h : Clean pathStyle components) :
    toUnix pathStyle (RelPath.display ⟨joined components⟩ pathStyle) = joined components := by
  cases pathStyle with
  | unix => rfl
  | windows =>
    have hback := backslash_not_mem_join h
    rw [RelPath.display]
    split_ifs with hslash
    · show replace '\\' '/' (replace '/' '\\' (joined components)) = _
      rw [replace, replace, List.map_map]
      refine (List.map_congr_left ?_).trans (List.map_id _)
      intro x hx
      have hx' : x ≠ '\\' := fun heq => hback (heq ▸ hx)
      by_cases hxs : x = '/'
      · simp [hxs]
      · simp [hxs, hx']
    · exact replace_of_not_mem hback

/-- A text that stands for clean components is read as them. -/
theorem newBuf_of_toUnix {components : List Text} {text : Text} (h : Clean pathStyle components)
    (hrelative : isAbsolute (joined components) pathStyle = false)
    (htext : toUnix pathStyle text = joined components) :
    newBuf text pathStyle = .ok ⟨joined components⟩ := by
  have hrelative' : isAbsolute text pathStyle = false := by
    rw [← isAbsolute_toUnix, htext, hrelative]
  have hfree : ∀ component ∈ components, separator ∉ component :=
    fun component hmem hin => (h component hmem).2 _ hin slash_mem_separatorsCh
  have hsplit : split pathStyle text = if components = [] then [[]] else components := by
    rw [← splitOn_toUnix, htext]
    split_ifs with hnil
    · rw [hnil]
      rfl
    · exact List.splitOn_intercalate separator hfree hnil
  have hresolve : resolve kind (split pathStyle text) = some components := by
    rw [hsplit]
    split_ifs with hnil
    · rw [hnil]
      rfl
    · exact resolve_of_down fun component hmem => (h component hmem).1
  have hstripped : ¬ isAbsolute (stripSuffixes pathStyle (stripPrefixes pathStyle text)) pathStyle
      = true := by
    rw [isAbsolute_strip]
    rintro (⟨habsolute, -⟩ | ⟨dots, rest, hdots, hall, hpath, -, -⟩)
    · rw [hrelative'] at habsolute
      cases habsolute
    · -- a text with a "./" in front has a component that does not remain
      obtain ⟨d, dots, rfl⟩ := List.exists_cons_of_ne_nil hdots
      obtain ⟨c, hc, rfl⟩ := mem_prefixes.mp (hall d (by simp))
      have hpath' : text = '.' :: c :: (dots.flatten ++ rest) := hpath
      rw [hpath', split_dot_cons hc] at hsplit
      split_ifs at hsplit with hnil
      · cases hsplit
      · have hdown := (h ['.'] (by rw [← hsplit]; simp)).1
        exact absurd hdown (by decide)
  rw [newBuf_eq rfl, if_neg hstripped, hresolve]

/-! ### The misread texts are the only ones -/

theorem depth_eq_some {steps : List Text} {n : ℕ} : depth kind steps = some n ↔
    ∃ remaining, resolve kind steps = some remaining ∧ remaining.length = n := by
  rw [depth_eq, Option.map_eq_some_iff]

theorem newBuf_bareRoot {path : Text} (h : BareRoot path pathStyle) :
    isAbsolute path pathStyle = true ∧ ∃ result, newBuf path pathStyle = .ok result := by
  obtain ⟨hwindows, drive, separators, hdrive, hne, hall, hpath⟩ := id h
  have habsolute : isAbsolute path pathStyle = true := by
    obtain ⟨c, rest, rfl⟩ := List.exists_cons_of_ne_nil hne
    exact isAbsolute_iff.mpr (.inr ⟨hwindows, drive, c, rest, hdrive,
      hwindows ▸ hall c (by simp), hpath⟩)
  have hfree : ∀ c ∈ [drive, ':'], c ∉ pathStyle.separatorsCh := by
    intro c hc
    simp only [List.mem_cons, List.not_mem_nil, or_false] at hc
    rcases hc with rfl | rfl
    · exact not_mem_separatorsCh_of_isAlpha hdrive
    · exact colon_not_mem_separatorsCh
  have hresolve : resolve kind (split pathStyle path) = some [[drive, ':']] := by
    have hsplit : path = [drive, ':'] ++ separators := hpath
    rw [hsplit, resolve_split_separators hall, split_of_free hfree]
    refine resolve_of_down fun component hmem => ?_
    rw [List.mem_singleton.mp hmem, kind_eq_down]
    simp
  have hstripped : ¬ isAbsolute (stripSuffixes pathStyle (stripPrefixes pathStyle path)) pathStyle
      = true := by
    rw [stripPrefixes_of_isAbsolute habsolute, isAbsolute_stripSuffixes]
    exact fun hbare => hbare.2 h
  refine ⟨habsolute, ⟨joined [[drive, ':']]⟩, ?_⟩
  rw [newBuf_eq rfl, if_neg hstripped, hresolve]

theorem isAbsolute_dots {dots : List Text} {rest : Text} (hne : dots ≠ [])
    (hdots : ∀ d ∈ dots, d ∈ prefixes pathStyle) :
    isAbsolute (dots.flatten ++ rest) pathStyle = false := by
  obtain ⟨d, dots, rfl⟩ := List.exists_cons_of_ne_nil hne
  obtain ⟨c, hc, rfl⟩ := mem_prefixes.mp (hdots d (by simp))
  exact isAbsolute_dot

theorem acceptsRelative_of_some {path : Text} {components : List Text}
    (h : resolve kind (split pathStyle path) = some components)
    (hrelative : isAbsolute path pathStyle = false) :
    AcceptsRelative path pathStyle ↔ newBuf path pathStyle = .ok ⟨joined components⟩ ∧
      isAbsolute (joined components) pathStyle = false := by
  rw [AcceptsRelative, h, hrelative]

theorem acceptsRelative_of_not {path : Text}
    (h : resolve kind (split pathStyle path) = none ∨ isAbsolute path pathStyle = true) :
    AcceptsRelative path pathStyle ↔ ∃ error, newBuf path pathStyle = .error error := by
  rw [AcceptsRelative]
  rcases h with h | h
  · rw [h]
  · rw [h]
    cases resolve kind (split pathStyle path) with
    | none => rfl
    | some components => rfl

theorem reachesDrive_iff {path : Text} : ReachesDrive path pathStyle ↔
    isAbsolute path pathStyle = false ∧ ∃ components,
      resolve kind (split pathStyle path) = some components ∧
        isAbsolute (joined components) pathStyle = true := by
  constructor
  · rintro ⟨hwindows, hrelative, before, drive, after, n, hdrive, hsplit, hbefore, hafter⟩
    obtain ⟨remaining, hremaining, hlength⟩ := depth_eq_some.mp hbefore
    obtain ⟨rest, hrest, hlength'⟩ := depth_eq_some.mp hafter
    rw [List.length_eq_zero_iff.mp hlength] at hremaining
    have hresolve : resolve kind (split pathStyle path) = some ([drive, ':'] :: rest) :=
      resolve_eq_cons.mpr ⟨before, after, hsplit, kind_eq_down.mpr (by simp), hremaining, hrest⟩
    refine ⟨hrelative, _, hresolve, (isAbsolute_join (clean_of_resolve hresolve)).mpr ?_⟩
    refine ⟨hwindows, drive, rest, hdrive, ?_, rfl⟩
    rintro rfl
    cases hlength'
  · rintro ⟨hrelative, components, hresolve, habsolute⟩
    obtain ⟨hwindows, drive, rest, hdrive, hne, rfl⟩ :=
      (isAbsolute_join (clean_of_resolve hresolve)).mp habsolute
    obtain ⟨before, after, hsplit, -, hbefore, hafter⟩ := resolve_eq_cons.mp hresolve
    refine ⟨hwindows, hrelative, before, drive, after, rest.length - 1, hdrive, hsplit,
      depth_eq_some.mpr ⟨[], hbefore, rfl⟩, depth_eq_some.mpr ⟨rest, hafter, ?_⟩⟩
    have hpos := List.length_pos_iff.mpr hne
    omega

/-- **`RelPath.new` on every text.**  It accepts exactly the relative texts, and its paths are
read back, unless the text is misread. -/
theorem new_accepts_relative (path : Text) (pathStyle : PathStyle) :
    (AcceptsRelative path pathStyle ∧ ReadsBack path pathStyle) ↔ ¬ Misread path pathStyle := by
  constructor
  · rintro ⟨haccepts, -⟩ (hbare | ⟨dots, rest, hne, hdots, hpath, habsolute, hbare, hdepth⟩ |
      hdrive)
    · obtain ⟨habsolute, result, hnew⟩ := newBuf_bareRoot hbare
      obtain ⟨error, herror⟩ := (acceptsRelative_of_not (.inr habsolute)).mp haccepts
      rw [hnew] at herror
      cases herror
    · -- the text is relative, but what is left without its `.` components is not
      have hrelative : isAbsolute path pathStyle = false := by
        rw [hpath]
        exact isAbsolute_dots hne hdots
      have hchecked := isAbsolute_strip.mpr (.inr ⟨dots, rest, hne, hdots, hpath, habsolute, hbare⟩)
      obtain ⟨n, hn⟩ := Option.ne_none_iff_exists'.mp hdepth
      obtain ⟨components, hresolve, -⟩ := depth_eq_some.mp hn
      have hnew := ((acceptsRelative_of_some hresolve hrelative).mp haccepts).1
      rw [newBuf_eq rfl, if_pos hchecked] at hnew
      cases hnew
    · obtain ⟨hrelative, components, hresolve, habsolute⟩ := reachesDrive_iff.mp hdrive
      -- the text is relative, but its own components joined are absolute
      have hjoin := ((acceptsRelative_of_some hresolve hrelative).mp haccepts).2
      rw [habsolute] at hjoin
      cases hjoin
  · intro hread
    simp only [Misread, not_or] at hread
    obtain ⟨hbare, huncovered, hdrive⟩ := hread
    -- without a bare root, `new` refuses all that is absolute or climbs out
    have herror : resolve kind (split pathStyle path) = none ∨ isAbsolute path pathStyle = true →
        ∃ error, newBuf path pathStyle = .error error := by
      rintro (hnone | habsolute)
      · rw [newBuf_eq rfl, hnone]
        split_ifs with hchecked
        · exact ⟨_, rfl⟩
        · exact ⟨_, rfl⟩
      · rw [newBuf_eq rfl, if_pos (isAbsolute_strip.mpr (.inl ⟨habsolute, hbare⟩))]
        exact ⟨_, rfl⟩
    by_cases hwrong : resolve kind (split pathStyle path) = none ∨ isAbsolute path pathStyle = true
    · obtain ⟨error, hnew⟩ := herror hwrong
      refine ⟨(acceptsRelative_of_not hwrong).mpr ⟨error, hnew⟩, fun result hresult => ?_⟩
      rw [hnew] at hresult
      cases hresult
    · obtain ⟨hsome, hrelative⟩ := not_or.mp hwrong
      obtain ⟨components, hresolve⟩ := Option.ne_none_iff_exists'.mp hsome
      rw [Bool.not_eq_true] at hrelative
      have hchecked : ¬ isAbsolute (stripSuffixes pathStyle (stripPrefixes pathStyle path))
          pathStyle = true := by
        rw [isAbsolute_strip]
        rintro (⟨habsolute, -⟩ | ⟨dots, rest, hne, hdots, hpath, habsolute, hbare'⟩)
        · rw [hrelative] at habsolute
          cases habsolute
        · refine huncovered ⟨dots, rest, hne, hdots, hpath, habsolute, hbare', ?_⟩
          rw [depth_eq, hresolve]
          simp
      have hnew : newBuf path pathStyle = .ok ⟨joined components⟩ := by
        rw [newBuf_eq rfl, if_neg hchecked, hresolve]
      have hjoin : isAbsolute (joined components) pathStyle = false := by
        rw [Bool.eq_false_iff]
        exact fun habsolute =>
          hdrive (reachesDrive_iff.mpr ⟨hrelative, components, hresolve, habsolute⟩)
      have hclean := clean_of_resolve hresolve
      refine ⟨(acceptsRelative_of_some hresolve hrelative).mpr ⟨hnew, hjoin⟩, ?_⟩
      intro result hresult
      rw [hnew] at hresult
      rw [← Except.ok.inj hresult]
      exact ⟨newBuf_of_toUnix hclean hjoin (toUnix_join hclean),
        newBuf_of_toUnix hclean hjoin (toUnix_display hclean)⟩

/-- A text of each kind: the drive `C:\`, the relative `.//foo`, and `a/../C:/x`, which becomes
the absolute `C:/x`. -/
theorem new_misreads :
    ¬ AcceptsRelative ['C', ':', '\\'] .windows ∧
      ¬ AcceptsRelative ['.', '/', '/', 'f', 'o', 'o'] .unix ∧
      ¬ AcceptsRelative ['a', '/', '.', '.', '/', 'C', ':', '/', 'x'] .windows ∧
      ¬ ReadsBack ['a', '/', '.', '.', '/', 'C', ':', '/', 'x'] .windows := by
  have hbare : newBuf ['C', ':', '\\'] .windows = .ok ⟨['C', ':']⟩ := by decide +kernel
  have hdots : newBuf ['.', '/', '/', 'f', 'o', 'o'] .unix
      = .error (.absolutePathNotAllowed ['/', 'f', 'o', 'o']) := by decide +kernel
  have hdrive : newBuf ['a', '/', '.', '.', '/', 'C', ':', '/', 'x'] .windows
      = .ok ⟨['C', ':', '/', 'x']⟩ := by decide +kernel
  have hagain : newBuf ['C', ':', '/', 'x'] .windows
      = .error (.absolutePathNotAllowed ['C', ':', '/', 'x']) := by decide +kernel
  refine ⟨fun h => ?_, fun h => ?_, fun h => ?_, fun h => ?_⟩
  · obtain ⟨error, herror⟩ := (acceptsRelative_of_not (.inr (by decide))).mp h
    rw [hbare] at herror
    cases herror
  · have hresolve : resolve kind (split .unix ['.', '/', '/', 'f', 'o', 'o'])
        = some [['f', 'o', 'o']] := by decide
    have hnew := ((acceptsRelative_of_some hresolve (by decide)).mp h).1
    rw [hdots] at hnew
    cases hnew
  · have hresolve : resolve kind
        (split .windows ['a', '/', '.', '.', '/', 'C', ':', '/', 'x'])
        = some [['C', ':'], ['x']] := by decide
    have hjoin := ((acceptsRelative_of_some hresolve (by decide)).mp h).2
    exact absurd hjoin (by decide)
  · have hnew := (h _ hdrive).1
    rw [hagain] at hnew
    cases hnew

end Reading

end Zui.Path
