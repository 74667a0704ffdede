/-
Paths with a row and a column.

`PathWithPosition.toString` prints the row and the column behind the path, with ":" in front of
each, and `PathWithPosition.parseStr` reads them back.  It matches the last component of the text
against an expression whose groups are the file name, the row and the column, and takes as the
path what comes up to the first place in the whole text where that file name occurs.  Where the
expression does not match, the text is cut at its last two ":".

Main statements:

* `search_file_name`, `search_eq_none_of_plain` — what the expression captures;
* `splitOnce_eq_iff` — the first place where a text occurs;
* `parse_str_to_string_iff` — the printed positions that are read back.
-/
import Zui.Gpui.Basic
import Zui.Library.Regex
import Zui.Library.Text
import Zui.Paths.RelPaths

namespace Zui.Paths

open Zui.Path (Text)

/-! ### The functions -/

/-- The class `\d` of the expressions: the decimal digits of Unicode. -/
structure DecimalDigits where
  isDigit : Char → Bool
  ascii : ∀ c : Char, c.toNat < 128 → isDigit c = c.isDigit

namespace RowCol

variable (digits : DecimalDigits)

/-- A character. -/
def char (c : Char) : Regex := .one (· = c)

/-- `\d+` in a group. -/
def number : Regex := .group (.many digits.isDigit)

/-- `\((\d+)[,:](\d+)\)` -/
def rowColumnInParens : Regex :=
  .seq (char '(') (.seq (number digits) (.seq (.one fun c => c = ',' ∨ c = ':')
    (.seq (number digits) (char ')'))))

/-- `\((\d+)\)()` -/
def rowInParens : Regex :=
  .seq (char '(') (.seq (number digits) (.seq (char ')') (.group .empty)))

/-- `([^\(]+)\:(?: .. )` -/
def parensBehindColon : Regex :=
  .seq (.group (.many (· ≠ '('))) (.seq (char ':')
    (.alt (rowColumnInParens digits) (rowInParens digits)))

/-- `([^\(]+)(?: .. )\:*$` -/
def parensAtEnd : Regex :=
  .seq (.group (.many (· ≠ '('))) (.seq (.alt (rowColumnInParens digits) (rowInParens digits))
    (.seq (.star (· = ':')) .atEnd))

/-- `\:+(\d+)\:(\d+)\:*$` -/
def rowColumn : Regex :=
  .seq (.many (· = ':')) (.seq (number digits) (.seq (char ':') (.seq (number digits)
    (.seq (.star (· = ':')) .atEnd))))

/-- `\:+(\d+)\:*()$` -/
def row : Regex :=
  .seq (.many (· = ':')) (.seq (number digits) (.seq (.star (· = ':'))
    (.seq (.group .empty) .atEnd)))

/-- `\:+()()$` -/
def colons : Regex :=
  .seq (.many (· = ':')) (.seq (.group .empty) (.seq (.group .empty) .atEnd))

/-- The alternatives behind a lazy file name. -/
def position : Regex := .alt (rowColumn digits) (.alt (row digits) colons)

/-- `(.+?)(?: .. )` -/
def colonSeparated : Regex :=
  .seq (.group (.few fun _ => true)) (position digits)

/-- `ROW_COL_CAPTURE_REGEX`. -/
def captureRegex : Regex :=
  .alt (parensBehindColon digits) (.alt (parensAtEnd digits) (colonSeparated digits))

end RowCol

/-- `PathWithPosition`. -/
structure PathWithPosition where
  path : PathBuf
  row : Option ℕ
  column : Option ℕ
  deriving DecidableEq

/-- `str::rsplitn`. -/
def rsplitn : ℕ → Char → Text → List Text
  | 0, _, _ => []
  | 1, _, s => [s]
  | n + 2, delimiter, s =>
    match rsplitOnce delimiter s with
    | none => [s]
    | some (before, behind) => behind :: rsplitn (n + 1) delimiter before

/-- `str::parse::<u32>`. -/
def parseU32 (s : Text) : Option ℕ := parseUnsigned Gpui.u32Max s

namespace PathWithPosition

/-- The parts behind the path, where they are not a position. -/
def pushParts (pathString : Text) (pathParts : List Text) : Text :=
  pathParts.foldl (fun pathString split => pathString ++ ':' :: split) pathString

/-- The position in the parts of a text between ":". -/
def ofParts : List Text → Gpui.Result PathWithPosition
  | [] => .error .unwrapNone
  | [pathString] => .ok ⟨⟨pathString⟩, none, none⟩
  | pathString :: maybeRow :: pathParts =>
    match parseU32 maybeRow with
    | some row =>
      .ok ⟨⟨pushParts pathString pathParts.tail⟩, some row, pathParts.head?.bind parseU32⟩
    | none => .ok ⟨⟨pushParts (pathString ++ ':' :: maybeRow) pathParts⟩, none, none⟩

/-- `parse_str`. -/
def parseStr (digits : DecimalDigits) (s : Text) : Gpui.Result PathWithPosition :=
  let trimmed := trim s
  -- `unwrap_or_default`
  let maybeFileNameWithRowCol := (PathBuf.mk trimmed).fileName.getD []
  if maybeFileNameWithRowCol = [] then .ok ⟨⟨s⟩, none, none⟩
  else
    match (RowCol.captureRegex digits).search maybeFileNameWithRowCol with
    | some [fileName, maybeRow, maybeColumn] =>
      match splitOnce fileName trimmed with
      | some (_, suffix) =>
        .ok ⟨⟨trimmed.take (trimmed.length - suffix.length)⟩, parseU32 maybeRow,
          parseU32 maybeColumn⟩
      | none => .error .unwrapNone
    -- `extract` of another number of groups
    | some _ => .error .unreachable
    | none => ofParts (rsplitn 3 ':' s).reverse

/-- `to_string`. -/
def toString (self : PathWithPosition) (pathToString : PathBuf → Text) : Text :=
  let pathString := pathToString self.path
  match self.row with
  | some row =>
    match self.column with
    | some column => pathString ++ ':' :: display row ++ ':' :: display column
    | none => pathString ++ ':' :: display row
  | none => pathString

end PathWithPosition

/-! ### What the expression matches -/

namespace RowCol

variable {digits : DecimalDigits} {s u v : Text} {c : Char} {m : Regex.Way} {n k : ℕ}

theorem isDigit_of_mem_display {n : ℕ} (h : c ∈ display n) : digits.isDigit c = true := by
  have hdigit := Paths.isDigit_of_mem_display h
  rw [digits.ascii c, hdigit]
  rw [Char.isDigit, Bool.and_eq_true, decide_eq_true_eq, decide_eq_true_eq] at hdigit
  have hle : c.val ≤ 57 := hdigit.2
  exact Nat.lt_of_le_of_lt (UInt32.le_iff_toNat_le.mp hle) (by decide)

theorem isDigit_colon : digits.isDigit ':' = false := digits.ascii ':' (by decide)

theorem neverOn_parens (h : '(' ∉ s) :
    (Regex.alt (rowColumnInParens digits) (rowInParens digits)).NeverOn s := by
  have hparen : (char '(').NeverOn s :=
    Regex.neverOn_one fun c hc => decide_eq_false fun heq => h (heq ▸ hc)
  exact hparen.seq_left.alt hparen.seq_left

theorem search_captureRegex (h : '(' ∉ s) (hm : (colonSeparated digits).Takes s m) :
    (captureRegex digits).search s = some m.1 := by
  have hbehind : (parensBehindColon digits).NeverOn s := (neverOn_parens h).seq_right.seq_right
  have hend : (parensAtEnd digits).NeverOn s := (neverOn_parens h).seq_left.seq_right
  have htakes := (hm.alt_right (hend s List.suffix_rfl)).alt_right (hbehind s List.suffix_rfl)
  exact htakes.search

theorem position_eq_nil (h : ∀ d ∈ s.head?, d ≠ ':') :
    (position digits).ways s = [] := by
  have hcolon : (Regex.many (· = ':')).ways s = [] :=
    Regex.many_eq_nil fun d hd => decide_eq_false (h d hd)
  exact Regex.alt_eq_nil (Regex.seq_eq_nil_left hcolon)
    (Regex.alt_eq_nil (Regex.seq_eq_nil_left hcolon) (Regex.seq_eq_nil_left hcolon))

theorem neverOn_position (h : ':' ∉ s) :
    (position digits).NeverOn s :=
  fun _ ht => position_eq_nil fun _ hd heq => h (ht.subset (heq ▸ List.mem_of_mem_head? hd))

theorem takes_colon (h : ∀ d ∈ s.head?, d ≠ ':') :
    (Regex.many (· = ':')).Takes (':' :: s) ([], s) :=
  Regex.takes_many (u := [':']) (by simp) (by simp) fun d hd => decide_eq_false (h d hd)

theorem takes_star_colon_nil : (Regex.star (· = ':')).Takes [] ([], []) :=
  Regex.takes_star_none (by simp)

theorem takes_number (h : ∀ d ∈ s.head?, digits.isDigit d = false) :
    (number digits).Takes (display n ++ s) ([display n], s) :=
  (Regex.takes_many display_ne_nil (fun _ hd => isDigit_of_mem_display hd) h).group

theorem takes_number_end : (number digits).Takes (display n) ([display n], []) := by
  have hnumber : (number digits).Takes (display n ++ []) ([display n], []) := takes_number (by simp)
  rwa [List.append_nil] at hnumber

theorem head_display_ne (h : c.isDigit = false) : ∀ d ∈ (display n ++ s).head?, d ≠ c := by
  intro d hd heq
  have hmem : d ∈ (display n).head? := by
    rw [List.head?_append_of_ne_nil _ display_ne_nil] at hd
    exact hd
  exact not_mem_display h (heq ▸ List.mem_of_mem_head? hmem)

theorem takes_rowColumn :
    (rowColumn digits).Takes (':' :: display n ++ ':' :: display k)
      ([display n, display k], []) := by
  have hcolon := takes_colon (head_display_ne (n := n) (s := ':' :: display k) (c := ':') rfl)
  have hrow : (number digits).Takes (display n ++ ':' :: display k)
      ([display n], ':' :: display k) := takes_number (by simp [isDigit_colon])
  exact hcolon.seq (hrow.seq ((Regex.takes_one (by simp)).seq
    (takes_number_end.seq (takes_star_colon_nil.seq Regex.takes_atEnd))))

theorem not_colon_of_mem_display : ∀ d ∈ display n, d ≠ ':' :=
  fun _ hd heq => not_mem_display (n := n) (c := ':') rfl (heq ▸ hd)

theorem rowColumn_row : (rowColumn digits).ways (':' :: display n) = [] := by
  refine Regex.ways_seq_eq_nil fun m hm => ?_
  have hcolon : (char ':').NeverOn (display n) :=
    Regex.neverOn_one fun d hd => decide_eq_false (not_colon_of_mem_display d hd)
  exact hcolon.seq_left.seq_right m.2 (Regex.many_suffix hm)

theorem takes_row : (row digits).Takes (':' :: display n) ([display n, []], []) := by
  have hcolon : (Regex.many (· = ':')).Takes (':' :: display n) ([], display n) := by
    simpa using takes_colon (head_display_ne (n := n) (s := []) (c := ':') rfl)
  have hempty : (Regex.group .empty).Takes [] ([[]], []) :=
    Regex.Takes.group (u := []) Regex.takes_empty
  exact hcolon.seq (takes_number_end.seq (takes_star_colon_nil.seq
    (hempty.seq Regex.takes_atEnd)))

/-- What is behind the file name, if that comes first. -/
theorem search_file_name {name : Text} (hne : name ≠ []) (hparen : '(' ∉ name ++ v)
    (hcolon : ':' ∉ name.tail)
    (hv : (position digits).Takes v m) :
    (captureRegex digits).search (name ++ v) = some (name :: m.1) := by
  refine search_captureRegex hparen (Regex.takes_few hne (fun _ _ => rfl) ?_ hv)
  -- a shorter file name is followed by another of its characters
  intro w hw hsuffix
  refine position_eq_nil fun d hd heq => hcolon (hsuffix.subset ?_)
  rw [List.head?_append_of_ne_nil _ hw] at hd
  exact heq ▸ List.mem_of_mem_head? hd

/-- A text without ":" behind its first character is not matched. -/
theorem search_eq_none_of_plain (hparen : '(' ∉ s) (hcolon : ':' ∉ s.tail) :
    (captureRegex digits).search s = none := by
  have hbehind : (parensBehindColon digits).NeverOn s :=
    (neverOn_parens hparen).seq_right.seq_right
  have hend : (parensAtEnd digits).NeverOn s := (neverOn_parens hparen).seq_left.seq_right
  have hseparated : (colonSeparated digits).NeverOn s := by
    intro t ht
    have htail : t.tail <:+ s.tail := by
      cases s with
      | nil => exact (List.suffix_nil.mp ht) ▸ List.suffix_rfl
      | cons d s =>
        rcases List.suffix_cons_iff.mp ht with rfl | ht
        · exact List.suffix_rfl
        · exact (List.tail_suffix t).trans ht
    exact Regex.ways_seq_eq_nil fun m hm =>
      neverOn_position hcolon m.2 ((Regex.group_few_suffix hm).trans htail)
  exact Regex.search_eq_none (hbehind.alt (hend.alt hseparated))

end RowCol

/-! ### The functions on texts -/

theorem trim_of_none {s : Text} (h : ∀ c ∈ s, isWhitespace c = false) : trim s = s :=
  trim_eq_self (fun c hc => h c (List.mem_of_mem_head? hc))
    fun c hc => h c (List.mem_of_mem_getLast? hc)

/-- A text is split at the first place where the delimiter stands. -/
theorem splitOnce_eq_some {delimiter s before behind : Text}
    (h : splitOnce delimiter s = some (before, behind)) :
    s = before ++ delimiter ++ behind ∧ ∀ i < before.length, ¬ delimiter <+: s.drop i := by
  induction s generalizing before with
  | nil =>
    rw [splitOnce] at h
    split at h
    · next hempty =>
      cases h
      exact ⟨by simp [hempty], by simp⟩
    · cases h
  | cons c s ih =>
    rw [splitOnce] at h
    split at h
    · next hprefix =>
      obtain ⟨behind', hbehind⟩ := List.isPrefixOf_iff_prefix.mp hprefix
      cases h
      exact ⟨by rw [← hbehind]; simp, by simp⟩
    · next hnot =>
      obtain ⟨⟨before', behind'⟩, hsplit, heq⟩ := Option.map_eq_some_iff.mp h
      cases heq
      obtain ⟨hs, hfirst⟩ := ih hsplit
      refine ⟨by rw [hs]; simp, fun i hi => ?_⟩
      cases i with
      | zero => exact mt List.isPrefixOf_iff_prefix.mpr hnot
      | succ i => exact hfirst i (by simpa using hi)

theorem splitOnce_eq_none {delimiter s : Text} (h : splitOnce delimiter s = none) :
    ∀ i, ¬ delimiter <+: s.drop i := by
  induction s with
  | nil =>
    intro i hprefix
    rw [splitOnce] at h
    split at h
    · cases h
    · next hne => exact hne (by simpa using hprefix)
  | cons c s ih =>
    intro i
    rw [splitOnce] at h
    split at h
    · cases h
    · next hnot =>
      cases i with
      | zero => exact mt List.isPrefixOf_iff_prefix.mpr hnot
      | succ i => exact ih (Option.map_eq_none_iff.mp h) i

theorem splitOnce_of_append (front name suffix : Text) :
    ∃ before behind, splitOnce name (front ++ name ++ suffix) = some (before, behind) ∧
      front ++ name ++ suffix = before ++ name ++ behind ∧
      (before = front ↔ ∀ i < front.length, ¬ name <+: (front ++ name ++ suffix).drop i) := by
  have hstands : name <+: (front ++ name ++ suffix).drop front.length := by
    simp
  cases hsplit : splitOnce name (front ++ name ++ suffix) with
  | none => exact absurd hstands (splitOnce_eq_none hsplit _)
  | some cut =>
    obtain ⟨before, behind⟩ := cut
    obtain ⟨heq, hfirst⟩ := splitOnce_eq_some hsplit
    refine ⟨before, behind, rfl, heq, fun hbefore => hbefore ▸ hfirst, fun hnone => ?_⟩
    have hstands' : name <+: (front ++ name ++ suffix).drop before.length := by
      rw [heq]
      simp
    -- neither of the two places is in front of the other
    have hle : front.length ≤ before.length := by
      by_contra hlt
      exact hnone _ (by omega) hstands'
    have hge : before.length ≤ front.length := by
      by_contra hlt
      exact hfirst _ (by omega) hstands
    have htake := congrArg (List.take front.length) heq
    rw [List.append_assoc, List.append_assoc, List.take_left,
      show front.length = before.length by omega, List.take_left] at htake
    exact htake.symm

theorem rsplitOnce_eq_none {delimiter : Char} {s : Text} (h : delimiter ∉ s) :
    rsplitOnce delimiter s = none := by
  rw [rsplitOnce, lastIdxOf?_eq_none h]
  rfl

theorem rsplitOnce_append_cons {delimiter : Char} {before behind : Text} (h : delimiter ∉ behind) :
    rsplitOnce delimiter (before ++ delimiter :: behind) = some (before, behind) := by
  rw [rsplitOnce, lastIdxOf?_append_cons h]
  simp

theorem mem_intercalate {sep c : Char} {xs : List Text} :
    c ∈ [sep].intercalate xs → c = sep ∨ ∃ x ∈ xs, c ∈ x := by
  induction xs with
  | nil =>
    intro h
    simp at h
  | cons x xs ih =>
    intro h
    by_cases hxs : xs = []
    · subst hxs
      exact .inr ⟨x, by simp, by simpa using h⟩
    · rw [List.intercalate_cons_of_ne_nil hxs, List.append_assoc] at h
      rcases List.mem_append.mp h with h | h
      · exact .inr ⟨x, by simp, h⟩
      · rcases List.mem_cons.mp h with h | h
        · exact .inl h
        · exact (ih h).imp_right fun ⟨y, hy, hc⟩ => ⟨y, by simp [hy], hc⟩

theorem subset_intercalate {sep : Char} {x : Text} {xs : List Text} (h : x ∈ xs) :
    x ⊆ [sep].intercalate xs := by
  induction xs with
  | nil => cases h
  | cons y xs ih =>
    by_cases hxs : xs = []
    · subst hxs
      simp [List.mem_singleton.mp h]
    · rw [List.intercalate_cons_of_ne_nil hxs, List.append_assoc]
      rcases List.mem_cons.mp h with rfl | h
      · exact List.subset_append_left _ _
      · intro c hc
        exact List.mem_append_right _ (List.mem_cons_of_mem _ (ih h hc))

namespace PathBuf

/-- A file name is a part of the text. -/
theorem subset_of_fileName {self : PathBuf} {name : Text} (h : self.fileName = some name) :
    name ⊆ self.text := by
  have hpiece : ∀ {piece : Text} {component : Component},
      Component.parse piece = some component → component = .normal name → name = piece := by
    intro piece component hparse hcomponent
    subst hcomponent
    rw [Component.parse] at hparse
    split at hparse
    · cases hparse
    · split at hparse
      · cases hparse
      · cases hparse
        rfl
  have hlast : .normal name ∈ self.components := by
    rw [fileName] at h
    split at h
    · next hlast =>
      cases h
      exact List.mem_of_getLast? hlast
    · cases h
  have hmem : name ∈ self.text.splitOn '/' := by
    rw [components] at hlast
    split at hlast
    · cases hlast
    · next piece pieces hsplit =>
      rw [hsplit]
      rcases List.mem_append.mp hlast with hfirst | hmore
      · rw [Option.mem_toList, first] at hfirst
        split at hfirst
        · cases hfirst
        · split at hfirst
          · cases hfirst
          · exact hpiece hfirst rfl ▸ List.mem_cons_self
      · obtain ⟨piece', hpiece', hparse⟩ := List.mem_filterMap.mp hmore
        exact hpiece hparse rfl ▸ List.mem_cons_of_mem _ hpiece'
  have hsubset : name ⊆ ['/'].intercalate (self.text.splitOn '/') := subset_intercalate hmem
  rwa [List.intercalate_splitOn] at hsubset

/-- The file name of a text is what stands behind its last separator. -/
theorem fileName_append {front last : Text} (hfront : front = [] ∨ ∃ xs, front = xs ++ ['/'])
    (hlast : '/' ∉ last) (hcolon : ':' ∈ last) :
    (PathBuf.mk (front ++ last)).fileName = some last := by
  have hempty : last ≠ [] := fun heq => by simp [heq] at hcolon
  have hdot : last ≠ ['.'] := fun heq => by simp [heq] at hcolon
  have hdots : last ≠ ['.', '.'] := fun heq => by simp [heq] at hcolon
  have hparse : Component.parse last = some (.normal last) := by
    rw [Component.parse, if_neg (by simp [hempty, hdot]), if_neg hdots]
  have hsplit : last.splitOn '/' = [last] := List.splitOn_eq_singleton hlast
  have hend : (PathBuf.mk (front ++ last)).components.getLast? = some (.normal last) := by
    rcases hfront with rfl | ⟨xs, rfl⟩
    · rw [components, List.nil_append, hsplit]
      simp [first, hdot, hparse]
    · rw [components, List.append_assoc, List.singleton_append, List.splitOn_append_cons_self,
        hsplit]
      cases hxs : xs.splitOn '/' with
      | nil => exact absurd hxs (List.splitOn_ne_nil _ _)
      | cons piece pieces =>
        simp [List.filterMap_append, hparse]
  rw [fileName, hend]

end PathBuf

/-! ### Printed paths -/

/-- A character of a component that no part of the printing or of the reading takes for itself. -/
def Plain (c : Char) : Prop := c ≠ '/' ∧ c ≠ ':' ∧ c ≠ '(' ∧ isWhitespace c = false

instance : DecidablePred Plain := fun _ => inferInstanceAs (Decidable (_ ∧ _))

/-- A path of components that are not empty. -/
structure PlainPath where
  isAbsolute : Bool
  components : List Text
  ne_nil : ∀ component ∈ components, component ≠ []
  plain : ∀ component ∈ components, ∀ c ∈ component, Plain c

namespace PlainPath

variable {self : PlainPath} {c : Char}

/-- The text of the path. -/
def text (self : PlainPath) : Text :=
  (if self.isAbsolute then ['/'] else []) ++ ['/'].intercalate self.components

/-- The last component, or nothing in a path without components. -/
def name (self : PlainPath) : Text := self.components.getLast?.getD []

theorem mem_text (h : c ∈ self.text) : c = '/' ∨ Plain c := by
  rcases List.mem_append.mp h with h | h
  · split at h
    · exact .inl (List.mem_singleton.mp h)
    · simp at h
  · rcases mem_intercalate h with h | ⟨component, hcomponent, hc⟩
    · exact .inl h
    · exact .inr (self.plain component hcomponent c hc)

theorem mem_name (h : c ∈ self.name) : Plain c := by
  unfold name at h
  cases hlast : self.components.getLast? with
  | none => simp [hlast] at h
  | some component =>
    rw [hlast, Option.getD_some] at h
    exact self.plain component (List.mem_of_getLast? hlast) c h

theorem colon_not_mem_text : ':' ∉ self.text := by
  intro h
  rcases mem_text h with h | h
  · exact absurd h (by decide)
  · exact h.2.1 rfl

theorem paren_not_mem_text : '(' ∉ self.text := by
  intro h
  rcases mem_text h with h | h
  · exact absurd h (by decide)
  · exact h.2.2.1 rfl

theorem not_isWhitespace_of_mem_text (h : c ∈ self.text) : isWhitespace c = false := by
  rcases mem_text h with rfl | h
  · rfl
  · exact h.2.2.2

/-- The text is a front that ends with a separator, and the last component. -/
theorem exists_front (self : PlainPath) :
    ∃ front, self.text = front ++ self.name ∧ (front = [] ∨ ∃ xs, front = xs ++ ['/']) := by
  unfold text name
  rcases List.eq_nil_or_concat self.components with hnil | ⟨init, last, hconcat⟩
  · refine ⟨if self.isAbsolute then ['/'] else [], by simp [hnil], ?_⟩
    split
    · exact .inr ⟨[], rfl⟩
    · exact .inl rfl
  · rw [hconcat, List.concat_eq_append]
    by_cases hinit : init = []
    · refine ⟨if self.isAbsolute then ['/'] else [], by simp [hinit], ?_⟩
      split
      · exact .inr ⟨[], rfl⟩
      · exact .inl rfl
    · refine ⟨(if self.isAbsolute then ['/'] else []) ++ ['/'].intercalate init ++ ['/'], ?_,
        .inr ⟨_, rfl⟩⟩
      rw [intercalate_concat hinit]
      simp

end PlainPath

/-! ### Reading what is printed -/

namespace PathWithPosition

variable {digits : DecimalDigits} {path : PlainPath} {row column : ℕ} {s : Text}

theorem rsplitn_of_not_mem {n : ℕ} {delimiter : Char} (h : delimiter ∉ s) :
    rsplitn (n + 1) delimiter s = [s] := by
  cases n with
  | zero => rfl
  | succ n => rw [rsplitn, rsplitOnce_eq_none h]

theorem parseStr_text : parseStr digits path.text = .ok ⟨⟨path.text⟩, none, none⟩ := by
  have htrim : trim path.text = path.text :=
    trim_of_none fun c hc => PlainPath.not_isWhitespace_of_mem_text hc
  have hparts : ofParts (rsplitn 3 ':' path.text).reverse =
      .ok ⟨⟨path.text⟩, none, none⟩ := by
    rw [rsplitn_of_not_mem PlainPath.colon_not_mem_text]
    rfl
  simp only [parseStr, htrim]
  split
  · rfl
  · next hname =>
    obtain ⟨name, hfile⟩ : ∃ name, (PathBuf.mk path.text).fileName = some name := by
      cases hfile : (PathBuf.mk path.text).fileName with
      | none => simp [hfile] at hname
      | some name => exact ⟨name, rfl⟩
    have hsubset := PathBuf.subset_of_fileName hfile
    rw [hfile, Option.getD_some, RowCol.search_eq_none_of_plain
      (fun h => PlainPath.paren_not_mem_text (hsubset h))
      (fun h => PlainPath.colon_not_mem_text (hsubset (List.mem_of_mem_tail h)))]
    exact hparts

/-- The position as it is printed. -/
def positionText (row : ℕ) : Option ℕ → Text
  | some column => ':' :: display row ++ ':' :: display column
  | none => ':' :: display row

theorem toString_row (path : Text) (row : ℕ) (column : Option ℕ) :
    toString ⟨⟨path⟩, some row, column⟩ PathBuf.text = path ++ positionText row column := by
  cases column with
  | none => rfl
  | some column => exact List.append_assoc _ _ _

theorem mem_positionText {column : Option ℕ} {c : Char} (h : c ∈ positionText row column) :
    c = ':' ∨ c.isDigit = true := by
  cases column with
  | none =>
    rcases List.mem_cons.mp h with h | h
    · exact .inl h
    · exact .inr (isDigit_of_mem_display h)
  | some column =>
    rcases List.mem_append.mp h with h | h <;> rcases List.mem_cons.mp h with h | h
    · exact .inl h
    · exact .inr (isDigit_of_mem_display h)
    · exact .inl h
    · exact .inr (isDigit_of_mem_display h)

theorem not_mem_positionText {column : Option ℕ} {c : Char} (hcolon : c ≠ ':')
    (hdigit : c.isDigit = false) : c ∉ positionText row column := fun h =>
  (mem_positionText h).elim hcolon fun h => Bool.false_ne_true (hdigit.symm.trans h)

theorem isWhitespace_of_isDigit {c : Char} (h : c.isDigit = true) : isWhitespace c = false := by
  rw [Char.isDigit, Bool.and_eq_true, decide_eq_true_eq, decide_eq_true_eq] at h
  have hlow : 48 ≤ c.toNat := UInt32.le_iff_toNat_le.mp h.1
  have hhigh : c.toNat ≤ 57 := UInt32.le_iff_toNat_le.mp h.2
  simp only [isWhitespace, Bool.or_eq_false_iff, Bool.and_eq_false_iff, decide_eq_false_iff_not,
    beq_eq_false_iff_ne]
  omega

theorem trim_printed {column : Option ℕ} :
    trim (path.text ++ positionText row column) = path.text ++ positionText row column := by
  refine trim_of_none fun c hc => ?_
  rcases List.mem_append.mp hc with hc | hc
  · exact PlainPath.not_isWhitespace_of_mem_text hc
  · rcases mem_positionText hc with rfl | hc
    · rfl
    · exact isWhitespace_of_isDigit hc

theorem fileName_printed {column : Option ℕ} :
    (PathBuf.mk (path.text ++ positionText row column)).fileName =
      some (path.name ++ positionText row column) := by
  obtain ⟨front, htext, hfront⟩ := path.exists_front
  rw [htext, List.append_assoc]
  refine PathBuf.fileName_append hfront ?_ ?_
  · intro h
    rcases List.mem_append.mp h with h | h
    · exact (PlainPath.mem_name h).1 rfl
    · exact not_mem_positionText (by decide) (by decide) h
  · refine List.mem_append_right _ ?_
    cases column <;> exact List.mem_cons_self

/-- What the expression captures behind the file name. -/
def captured (row : ℕ) : Option ℕ → List Text
  | some column => [display row, display column]
  | none => [display row, []]

theorem takes_positionText {column : Option ℕ} :
    (RowCol.position digits).Takes (positionText row column) (captured row column, []) := by
  cases column with
  | none => exact RowCol.takes_row.alt_left.alt_right RowCol.rowColumn_row
  | some column => exact RowCol.takes_rowColumn.alt_left

theorem paren_not_mem_printed {column : Option ℕ} : '(' ∉ path.name ++ positionText row column := by
  intro h
  rcases List.mem_append.mp h with h | h
  · exact (PlainPath.mem_name h).2.2.1 rfl
  · exact not_mem_positionText (by decide) (by decide) h

theorem parseStr_of_search {piece fileName maybeRow maybeColumn before behind : Text}
    (htrim : trim s = s) (hfile : (PathBuf.mk s).fileName = some piece) (hne : piece ≠ [])
    (hsearch : (RowCol.captureRegex digits).search piece = some [fileName, maybeRow, maybeColumn])
    (hsplit : splitOnce fileName s = some (before, behind)) :
    parseStr digits s =
      .ok ⟨⟨before ++ fileName⟩, parseU32 maybeRow, parseU32 maybeColumn⟩ := by
  have htake : s.take (s.length - behind.length) = before ++ fileName := by
    rw [(splitOnce_eq_some hsplit).1, List.length_append, Nat.add_sub_cancel, List.take_left]
  simp only [parseStr, htrim, hfile, Option.getD_some, if_neg hne, hsearch, hsplit, htake]

theorem parseU32_display {n : ℕ} (h : n ≤ Gpui.u32Max) : parseU32 (display n) = some n :=
  parseUnsigned_display h

theorem parseU32_nil : parseU32 [] = none := rfl

theorem printed_ne_nil {column : Option ℕ} : path.name ++ positionText row column ≠ [] := by
  cases column <;> simp [positionText]

/-- The file name stands nowhere in the text in front of its own place. -/
def FirstPlace (name text : Text) : Prop :=
  ∀ i, i + name.length < text.length → ¬ name <+: text.drop i

theorem firstPlace_iff {front name suffix : Text} : FirstPlace name (front ++ name) ↔
    ∀ i < front.length, ¬ name <+: (front ++ name ++ suffix).drop i := by
  refine forall_congr' fun i => ?_
  rw [List.length_append, Nat.add_lt_add_iff_right]
  refine imp_congr_right fun hi => not_congr ?_
  have hdrop : (front ++ name ++ suffix).drop i = (front ++ name).drop i ++ suffix :=
    List.drop_append_of_le_length (by rw [List.length_append]; omega)
  rw [hdrop]
  constructor
  · exact fun h => h.trans (List.prefix_append _ _)
  · intro h
    refine List.prefix_of_prefix_length_le h (List.prefix_append _ _) ?_
    simp only [List.length_drop, List.length_append]
    omega

theorem exists_captured (row : ℕ) {column : Option ℕ} (hcolumn : ∀ n ∈ column, n ≤ Gpui.u32Max) :
    ∃ maybeColumn, captured row column = [display row, maybeColumn] ∧
      parseU32 maybeColumn = column := by
  cases column with
  | none => exact ⟨[], rfl, parseU32_nil⟩
  | some column => exact ⟨_, rfl, parseU32_display (hcolumn column rfl)⟩

/-- A path with a file name is recovered if the name does not stand in front of its own place. -/
theorem parseStr_name_iff {column : Option ℕ} (hname : path.name ≠ []) (hrow : row ≤ Gpui.u32Max)
    (hcolumn : ∀ n ∈ column, n ≤ Gpui.u32Max) :
    parseStr digits (path.text ++ positionText row column) =
        .ok ⟨⟨path.text⟩, some row, column⟩ ↔ FirstPlace path.name path.text := by
  have hcolon : ':' ∉ path.name.tail :=
    fun h => (PlainPath.mem_name (List.mem_of_mem_tail h)).2.1 rfl
  have htakes : (RowCol.position digits).Takes (positionText row column) _ := takes_positionText
  have hsearch := RowCol.search_file_name hname paren_not_mem_printed hcolon htakes
  obtain ⟨maybeColumn, hcaptured, hparse⟩ := exists_captured row hcolumn
  simp only [hcaptured] at hsearch
  obtain ⟨front, htext, -⟩ := path.exists_front
  obtain ⟨before, behind, hsplit, -, hbefore⟩ :=
    splitOnce_of_append front path.name (positionText row column)
  rw [← htext] at hsplit
  rw [parseStr_of_search trim_printed fileName_printed printed_ne_nil hsearch hsplit, hparse,
    parseU32_display hrow, htext, firstPlace_iff, ← hbefore]
  simp

/-- Without a file name, the text in front of a row is recovered by the cut at ":". -/
theorem parseStr_no_name (hname : path.name = []) (hrow : row ≤ Gpui.u32Max) :
    parseStr digits (path.text ++ positionText row none) = .ok ⟨⟨path.text⟩, some row, none⟩ := by
  have hfile : (PathBuf.mk (path.text ++ positionText row none)).fileName =
      some (path.name ++ positionText row none) := fileName_printed
  rw [hname, List.nil_append] at hfile
  have hsearch : (RowCol.captureRegex digits).search (positionText row none) = none :=
    RowCol.search_eq_none_of_plain (not_mem_positionText (by decide) (by decide))
      (not_mem_display (by decide))
  have hcut : rsplitn 3 ':' (path.text ++ positionText row none) = [display row, path.text] := by
    rw [rsplitn, positionText, rsplitOnce_append_cons (not_mem_display (by decide))]
    simp only [rsplitn_of_not_mem PlainPath.colon_not_mem_text]
  have hparts : ofParts (rsplitn 3 ':' (path.text ++ positionText row none)).reverse =
      .ok ⟨⟨path.text⟩, some row, none⟩ := by
    rw [hcut]
    simp [ofParts, parseU32_display hrow, pushParts]
  simp only [parseStr, trim_printed, hfile, Option.getD_some, hsearch, hparts]
  exact if_neg (by simp [positionText])

theorem parseStr_no_name_column {column : ℕ} (hname : path.name = []) :
    ∃ read, parseStr digits (path.text ++ positionText row (some column)) = .ok read ∧
      read.column = none := by
  have hfile : (PathBuf.mk (path.text ++ positionText row (some column))).fileName =
      some (path.name ++ positionText row (some column)) := fileName_printed
  have hparen : '(' ∉ path.name ++ positionText row (some column) := paren_not_mem_printed
  rw [hname, List.nil_append] at hfile hparen
  have htakes : (RowCol.position digits).Takes (positionText column none) _ := takes_positionText
  have hsearch : (RowCol.captureRegex digits).search (positionText row (some column)) = _ :=
    RowCol.search_file_name (List.cons_ne_nil ':' _) hparen (not_mem_display (by decide)) htakes
  obtain ⟨before, behind, hsplit, -⟩ :=
    splitOnce_of_append path.text (':' :: display row) (':' :: display column)
  rw [List.append_assoc] at hsplit
  exact ⟨_, parseStr_of_search trim_printed hfile (by simp [positionText]) hsearch hsplit, rfl⟩

/-- A path and a position that come back: a column stands behind a row only, and behind a row there
is a file name that does not stand in front of its own place, or no column. -/
def Recovers (path : PlainPath) (row column : Option ℕ) : Prop :=
  (row = none → column = none) ∧
    (row ≠ none → match path.components.getLast? with
      | some name => FirstPlace name path.text
      | none => column = none)

end PathWithPosition

open PathWithPosition in
/-- What is printed for a path and a position is read back exactly if both come back. -/
theorem parse_str_to_string_iff (digits : DecimalDigits) (path : PlainPath)
    (row column : Option ℕ) (hrow : ∀ n ∈ row, n ≤ Gpui.u32Max)
    (hcolumn : ∀ n ∈ column, n ≤ Gpui.u32Max) :
    parseStr digits (toString ⟨⟨path.text⟩, row, column⟩ PathBuf.text) =
      .ok ⟨⟨path.text⟩, row, column⟩ ↔ Recovers path row column := by
  cases row with
  | none =>
    have htext : toString ⟨⟨path.text⟩, none, column⟩ PathBuf.text = path.text := rfl
    rw [htext, parseStr_text]
    simp [Recovers, eq_comm]
  | some row =>
    rw [toString_row]
    have hrow : row ≤ Gpui.u32Max := hrow row rfl
    cases hlast : path.components.getLast? with
    | some name =>
      have hname : path.name = name := by rw [PlainPath.name, hlast, Option.getD_some]
      have hne : path.name ≠ [] := hname ▸ path.ne_nil name (List.mem_of_getLast? hlast)
      rw [parseStr_name_iff hne hrow hcolumn, hname]
      simp [Recovers, hlast]
    | none =>
      have hname : path.name = [] := by rw [PlainPath.name, hlast, Option.getD_none]
      have hrecovers : Recovers path (some row) column ↔ column = none := by
        simp [Recovers, hlast]
      rw [hrecovers]
      cases column with
      | none => exact iff_of_true (parseStr_no_name hname hrow) rfl
      | some column =>
        have hread : ∃ read, parseStr digits (path.text ++ positionText row (some column)) =
            .ok read ∧ read.column = none := parseStr_no_name_column hname
        obtain ⟨read, hread, hnone⟩ := hread
        refine iff_of_false ?_ (by simp)
        rw [hread]
        rintro heq
        cases heq
        cases hnone

/-- The decimal digits of ASCII. -/
def asciiDigits : DecimalDigits := ⟨Char.isDigit, fun _ _ => rfl⟩

/-- The path `a/b`. -/
def pathAB : PlainPath where
  isAbsolute := false
  components := [['a'], ['b']]
  ne_nil := by decide
  plain := by simp [Plain, isWhitespace]

/-- The path `a/a`. -/
def pathAA : PlainPath where
  isAbsolute := false
  components := [['a'], ['a']]
  ne_nil := by decide
  plain := by simp [Plain, isWhitespace]

open PathWithPosition in
theorem parse_str_to_string_iff_ab :
    parseStr asciiDigits (toString ⟨⟨pathAB.text⟩, some 1, some 2⟩ PathBuf.text) =
      .ok ⟨⟨pathAB.text⟩, some 1, some 2⟩ ↔ Recovers pathAB (some 1) (some 2) :=
  parse_str_to_string_iff asciiDigits pathAB (some 1) (some 2) (by decide) (by decide)

open PathWithPosition in
/-- The position `a/a:1` is read as a row of `a`. -/
theorem parse_str_to_string_not :
    parseStr asciiDigits (toString ⟨⟨pathAA.text⟩, some 1, none⟩ PathBuf.text) =
      .ok ⟨⟨['a']⟩, some 1, none⟩ ∧
    parseStr asciiDigits (toString ⟨⟨pathAA.text⟩, some 1, none⟩ PathBuf.text) ≠
      .ok ⟨⟨pathAA.text⟩, some 1, none⟩ := by
  decide

end Zui.Paths
