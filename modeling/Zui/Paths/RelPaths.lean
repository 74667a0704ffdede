/-
The order of the entries of a worktree.

`compareRelPathsBy` goes through the components of two paths side by side.  Each step compares
two pieces, that is components with the flag whether they are a file at the end of the path, by
keys that depend on the mode and on the order; so all in all it compares lists of pieces, with
a tie-break at the end (`compareRelPathsBy_spell`).

Numbers that fit into a `u128` are compared by value, and then each key gives an order
(`ofRuns_cmp`).  What the keys do not tell apart is left to the tie-break, which is missing if
directories come first.

* `compareRelPathsBy_eq_iff` — the entries that compare equal;
* `rel_paths_order_iff` — when the comparison is an order of the entries.
-/
import Zui.Library.Text
import Zui.Path.Components
import Zui.Paths.NaturalSort

namespace Zui.Paths

open Zui.Path (Text Name RelPath RelPathComponents spell)

/-! ### The functions -/

/-- `SortOrder`. -/
inductive SortOrder
  | default
  | upper
  | lower
  | unicode
  deriving DecidableEq, Repr

/-- `SortMode`. -/
inductive SortMode
  | directoriesFirst
  | mixed
  | filesFirst
  deriving DecidableEq, Repr

/-- What the standard library knows about the characters of Unicode. -/
structure CharacterDatabase where
  isLowercase : Char → Bool
  isUppercase : Char → Bool
  toLowercase : Text → Text

/-- `natural_sort_no_tiebreak`. -/
def naturalSortNoTiebreak (a b : Text) : Ordering :=
  if eqIgnoreAsciiCase a b then .eq else naturalSort a b

/-- `str::rsplit_once`. -/
def rsplitOnce (delimiter : Char) (text : Text) : Option (Text × Text) :=
  (lastIdxOf? delimiter text).map fun ix => (text.take ix, text.drop (ix + 1))

/-- `stem_and_extension`. -/
def stemAndExtension (filename : Text) : Option Text × Option Text :=
  if filename = [] then (none, none)
  else
    match rsplitOnce '.' filename with
    | none => (some filename, none)
    | some (before, after) =>
      if before = [] then (some filename, none) else (some before, some after)

section Functions

variable (db : CharacterDatabase)

/-- `case_group_key`. -/
def caseGroupKey (name : Text) (order : SortOrder) : ℕ :=
  match name with
  | [] => 0
  | first :: _ =>
    match order with
    | .upper => if db.isLowercase first then 1 else 0
    | .lower => if db.isUppercase first then 1 else 0
    | _ => 0

/-- `compare_strings`. -/
def compareStrings (a b : Text) (order : SortOrder) : Ordering :=
  match order with
  | .unicode => compare a b
  | _ => naturalSort a b

/-- `compare_strings_no_tiebreak`. -/
def compareStringsNoTiebreak (a b : Text) (order : SortOrder) : Ordering :=
  match order with
  | .unicode => compare a b
  | _ => naturalSortNoTiebreak a b

/-- What a pass of the loop of `compare_rel_paths_by` returns, unless it is `Equal`. -/
def compareComponents (mode : SortMode) (order : SortOrder) (componentA : Text) (aLeafFile : Bool)
    (componentB : Text) (bLeafFile : Bool) : Ordering :=
  let fileDirOrdering :=
    match mode with
    | .directoriesFirst => compare aLeafFile bLeafFile
    | .filesFirst => compare bLeafFile aLeafFile
    | .mixed => .eq
  if fileDirOrdering ≠ .eq then fileDirOrdering
  else
    let a := if aLeafFile then stemAndExtension componentA else (none, none)
    let b := if bLeafFile then stemAndExtension componentB else (none, none)
    let aKey := if aLeafFile then a.1 else some componentA
    let bKey := if bLeafFile then b.1 else some componentB
    match aKey, bKey with
    | some aName, some bName =>
      let nameCmp := (compare (caseGroupKey db aName order) (caseGroupKey db bName order)).then
        (match mode with
          | .directoriesFirst => compareStrings aName bName order
          | _ => compareStringsNoTiebreak aName bName order)
      let nameCmp :=
        if mode = .mixed then
          nameCmp.then
            (match aLeafFile, bLeafFile with
              | true, false => if eqIgnoreAsciiCase aName bName then .gt else .eq
              | false, true => if eqIgnoreAsciiCase aName bName then .lt else .eq
              | _, _ => .eq)
        else nameCmp
      nameCmp.then
        (if aLeafFile && bLeafFile then
          match order with
          | .unicode => compare (a.2.getD []) (b.2.getD [])
          | _ => compare (db.toLowercase (a.2.getD [])) (db.toLowercase (b.2.getD []))
        else .eq)
    | some _, none => .gt
    | none, some _ => .lt
    | none, none => .eq

/-- The loop of `compare_rel_paths_by`, for at most so many passes, and what is returned behind
the components. -/
def compareLoop (mode : SortMode) (order : SortOrder) (aIsFile bIsFile : Bool)
    (final : Ordering) : ℕ → RelPathComponents → RelPathComponents → Ordering
  | 0, _, _ => final
  | n + 1, componentsA, componentsB =>
    match componentsA.next, componentsB.next with
    | (some componentA, componentsA), (some componentB, componentsB) =>
      let aLeafFile := aIsFile && componentsA.rest.isEmpty
      let bLeafFile := bIsFile && componentsB.rest.isEmpty
      match compareComponents db mode order componentA aLeafFile componentB bLeafFile with
      | .eq => compareLoop mode order aIsFile bIsFile final n componentsA componentsB
      | ordering => ordering
    | (some _, _), (none, _) => .gt
    | (none, _), (some _, _) => .lt
    | (none, _), (none, _) => final

/-- `compare_rel_paths_by`.  Each pass but the last one takes a separator off both texts. -/
def compareRelPathsBy (a b : RelPath × Bool) (mode : SortMode) (order : SortOrder) : Ordering :=
  let needsFinalTiebreak := mode ≠ .directoriesFirst ∧ ¬ a.1 = b.1
  compareLoop db mode order a.2 b.2
    (if needsFinalTiebreak then compareStrings a.1.text b.1.text order else .eq)
    (a.1.text.length + 1) a.1.components b.1.components

end Functions

/-! ### Texts -/

section Texts

variable {runs : Run → Run → Ordering}

/-- A text in lower case. -/
def lower (text : Text) : Text :=
  text.map Char.toLower

theorem eqIgnoreAsciiCase_iff {a b : Text} : eqIgnoreAsciiCase a b = true ↔ lower a = lower b :=
  decide_eq_true_iff

/-- The text of pieces. -/
def tokenText : List Token → Text
  | [] => []
  | .run run :: rest => run.digits ++ tokenText rest
  | .char c :: rest => c :: tokenText rest

theorem tokenText_consDigit {c : Char} (h : c.isDigit = true) (rest : List Token) :
    tokenText (consDigit c h rest) = c :: tokenText rest := by
  cases rest with
  | nil => rfl
  | cons token rest => cases token <;> rfl

theorem tokenText_tokens (text : Text) : tokenText (tokens text) = lower text := by
  induction text with
  | nil => rfl
  | cons c text ih =>
    rw [tokens, lower, List.map_cons]
    split
    · rename_i h
      rw [tokenText_consDigit, ih, toLower_of_isDigit h]
      rfl
    · rw [tokenText, ih]
      rfl

theorem toLower_toLower (c : Char) : c.toLower.toLower = c.toLower := by
  by_cases h : c.val ≥ 'A'.val ∧ c.val ≤ 'Z'.val
  · have hlow : 65 ≤ c.toNat := UInt32.le_iff_toNat_le.mp h.1
    have hhigh : c.toNat ≤ 90 := UInt32.le_iff_toNat_le.mp h.2
    have hshift : c.toLower.toNat = c.toNat + 32 := by
      rw [Char.toLower, dif_pos h, Char.toNat_mk, UInt32.toNat_add]
      show (c.toNat + 32) % 2 ^ 32 = c.toNat + 32
      omega
    -- A letter in lower case is behind the letters in upper case.
    rw [Char.toLower, dif_neg]
    rintro ⟨-, hZ⟩
    have hle : c.toLower.toNat ≤ 90 := UInt32.le_iff_toNat_le.mp hZ
    omega
  · rw [show c.toLower = c by rw [Char.toLower, dif_neg h], Char.toLower, dif_neg h]

theorem tokens_lower (text : Text) : tokens (lower text) = tokens text := by
  induction text with
  | nil => rfl
  | cons c text ih =>
    show tokens (c.toLower :: lower text) = tokens (c :: text)
    by_cases h : c.isDigit = true
    · have hlower := toLower_of_isDigit h
      rw [hlower, tokens, tokens, dif_pos h, dif_pos h, ih]
    · have hlower : ¬ c.toLower.isDigit = true := by rwa [isDigit_toLower]
      rw [tokens_char h, tokens_char hlower, ih, toLower_toLower]

theorem tokens_eq_iff {a b : Text} : tokens a = tokens b ↔ lower a = lower b := by
  constructor
  · intro h
    rw [← tokenText_tokens, h, tokenText_tokens]
  · intro h
    rw [← tokens_lower a, h, tokens_lower]

/-- Compares texts without regard to case, for a comparison of runs. -/
def foldedBy (runs : Run → Run → Ordering) (order : SortOrder) (a b : Text) : Ordering :=
  match order with
  | .unicode => compare a b
  | _ => List.compareLex (Token.cmpBy runs) (tokens a) (tokens b)

/-- Compares texts, for a comparison of runs. -/
def stringsBy (runs : Run → Run → Ordering) (order : SortOrder) (a b : Text) : Ordering :=
  match order with
  | .unicode => compare a b
  | _ => (List.compareLex (Token.cmpBy runs) (tokens a) (tokens b)).then (compare b a)

theorem compareStrings_eq (order : SortOrder) (a b : Text) :
    compareStrings a b order = stringsBy Run.cmp order a b := by
  cases order with
  | unicode => rfl
  | _ => exact naturalSort_eq a b

theorem compareStringsNoTiebreak_eq (order : SortOrder) (a b : Text) :
    compareStringsNoTiebreak a b order = foldedBy Run.cmp order a b := by
  have hnatural : naturalSortNoTiebreak a b =
      List.compareLex (Token.cmpBy Run.cmp) (tokens a) (tokens b) := by
    rw [naturalSortNoTiebreak]
    by_cases h : eqIgnoreAsciiCase a b = true
    · rw [if_pos h, tokens_eq_iff.mpr (eqIgnoreAsciiCase_iff.mp h)]
      exact Std.ReflCmp.compare_self.symm
    · have hne : List.compareLex (Token.cmpBy Run.cmp) (tokens a) (tokens b) ≠ .eq := fun heq =>
        h (eqIgnoreAsciiCase_iff.mpr (tokens_eq_iff.mp (Std.LawfulEqCmp.eq_of_compare heq)))
      rw [if_neg h, naturalSort_eq]
      cases hcmp : List.compareLex (Token.cmpBy Run.cmp) (tokens a) (tokens b) with
      | lt => rfl
      | eq => exact absurd hcmp hne
      | gt => rfl
  cases order with
  | unicode => rfl
  | _ => exact hnatural

end Texts

/-! ### Pieces of paths -/

/-- A component, and whether it is a file at the end of its path. -/
structure Piece where
  name : Text
  leaf : Bool
  deriving DecidableEq

/-- The pieces of a path. -/
def pieces (isFile : Bool) : List Name → List Piece
  | [] => []
  | name :: names => ⟨name.text, isFile && names.isEmpty⟩ :: pieces isFile names

namespace Piece

variable (db : CharacterDatabase) (runs : Run → Run → Ordering) (mode : SortMode)
  (order : SortOrder)

/-- What a piece is called: a file without its extension. -/
def stem (self : Piece) : Text :=
  if self.leaf then (stemAndExtension self.name).1.getD [] else self.name

/-- The extension of a file, in lower case unless the order is by characters. -/
def extension (self : Piece) : Text :=
  if self.leaf then
    match order with
    | .unicode => (stemAndExtension self.name).2.getD []
    | _ => db.toLowercase ((stemAndExtension self.name).2.getD [])
  else []

/-- The group of a piece. -/
def group (self : Piece) : ℕ :=
  caseGroupKey db self.stem order

/-- The comparison of pieces by their keys, for a comparison of runs. -/
def cmpBy : Piece → Piece → Ordering :=
  match mode with
  | .directoriesFirst =>
    compareLex (compareOn leaf) (compareLex (compareOn (group db order))
      (compareLex (byKey stem (stringsBy runs order)) (compareOn (extension db order))))
  | .mixed =>
    compareLex (compareOn (group db order)) (compareLex (byKey stem (foldedBy runs order))
      (compareLex (compareOn leaf) (compareOn (extension db order))))
  | .filesFirst =>
    compareLex (fun a b => compareOn leaf b a) (compareLex (compareOn (group db order))
      (compareLex (byKey stem (foldedBy runs order)) (compareOn (extension db order))))

variable {db runs mode order}

theorem stemAndExtension_some {name : Text} (h : name ≠ []) :
    ∃ stem, (stemAndExtension name).1 = some stem := by
  rw [stemAndExtension, if_neg h]
  split
  · exact ⟨_, rfl⟩
  · split_ifs
    · exact ⟨_, rfl⟩
    · exact ⟨_, rfl⟩

theorem key_eq {self : Piece} (h : self.name ≠ []) :
    (if self.leaf then (if self.leaf then stemAndExtension self.name else (none, none)).1
      else some self.name) = some self.stem := by
  obtain ⟨stem, hstem⟩ := stemAndExtension_some h
  rw [Piece.stem]
  split_ifs with hleaf
  · rw [hstem]
    rfl
  · rfl

/-- Extensions decide between two files, and between two directories nothing. -/
theorem extension_eq {a b : Piece} (h : a.leaf = b.leaf) :
    (if a.leaf && b.leaf then
      match order with
      | .unicode => compare
          ((if a.leaf then stemAndExtension a.name else (none, none)).2.getD [])
          ((if b.leaf then stemAndExtension b.name else (none, none)).2.getD [])
      | _ => compare
          (db.toLowercase ((if a.leaf then stemAndExtension a.name else (none, none)).2.getD []))
          (db.toLowercase ((if b.leaf then stemAndExtension b.name else (none, none)).2.getD []))
      else Ordering.eq) = compareOn (extension db order) a b := by
  unfold compareOn extension
  rw [h]
  cases b.leaf with
  | false => rfl
  | true => cases order <;> rfl

theorem compare_leaf_ne {a b : Bool} (h : a ≠ b) : compare a b ≠ .eq :=
  fun heq => h (Std.LawfulEqOrd.eq_of_compare heq)

theorem then_of_ne {o next : Ordering} (h : o ≠ .eq) : o.then next = o := by
  cases o with
  | lt => rfl
  | eq => exact absurd rfl h
  | gt => rfl

theorem eqIgnoreAsciiCase_of_folded {a b : Text} (h : foldedBy Run.cmp order a b = .eq) :
    eqIgnoreAsciiCase a b = true := by
  rw [eqIgnoreAsciiCase_iff]
  cases order with
  | unicode => rw [Std.LawfulEqOrd.eq_of_compare h]
  | _ => exact tokens_eq_iff.mp (Std.LawfulEqCmp.eq_of_compare h)

/-- A pass of the loop compares the keys of two pieces. -/
theorem compareComponents_eq {a b : Piece} (ha : a.name ≠ []) (hb : b.name ≠ []) :
    compareComponents db mode order a.name a.leaf b.name b.leaf =
      cmpBy db Run.cmp mode order a b := by
  unfold compareComponents
  simp only [key_eq ha, key_eq hb]
  cases mode with
  | directoriesFirst =>
    simp only [cmpBy, compareLex, compareStrings_eq]
    by_cases hleaf : a.leaf = b.leaf
    · rw [extension_eq hleaf, if_neg (by simp [hleaf]),
        show compareOn leaf a b = .eq by simp [compareOn, hleaf], if_neg (by decide),
        Ordering.eq_then, Ordering.then_assoc]
      rfl
    · have hne := compare_leaf_ne hleaf
      rw [if_pos hne]
      exact (then_of_ne hne).symm
  | filesFirst =>
    simp only [cmpBy, compareLex, compareStringsNoTiebreak_eq]
    by_cases hleaf : a.leaf = b.leaf
    · rw [extension_eq hleaf, if_neg (by simp [hleaf]),
        show compareOn leaf b a = .eq by simp [compareOn, hleaf], if_neg (by decide),
        Ordering.eq_then, Ordering.then_assoc]
      rfl
    · have hne := compare_leaf_ne (Ne.symm hleaf)
      rw [if_pos hne]
      exact (then_of_ne hne).symm
  | mixed =>
    simp only [cmpBy, compareLex, compareStringsNoTiebreak_eq]
    rw [if_neg (by decide), if_true]
    show (((compareOn (group db order) a b).then
      (foldedBy Run.cmp order a.stem b.stem)).then _).then _
      = (compareOn (group db order) a b).then ((foldedBy Run.cmp order a.stem b.stem).then _)
    by_cases hname : (compareOn (group db order) a b).then (foldedBy Run.cmp order a.stem b.stem)
        = .eq
    · -- The names are the same up to case, so the flags decide.
      have hsame := eqIgnoreAsciiCase_of_folded (Ordering.then_eq_eq.mp hname).2
      rw [← Ordering.then_assoc, hname, hsame]
      by_cases hleaf : a.leaf = b.leaf
      · rw [extension_eq hleaf, show compareOn leaf a b = .eq by simp [compareOn, hleaf], hleaf]
        cases b.leaf <;> rfl
      · have hne := compare_leaf_ne hleaf
        show (Ordering.eq.then _).then _ = Ordering.eq.then ((compare a.leaf b.leaf).then _)
        rw [then_of_ne hne]
        revert hleaf
        cases a.leaf <;> cases b.leaf <;> simp <;> rfl
    · rw [← Ordering.then_assoc, then_of_ne hname, then_of_ne hname, then_of_ne hname]

end Piece

/-! ### The loop -/

section Loop

variable {db : CharacterDatabase} {mode : SortMode} {order : SortOrder} {f g : Bool}

theorem rest_isEmpty (names : List Name) :
    (spell names).components.rest.isEmpty = names.isEmpty := by
  rw [Bool.eq_iff_iff, List.isEmpty_iff]
  exact Path.isEmpty_spell

theorem compareLoop_spell (final : Ordering) (n : ℕ) : ∀ {as bs : List Name}, as.length < n →
    compareLoop db mode order f g final n (spell as).components (spell bs).components =
      (List.compareLex (Piece.cmpBy db Run.cmp mode order) (pieces f as) (pieces g bs)).then
        final := by
  induction n with
  | zero =>
    intro as bs h
    omega
  | succ n ih =>
    intro as bs h
    rw [compareLoop]
    cases as with
    | nil =>
      cases bs with
      | nil => rfl
      | cons b bs =>
        rw [Path.RelPathComponents.next_spell]
        rfl
    | cons a as =>
      cases bs with
      | nil =>
        rw [Path.RelPathComponents.next_spell]
        rfl
      | cons b bs =>
        rw [Path.RelPathComponents.next_spell, Path.RelPathComponents.next_spell]
        simp only [rest_isEmpty]
        have hpass := @Piece.compareComponents_eq db mode order ⟨a.text, f && as.isEmpty⟩
          ⟨b.text, g && bs.isEmpty⟩ a.isName.ne_nil b.isName.ne_nil
        simp only at hpass
        rw [hpass, ih (by simpa using h), pieces, pieces, List.compareLex_cons_cons,
          Ordering.then_assoc]
        cases Piece.cmpBy db Run.cmp mode order ⟨a.text, f && as.isEmpty⟩ ⟨b.text, g && bs.isEmpty⟩
          <;> rfl

theorem length_le_spell (names : List Name) : names.length ≤ (spell names).text.length := by
  induction names with
  | nil => exact Nat.zero_le _
  | cons name names ih =>
    have hname := List.length_pos_iff.mpr name.isName.ne_nil
    by_cases h : names = []
    · rw [h, Path.spell_singleton]
      exact hname
    · rw [Path.spell_cons h, List.length_append, List.length_cons, List.length_cons]
      omega

/-- What is compared behind the components. -/
def finalBy (runs : Run → Run → Ordering) (mode : SortMode) (order : SortOrder) (a b : RelPath) :
    Ordering :=
  if mode ≠ .directoriesFirst ∧ ¬ a = b then stringsBy runs order a.text b.text else .eq

/-- The comparison of two entries, for a comparison of runs. -/
def entriesBy (db : CharacterDatabase) (runs : Run → Run → Ordering) (mode : SortMode)
    (order : SortOrder) (a b : List Name × Bool) : Ordering :=
  (List.compareLex (Piece.cmpBy db runs mode order) (pieces a.2 a.1) (pieces b.2 b.1)).then
    (finalBy runs mode order (spell a.1) (spell b.1))

theorem compareRelPathsBy_spell (as bs : List Name) :
    compareRelPathsBy db (spell as, f) (spell bs, g) mode order =
      entriesBy db Run.cmp mode order (as, f) (bs, g) := by
  rw [compareRelPathsBy]
  simp only [compareStrings_eq]
  exact compareLoop_spell _ _ (Nat.lt_succ_of_le (length_le_spell as))

end Loop

/-! ### Orders -/

section Orders

variable {db : CharacterDatabase} {runs : Run → Run → Ordering} {mode : SortMode}
  {order : SortOrder}

/-- A transitive comparison of runs makes one of pieces. -/
instance [Std.TransCmp runs] [Std.LawfulEqCmp runs] : Std.TransCmp (Token.cmpBy runs) :=
  transCmp_of_not_cyclic fun a b c h => by
    obtain ⟨r, s, t, -, -, -, hruns⟩ := Token.cyclic_cmpBy_iff.mp h
    exact not_cyclic hruns

instance [Std.TransCmp runs] [Std.LawfulEqCmp runs] : Std.TransCmp (foldedBy runs order) := by
  cases order with
  | unicode => exact inferInstanceAs (Std.TransCmp (compare : Text → Text → Ordering))
  | _ => exact inferInstanceAs (Std.TransCmp (byKey tokens (List.compareLex (Token.cmpBy runs))))

instance [Std.TransCmp runs] [Std.LawfulEqCmp runs] : Std.TransCmp (stringsBy runs order) := by
  cases order with
  | unicode => exact inferInstanceAs (Std.TransCmp (compare : Text → Text → Ordering))
  | _ => exact inferInstanceAs (Std.TransCmp
      (compareLex (byKey tokens (List.compareLex (Token.cmpBy runs))) fun a b => compare b a))

instance [Std.LawfulEqCmp runs] : Std.LawfulEqCmp (stringsBy runs order) where
  compare_self {a} := by
    cases order with
    | unicode => exact Std.ReflOrd.compare_self
    | _ =>
      show (List.compareLex (Token.cmpBy runs) (tokens a) (tokens a)).then (compare a a) = .eq
      rw [show List.compareLex (Token.cmpBy runs) (tokens a) (tokens a) = .eq from
        Std.ReflCmp.compare_self, Std.ReflOrd.compare_self]
      rfl
  eq_of_compare {a b} h := by
    cases order with
    | unicode => exact Std.LawfulEqOrd.eq_of_compare h
    | _ => exact (Std.LawfulEqOrd.eq_of_compare (Ordering.then_eq_eq.mp h).2).symm

instance [Std.TransCmp runs] [Std.LawfulEqCmp runs] :
    Std.TransCmp (Piece.cmpBy db runs mode order) := by
  have hleaf : Std.TransCmp fun a b : Piece => compareOn Piece.leaf b a := Std.TransCmp.opposite
  cases mode with
  | directoriesFirst =>
    exact inferInstanceAs (Std.TransCmp (compareLex (compareOn Piece.leaf)
      (compareLex (compareOn (Piece.group db order)) (compareLex
        (byKey Piece.stem (stringsBy runs order)) (compareOn (Piece.extension db order))))))
  | mixed =>
    exact inferInstanceAs (Std.TransCmp (compareLex (compareOn (Piece.group db order))
      (compareLex (byKey Piece.stem (foldedBy runs order)) (compareLex (compareOn Piece.leaf)
        (compareOn (Piece.extension db order))))))
  | filesFirst =>
    exact inferInstanceAs (Std.TransCmp (compareLex (fun a b => compareOn Piece.leaf b a)
      (compareLex (compareOn (Piece.group db order)) (compareLex
        (byKey Piece.stem (foldedBy runs order)) (compareOn (Piece.extension db order))))))

theorem finalBy_eq [Std.LawfulEqCmp runs] (h : mode ≠ .directoriesFirst) (a b : RelPath) :
    finalBy runs mode order a b = stringsBy runs order a.text b.text := by
  rw [finalBy]
  by_cases hab : a = b
  · rw [if_neg fun hne => hne.2 hab, hab]
    exact Std.ReflCmp.compare_self.symm
  · rw [if_pos ⟨h, hab⟩]

theorem finalBy_directoriesFirst (a b : RelPath) :
    finalBy runs .directoriesFirst order a b = .eq :=
  if_neg fun h => h.1 rfl

/-- The comparison of entries is an order if that of runs is. -/
instance [Std.TransCmp runs] [Std.LawfulEqCmp runs] :
    Std.TransCmp (entriesBy db runs mode order) := by
  by_cases h : mode = .directoriesFirst
  · have heq : entriesBy db runs mode order = byKey (fun a : List Name × Bool => pieces a.2 a.1)
        (List.compareLex (Piece.cmpBy db runs mode order)) := by
      funext a b
      rw [entriesBy, h, finalBy_directoriesFirst, Ordering.then_eq]
      rfl
    rw [heq]
    infer_instance
  · have heq : entriesBy db runs mode order =
        compareLex (byKey (fun a : List Name × Bool => pieces a.2 a.1)
          (List.compareLex (Piece.cmpBy db runs mode order)))
          (byKey (fun a : List Name × Bool => (spell a.1).text) (stringsBy runs order)) := by
      funext a b
      rw [entriesBy, finalBy_eq h]
      rfl
    rw [heq]
    infer_instance

end Orders

/-! ### Runs that fit -/

section Short

variable {db : CharacterDatabase} {mode : SortMode} {order : SortOrder}

/-- No run of digits is longer than 38. -/
def ShortRuns (text : Text) : Prop :=
  ∀ digits, digits <:+: text → (∀ c ∈ digits, c.isDigit = true) → digits.length ≤ 38

theorem ShortRuns.part {text part : Text} (h : ShortRuns text) (hpart : part <:+: text) :
    ShortRuns part :=
  fun digits hdigits => h digits (hdigits.trans hpart)

theorem ofDigitChars_lt {digits : Text} (h : ∀ c ∈ digits, c.isDigit = true) (m : ℕ) :
    Nat.ofDigitChars 10 digits m < (m + 1) * 10 ^ digits.length := by
  induction digits generalizing m with
  | nil => simp
  | cons c digits ih =>
    obtain ⟨hc, hdigits⟩ := List.forall_mem_cons.mp h
    have hdigit := (isDigit_iff.mp hc).2
    have hrest := ih hdigits (10 * m + (c.toNat - '0'.toNat))
    rw [Nat.ofDigitChars_cons, List.length_cons]
    refine hrest.trans_le ?_
    rw [pow_succ', ← mul_assoc]
    refine Nat.mul_le_mul_right _ ?_
    rw [show '0'.toNat = 48 from rfl]
    omega

theorem fits_of_length {run : Run} (h : run.digits.length ≤ 38) : run.Fits := by
  have hlt := ofDigitChars_lt run.isDigit 0
  have hpow : 10 ^ run.digits.length ≤ 10 ^ 38 := Nat.pow_le_pow_right (by omega) h
  rw [Run.Fits, Run.value, u128Max]
  omega

theorem infix_of_mem_tokens {run : Run} (text : Text) (h : .run run ∈ tokens text) :
    run.digits <:+: text := by
  induction hn : text.length using Nat.strong_induction_on generalizing text with
  | h n ih =>
    subst hn
    obtain _ | ⟨c, text⟩ := text
    · exact absurd h List.not_mem_nil
    by_cases hc : c.isDigit = true
    · obtain ⟨r, hr, htokens⟩ := tokens_digit text hc
      rw [htokens, List.mem_cons] at h
      rcases h with h | h
      · rw [Token.run.inj h, hr]
        exact List.IsPrefix.isInfix <| List.takeWhile_prefix _
      · exact (ih _ (length_dropWhile_lt hc) _ h rfl).trans (List.dropWhile_suffix _).isInfix
    · rw [tokens_char hc, List.mem_cons] at h
      rcases h with h | h
      · cases h
      · exact (ih _ (Nat.lt_succ_self _) _ h rfl).trans (List.suffix_cons _ _).isInfix

theorem cmpBy_eq {a b : Text} (ha : ShortRuns a) (hb : ShortRuns b) :
    List.compareLex (Token.cmpBy Run.cmp) (tokens a) (tokens b) =
      List.compareLex (Token.cmpBy Run.byValue) (tokens a) (tokens b) := by
  have hfits : ∀ {text run}, ShortRuns text → Token.run run ∈ tokens text → run.Fits :=
    fun htext hrun => fits_of_length
      (htext _ (infix_of_mem_tokens _ hrun) (Run.isDigit _))
  refine compareLex_congr fun x hx y hy => ?_
  cases x with
  | run r =>
    cases y with
    | run s =>
      show r.cmp s = r.byValue s
      rw [Run.cmp_eq, glue_inside (hfits ha hx) (hfits hb hy)]
    | char c => rfl
  | char c => cases y <;> rfl

theorem foldedBy_eq {a b : Text} (ha : ShortRuns a) (hb : ShortRuns b) :
    foldedBy Run.cmp order a b = foldedBy Run.byValue order a b := by
  cases order with
  | unicode => rfl
  | _ => exact cmpBy_eq ha hb

theorem stringsBy_eq {a b : Text} (ha : ShortRuns a) (hb : ShortRuns b) :
    stringsBy Run.cmp order a b = stringsBy Run.byValue order a b := by
  cases order with
  | unicode => rfl
  | _ => exact congrArg (Ordering.then · _) (cmpBy_eq ha hb)

theorem stem_isPrefix (piece : Piece) : piece.stem <+: piece.name := by
  rw [Piece.stem]
  split_ifs with hleaf
  · rw [stemAndExtension]
    split_ifs
    · exact List.nil_prefix
    · split
      · exact List.prefix_rfl
      · rename_i before after hsplit
        split_ifs
        · exact List.prefix_rfl
        · rw [rsplitOnce, Option.map_eq_some_iff] at hsplit
          obtain ⟨ix, -, hix⟩ := hsplit
          rw [← (Prod.mk.inj hix).1]
          exact List.take_prefix _ _
  · exact List.prefix_rfl

theorem piece_cmpBy_eq {x y : Piece} (hx : ShortRuns x.name) (hy : ShortRuns y.name) :
    Piece.cmpBy db Run.cmp mode order x y = Piece.cmpBy db Run.byValue mode order x y := by
  have hx := hx.part (stem_isPrefix x).isInfix
  have hy := hy.part (stem_isPrefix y).isInfix
  have hstrings : byKey Piece.stem (stringsBy Run.cmp order) x y =
      byKey Piece.stem (stringsBy Run.byValue order) x y := stringsBy_eq hx hy
  have hfolded : byKey Piece.stem (foldedBy Run.cmp order) x y =
      byKey Piece.stem (foldedBy Run.byValue order) x y := foldedBy_eq hx hy
  cases mode with
  | directoriesFirst => simp only [Piece.cmpBy, compareLex, hstrings]
  | mixed => simp only [Piece.cmpBy, compareLex, hfolded]
  | filesFirst => simp only [Piece.cmpBy, compareLex, hfolded]

theorem name_isInfix {f : Bool} (names : List Name) : ∀ piece ∈ pieces f names,
    piece.name <:+: (spell names).text := by
  induction names with
  | nil => exact fun piece h => absurd h List.not_mem_nil
  | cons name names ih =>
    intro piece hpiece
    by_cases h : names = []
    · subst h
      obtain rfl := List.mem_singleton.mp hpiece
      rw [Path.spell_singleton]
    · rw [Path.spell_cons h]
      rcases List.mem_cons.mp hpiece with rfl | hpiece
      · exact (List.prefix_append _ _).isInfix
      · exact (ih piece hpiece).trans
          ((List.suffix_cons _ _).trans (List.suffix_append _ _)).isInfix

theorem entriesBy_eq {a b : List Name × Bool} (ha : ShortRuns (spell a.1).text)
    (hb : ShortRuns (spell b.1).text) :
    entriesBy db Run.cmp mode order a b = entriesBy db Run.byValue mode order a b := by
  have hpieces : List.compareLex (Piece.cmpBy db Run.cmp mode order) (pieces a.2 a.1)
      (pieces b.2 b.1) = List.compareLex (Piece.cmpBy db Run.byValue mode order) (pieces a.2 a.1)
        (pieces b.2 b.1) :=
    compareLex_congr fun x hx y hy =>
      piece_cmpBy_eq (ha.part (name_isInfix _ x hx)) (hb.part (name_isInfix _ y hy))
  rw [entriesBy, entriesBy, hpieces, finalBy, finalBy, stringsBy_eq ha hb]

end Short

/-! ### Equal entries -/

section Equal

variable {db : CharacterDatabase} {runs : Run → Run → Ordering} {mode : SortMode}
  {order : SortOrder}

theorem name_ext {a b : Name} (h : a.text = b.text) : a = b := by
  cases a
  cases b
  cases h
  rfl

theorem spell_injective {as bs : List Name} (h : spell as = spell bs) : as = bs := by
  by_cases ha : as = []
  · rw [ha, Path.spell_nil] at h
    rw [ha, Path.isEmpty_spell.mp (show (spell bs).isEmpty = true by rw [← h]; rfl)]
  · by_cases hb : bs = []
    · rw [hb, Path.spell_nil] at h
      exact absurd (Path.isEmpty_spell.mp (show (spell as).isEmpty = true by rw [h]; rfl)) ha
    · have hmap : as.map Name.text = bs.map Name.text := by
        rw [← Path.splitOn_spell ha, h, Path.splitOn_spell hb]
      exact List.map_injective_iff.mpr (fun _ _ => name_ext) hmap

/-- A directory on the way of a path. -/
def directory (name : Name) : Piece :=
  ⟨name.text, false⟩

theorem pieces_append {f : Bool} (names : List Name) {more : List Name} (h : more ≠ []) :
    pieces f (names ++ more) = names.map directory ++ pieces f more := by
  induction names with
  | nil => rfl
  | cons name names ih =>
    rw [List.cons_append, pieces, ih, List.map_cons, List.cons_append, directory,
      show (names ++ more).isEmpty = false by simp [h], Bool.and_false]

theorem pieces_directory (names : List Name) : pieces false names = names.map directory := by
  induction names with
  | nil => rfl
  | cons name names ih =>
    rw [pieces, ih, Bool.false_and]
    rfl

theorem pieces_concat {f : Bool} (names : List Name) (name : Name) :
    pieces f (names ++ [name]) = names.map directory ++ [⟨name.text, f⟩] := by
  rw [pieces_append names (List.cons_ne_nil _ _)]
  show _ ++ [Piece.mk name.text (f && true)] = _
  rw [Bool.and_true]

theorem length_pieces {f : Bool} (names : List Name) : (pieces f names).length = names.length := by
  induction names with
  | nil => rfl
  | cons name names ih => exact congrArg (· + 1) ih

theorem piece_leaf {x y : Piece} (h : Piece.cmpBy db runs mode order x y = .eq) :
    x.leaf = y.leaf := by
  cases mode with
  | directoriesFirst => exact Std.LawfulEqOrd.eq_of_compare (compareLex_eq_eq.mp h).1
  | mixed =>
    obtain ⟨-, h⟩ := compareLex_eq_eq.mp h
    obtain ⟨-, h⟩ := compareLex_eq_eq.mp h
    exact Std.LawfulEqOrd.eq_of_compare (compareLex_eq_eq.mp h).1
  | filesFirst =>
    have h : compareLex (fun a b => compareOn Piece.leaf b a) (compareLex
        (compareOn (Piece.group db order)) (compareLex (byKey Piece.stem (foldedBy runs order))
          (compareOn (Piece.extension db order)))) x y = .eq := h
    exact (Std.LawfulEqOrd.eq_of_compare (compareLex_eq_eq.mp h).1).symm

/-- Files that have the same stem, and extensions that compare equal. -/
def SameKeys (db : CharacterDatabase) (order : SortOrder) (x y : Name) : Prop :=
  (Piece.mk x.text true).stem = (Piece.mk y.text true).stem ∧
    (Piece.mk x.text true).extension db order = (Piece.mk y.text true).extension db order

theorem piece_eq_iff [Std.LawfulEqCmp runs] {x y : Piece} :
    Piece.cmpBy db runs .directoriesFirst order x y = .eq ↔
      x.leaf = y.leaf ∧ x.stem = y.stem ∧ x.extension db order = y.extension db order := by
  constructor
  · intro h
    obtain ⟨hleaf, h⟩ := compareLex_eq_eq.mp h
    obtain ⟨-, h⟩ := compareLex_eq_eq.mp h
    obtain ⟨hstem, hextension⟩ := compareLex_eq_eq.mp h
    exact ⟨Std.LawfulEqOrd.eq_of_compare hleaf, byKey_eq_iff.mp hstem,
      Std.LawfulEqOrd.eq_of_compare hextension⟩
  · rintro ⟨hleaf, hstem, hextension⟩
    refine compareLex_eq_eq.mpr ⟨?_, compareLex_eq_eq.mpr ⟨?_, compareLex_eq_eq.mpr
      ⟨byKey_eq_iff.mpr hstem, ?_⟩⟩⟩
    · rw [compareOn, hleaf, Std.ReflOrd.compare_self]
    · rw [compareOn, Piece.group, Piece.group, hstem, Std.ReflOrd.compare_self]
    · rw [compareOn, hextension, Std.ReflOrd.compare_self]

theorem directories_eq [Std.LawfulEqCmp runs] {as bs : List Name}
    (h : List.compareLex (Piece.cmpBy db runs .directoriesFirst order) (as.map directory)
      (bs.map directory) = .eq) : as = bs := by
  have hmap : as.map directory = bs.map directory := by
    refine eq_of_compareLex (fun x hx y hy hxy => ?_) h
    obtain ⟨a, -, rfl⟩ := List.mem_map.mp hx
    obtain ⟨b, -, rfl⟩ := List.mem_map.mp hy
    exact congrArg (Piece.mk · false) (piece_eq_iff.mp hxy).2.1
  have hinjective : Function.Injective directory := fun a b hab =>
    name_ext (congrArg Piece.name hab)
  exact List.map_injective_iff.mpr hinjective hmap

/-- The entries that compare equal: the empty path with either flag, and, if directories come
first, files next to each other whose names have the same keys. -/
def CompareEqual (db : CharacterDatabase) (mode : SortMode) (order : SortOrder)
    (a b : List Name × Bool) : Prop :=
  a = b ∨ (a.1 = [] ∧ b.1 = []) ∨
    (mode = .directoriesFirst ∧ a.2 = true ∧ b.2 = true ∧ ∃ parent x y,
      a.1 = parent ++ [x] ∧ b.1 = parent ++ [y] ∧ SameKeys db order x y)

/-- Equal entries that are not empty paths differ in their last names only. -/
theorem eq_of_entriesBy [Std.LawfulEqCmp runs] {as bs : List Name} {x y : Name} {f g : Bool}
    (h : entriesBy db runs mode order (as ++ [x], f) (bs ++ [y], g) = .eq) :
    CompareEqual db mode order (as ++ [x], f) (bs ++ [y], g) := by
  obtain ⟨hpieces, hfinal⟩ := Ordering.then_eq_eq.mp h
  have hlength : as.length = bs.length := by
    have hlength := length_of_compareLex hpieces
    simpa only [length_pieces, List.length_append, List.length_singleton, Nat.add_right_cancel_iff]
      using hlength
  rw [pieces_concat, pieces_concat, compareLex_append (by simpa using hlength),
    List.compareLex_cons_cons, Ordering.then_eq_eq, Ordering.then_eq_eq] at hpieces
  obtain ⟨hfront, hlast, -⟩ := hpieces
  obtain rfl : f = g := piece_leaf hlast
  by_cases hmode : mode = .directoriesFirst
  · subst hmode
    obtain rfl := directories_eq hfront
    obtain ⟨-, hstem, hextension⟩ := piece_eq_iff.mp hlast
    cases f with
    | false =>
      have hname : x.text = y.text := hstem
      rw [name_ext hname]
      exact .inl rfl
    | true => exact .inr (.inr ⟨rfl, rfl, rfl, as, x, y, rfl, rfl, hstem, hextension⟩)
  · rw [finalBy_eq hmode] at hfinal
    have htext := Std.LawfulEqCmp.eq_of_compare hfinal
    exact .inl (Prod.ext (spell_injective (RelPath.ext htext)) rfl)

theorem entriesBy_eq_iff [Std.TransCmp runs] [Std.LawfulEqCmp runs] {a b : List Name × Bool} :
    entriesBy db runs mode order a b = .eq ↔ CompareEqual db mode order a b := by
  obtain ⟨as, f⟩ := a
  obtain ⟨bs, g⟩ := b
  constructor
  · intro h
    have hlength := length_of_compareLex (Ordering.then_eq_eq.mp h).1
    rw [length_pieces, length_pieces] at hlength
    rcases List.eq_nil_or_concat as with rfl | ⟨as, x, rfl⟩
    · exact .inr (.inl ⟨rfl, List.length_eq_zero_iff.mp hlength.symm⟩)
    · rcases List.eq_nil_or_concat bs with rfl | ⟨bs, y, rfl⟩
      · simp at hlength
      · rw [List.concat_eq_append, List.concat_eq_append] at h ⊢
        exact eq_of_entriesBy h
  · rintro (heq | ⟨rfl, rfl⟩ | ⟨rfl, rfl, rfl, parent, x, y, rfl, rfl, hkeys⟩)
    · rw [heq]
      exact Std.ReflCmp.compare_self
    · exact if_neg fun h => h.2 rfl
    · have hparent : List.compareLex (Piece.cmpBy db runs .directoriesFirst order)
          (parent.map directory) (parent.map directory) = .eq := Std.ReflCmp.compare_self
      have hlast : Piece.cmpBy db runs .directoriesFirst order ⟨x.text, true⟩
        ⟨y.text, true⟩ = .eq :=
        piece_eq_iff.mpr ⟨rfl, hkeys⟩
      rw [entriesBy, finalBy_directoriesFirst, pieces_concat, pieces_concat, compareLex_append rfl,
        hparent, List.compareLex_cons_cons, hlast]
      rfl

theorem entriesBy_descendant [Std.TransCmp runs] [Std.LawfulEqCmp runs] {names more : List Name}
    {g : Bool} (h : more ≠ []) :
    entriesBy db runs mode order (names, false) (names ++ more, g) = .lt := by
  have hnames : List.compareLex (Piece.cmpBy db runs mode order) (names.map directory)
      (names.map directory) = .eq := Std.ReflCmp.compare_self
  have happend : List.compareLex (Piece.cmpBy db runs mode order) (names.map directory ++ [])
      (names.map directory ++ pieces g more) =
      (List.compareLex (Piece.cmpBy db runs mode order) (names.map directory)
        (names.map directory)).then
          (List.compareLex (Piece.cmpBy db runs mode order) [] (pieces g more)) :=
    compareLex_append rfl
  obtain ⟨name, more, rfl⟩ := List.exists_cons_of_ne_nil h
  rw [List.append_nil, hnames] at happend
  rw [entriesBy, pieces_directory, pieces_append names h, happend]
  rfl

end Equal

/-! ### The entries -/

section Entries

variable (db : CharacterDatabase) (mode : SortMode) (order : SortOrder)

/-- The comparison is an order at three entries, tells the first two apart, and puts a directory
before what is in it. -/
structure OrdersEntries (a b c : RelPath × Bool) : Prop where
  reversed : compareRelPathsBy db b a mode order = (compareRelPathsBy db a b mode order).swap
  transitive : (compareRelPathsBy db a b mode order).isLE →
    (compareRelPathsBy db b c mode order).isLE → (compareRelPathsBy db a c mode order).isLE
  identical : compareRelPathsBy db a b mode order = .eq → a = b
  directories : a.2 = false → ∀ names more, more ≠ [] → a.1 = spell names →
    b.1 = spell (names ++ more) → compareRelPathsBy db a b mode order = .lt

/-- Different entries with the same keys: the empty path with both flags, or, if directories come
first, two files in the same directory, with the same stem, whose extensions compare equal. -/
def Twins (a b : RelPath × Bool) : Prop :=
  a ≠ b ∧ ((a.1 = RelPath.empty ∧ b.1 = RelPath.empty) ∨
    (mode = .directoriesFirst ∧ a.2 = true ∧ b.2 = true ∧ ∃ parent x y,
      a.1 = spell (parent ++ [x]) ∧ b.1 = spell (parent ++ [y]) ∧ SameKeys db order x y))

variable {db mode order}

theorem compareEqual_iff {as bs : List Name} {f g : Bool}
    (hne : (spell as, f) ≠ (spell bs, g)) :
    CompareEqual db mode order (as, f) (bs, g) ↔ Twins db mode order (spell as, f)
      (spell bs, g) := by
  have hempty : ∀ names, spell names = RelPath.empty ↔ names = [] := fun names =>
    ⟨fun h => spell_injective (h.trans Path.spell_nil.symm), fun h => by rw [h]; rfl⟩
  constructor
  · rintro (heq | hnil | ⟨hmode, hf, hg, parent, x, y, ha, hb, hkeys⟩)
    · cases heq
      exact absurd rfl hne
    · exact ⟨hne, .inl ⟨(hempty as).mpr hnil.1, (hempty bs).mpr hnil.2⟩⟩
    · exact ⟨hne, .inr ⟨hmode, hf, hg, parent, x, y, congrArg spell ha, congrArg spell hb, hkeys⟩⟩
  · rintro ⟨-, hnil | ⟨hmode, hf, hg, parent, x, y, ha, hb, hkeys⟩⟩
    · exact .inr (.inl ⟨(hempty as).mp hnil.1, (hempty bs).mp hnil.2⟩)
    · exact .inr (.inr ⟨hmode, hf, hg, parent, x, y, spell_injective ha, spell_injective hb, hkeys⟩)

/-- **The order of entries.**  With runs of at most 38 digits, the comparison is an order at three
entries that puts directories before what is in them, unless two different entries have the same
keys. -/
theorem rel_paths_order_iff (db : CharacterDatabase) (mode : SortMode) (order : SortOrder)
    (a b c : RelPath × Bool) (ha : a.1.Normalized) (hb : b.1.Normalized) (hc : c.1.Normalized)
    (hshort : ShortRuns a.1.text ∧ ShortRuns b.1.text ∧ ShortRuns c.1.text) :
    OrdersEntries db mode order a b c ↔ ¬ Twins db mode order a b := by
  obtain ⟨pathA, f⟩ := a
  obtain ⟨pathB, g⟩ := b
  obtain ⟨pathC, k⟩ := c
  obtain ⟨as, rfl⟩ := Path.normalized_iff.mp ha
  obtain ⟨bs, rfl⟩ := Path.normalized_iff.mp hb
  obtain ⟨cs, rfl⟩ := Path.normalized_iff.mp hc
  obtain ⟨hshortA, hshortB, hshortC⟩ := hshort
  have hcmp : ∀ {as bs : List Name} {f g : Bool}, ShortRuns (spell as).text →
      ShortRuns (spell bs).text → compareRelPathsBy db (spell as, f) (spell bs, g) mode order =
        entriesBy db Run.byValue mode order (as, f) (bs, g) := fun has hbs => by
    rw [compareRelPathsBy_spell, entriesBy_eq has hbs]
  constructor
  · intro h htwins
    refine htwins.1 (h.identical ?_)
    rw [hcmp hshortA hshortB, entriesBy_eq_iff, compareEqual_iff htwins.1]
    exact htwins
  · intro htwins
    refine ⟨?_, ?_, fun heq => ?_, fun hdirectory names more hmore hnames hnames' => ?_⟩
    · rw [hcmp hshortA hshortB, hcmp hshortB hshortA]
      exact Std.OrientedCmp.eq_swap
    · rw [hcmp hshortA hshortB, hcmp hshortB hshortC, hcmp hshortA hshortC]
      exact Std.TransCmp.isLE_trans
    · by_contra hne
      rw [hcmp hshortA hshortB, entriesBy_eq_iff, compareEqual_iff hne] at heq
      exact htwins heq
    · obtain rfl := spell_injective hnames
      obtain rfl := spell_injective hnames'
      rw [hcmp hshortA hshortB, show f = false from hdirectory]
      exact entriesBy_descendant hmore

end Entries

/-- The characters of ASCII. -/
def asciiDatabase : CharacterDatabase where
  isLowercase := Char.isLower
  isUppercase := Char.isUpper
  toLowercase := lower

/-- The files a.TXT and a.txt compare equal. -/
theorem extensions_equal : ¬ OrdersEntries asciiDatabase .directoriesFirst .default
    (⟨['a', '.', 'T', 'X', 'T']⟩, true) (⟨['a', '.', 't', 'x', 't']⟩, true)
    (⟨['a', '.', 't', 'x', 't']⟩, true) := by
  intro h
  have hupper : Path.IsName ['a', '.', 'T', 'X', 'T'] := by constructor <;> decide
  have hlower : Path.IsName ['a', '.', 't', 'x', 't'] := by constructor <;> decide
  have heq : compareRelPathsBy asciiDatabase (spell [⟨_, hupper⟩], true) (spell [⟨_, hlower⟩], true)
      .directoriesFirst .default = .eq := by
    rw [compareRelPathsBy_spell]
    rfl
  exact absurd (congrArg (fun entry => entry.1.text) (h.identical heq)) (by decide)

theorem rel_paths_order_iff_three :
    OrdersEntries asciiDatabase .mixed .default (⟨['a']⟩, false) (⟨['a', '/', '1', '0']⟩, true)
        (⟨['a', '/', '9']⟩, true) ↔
      ¬ Twins asciiDatabase .mixed .default (⟨['a']⟩, false) (⟨['a', '/', '1', '0']⟩, true) := by
  have hshort : ∀ text : Text, text.length ≤ 38 → ShortRuns text :=
    fun text htext digits hdigits _ => hdigits.length_le.trans htext
  exact rel_paths_order_iff asciiDatabase .mixed .default _ _ _ (.inr (by decide))
    (.inr (by decide)) (.inr (by decide))
    ⟨hshort _ (by decide), hshort _ (by decide), hshort _ (by decide)⟩

end Zui.Paths
