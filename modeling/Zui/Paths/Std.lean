/-
Paths and numbers of the standard library.

`PathBuf` is the text of a Unix path.  Its order, its equality and `starts_with` look at its
components only: what stands between separators, without what is empty and without "." behind
the start.

`parseUnsigned` reads an unsigned integer in decimal, with an optional "+" in front, and
`display` prints one.
-/
import Zui.Path.Basic
import Mathlib.Data.List.Infix
import Mathlib.Order.Basic

namespace Zui.Paths

open Zui.Path (Text)

/-- `std::path::Component` of a Unix path. -/
inductive Component
  | rootDir
  | curDir
  | parentDir
  | normal (name : Text)
  deriving DecidableEq, Repr

/-- `std::path::PathBuf`. -/
@[ext] structure PathBuf where
  text : Text
  deriving DecidableEq, Repr

namespace Component

/-- What the text between two separators stands for. -/
def parse (piece : Text) : Option Component :=
  if piece = [] ∨ piece = ['.'] then none
  else if piece = ['.', '.'] then some parentDir
  else some (normal piece)

/-- The place of the constructor among the constructors. -/
def rank : Component → ℕ
  | rootDir => 0
  | curDir => 1
  | parentDir => 2
  | normal _ => 3

/-- The name of a normal component. -/
def name : Component → Text
  | normal name => name
  | _ => []

/-- `Component::cmp`. -/
def cmp : Component → Component → Ordering :=
  compareLex (compareOn rank) (compareOn name)

end Component

namespace PathBuf

/-- What stands in front of the first separator. -/
def first (text : Text) (more : Bool) : Option Component :=
  if text = [] ∧ more then some .rootDir
  else if text = ['.'] then some .curDir
  else Component.parse text

/-- `Path::components`. -/
def components (self : PathBuf) : List Component :=
  match self.text.splitOn '/' with
  | [] => []
  | piece :: pieces => (first piece (pieces ≠ [])).toList ++ pieces.filterMap Component.parse

/-- `Path::starts_with`. -/
def startsWith (self base : PathBuf) : Bool :=
  base.components.isPrefixOf self.components

/-- `Path::cmp`. -/
def cmp (self other : PathBuf) : Ordering :=
  List.compareLex Component.cmp self.components other.components

/-- `Path::file_name`. -/
def fileName (self : PathBuf) : Option Text :=
  match self.components.getLast? with
  | some (.normal name) => some name
  | _ => none

/-- `Path::is_absolute`. -/
def isAbsolute (self : PathBuf) : Bool :=
  ['/'].isPrefixOf self.text

example : (PathBuf.mk ['.', '/', '/', 'a', '/', '.', '/', '.', '.', '/']).components =
    [.curDir, .normal ['a'], .parentDir] := by decide

/-- The paths that a path is in are those whose components its own ones begin with. -/
instance : Preorder PathBuf where
  le base path := base.components <+: path.components
  le_refl _ := List.prefix_rfl
  le_trans _ _ _ := List.IsPrefix.trans

theorem startsWith_iff {self base : PathBuf} : self.startsWith base = true ↔ base ≤ self :=
  List.isPrefixOf_iff_prefix

instance : DecidableLE PathBuf := fun _ _ => decidable_of_iff _ startsWith_iff

end PathBuf

/-! ### Numbers -/

/-- `str::parse` for the unsigned integers up to `max`. -/
def parseUnsigned (max : ℕ) (text : Text) : Option ℕ :=
  let digits := if text.head? = some '+' then text.tail else text
  if digits ≠ [] ∧ digits.all Char.isDigit ∧ Nat.ofDigitChars 10 digits 0 ≤ max then
    some (Nat.ofDigitChars 10 digits 0)
  else none

/-- `Display` of an unsigned integer. -/
def display (n : ℕ) : Text :=
  Nat.toDigits 10 n

theorem display_ne_nil {n : ℕ} : display n ≠ [] :=
  Nat.toDigits_ne_nil

theorem isDigit_of_mem_display {n : ℕ} {c : Char} (h : c ∈ display n) : c.isDigit :=
  Nat.isDigit_of_mem_toDigits (by omega) (by omega) h

theorem not_mem_display {n : ℕ} {c : Char} (h : c.isDigit = false) : c ∉ display n :=
  fun hc => Bool.false_ne_true (h.symm.trans (isDigit_of_mem_display hc))

theorem parseUnsigned_digits {max : ℕ} {digits : Text} (hne : digits ≠ [])
    (hdigits : ∀ c ∈ digits, c.isDigit) :
    parseUnsigned max digits =
      if Nat.ofDigitChars 10 digits 0 ≤ max then some (Nat.ofDigitChars 10 digits 0) else none := by
  have hplus : digits.head? ≠ some '+' := fun hhead =>
    absurd (hdigits '+' (List.mem_of_head? hhead)) (by decide)
  rw [parseUnsigned, if_neg hplus]
  by_cases hle : Nat.ofDigitChars 10 digits 0 ≤ max
  · rw [if_pos hle]
    exact if_pos ⟨hne, List.all_eq_true.mpr hdigits, hle⟩
  · rw [if_neg hle]
    exact if_neg fun h => hle h.2.2

theorem parseUnsigned_display {max n : ℕ} (h : n ≤ max) :
    parseUnsigned max (display n) = some n := by
  rw [parseUnsigned_digits display_ne_nil fun c => isDigit_of_mem_display, display,
    Nat.ofDigitChars_ten_toDigits, if_pos h]

end Zui.Paths
