/-
The parser of the predicates that bindings put on contexts.

A loop extends an expression to the right by the operators that bind at least as tightly as
it is asked to look for.  The parsed names are made of the characters of identifiers, or are
one of the operators of vim.

Design notes:

* a source is the list of its characters;
* the recursion is on a fuel, and `parse` gives it as much as it may need
  (`parseExpr_stable`);
* which characters beyond ASCII are alphanumeric is left open (`Alphabet`).

Main statements:

* `parseExpr_stable` — more fuel does not change anything;
* `parse_valid` — the names of a parsed predicate are names.
-/
import Zui.Keys.Context
import Zui.Library.Loop
import Zui.Library.Text

namespace Zui.Keys

/-- `char::is_alphanumeric`. -/
structure Alphabet where
  isAlphanumeric : Char → Bool
  ascii : ∀ c : Char, c.toNat < 128 → isAlphanumeric c = c.isAlphanum
  not_whitespace : ∀ c : Char, isAlphanumeric c = true → isWhitespace c = false

/-- `is_vim_operator_char`. -/
def isVimOperatorChar (c : Char) : Bool :=
  c == '>' || c == '<' || c == '~' || c == '"' || c == '?'

/-- `skip_whitespace`. -/
def skipWhitespace (source : List Char) : List Char :=
  source.dropWhile isWhitespace

/-- The errors of the parser. -/
inductive ParseError
  /-- "unexpected end" -/
  | unexpectedEnd
  /-- "expected a ')'" -/
  | expectedParen
  /-- "unexpected character" -/
  | unexpectedCharacter (next : Char)
  /-- "operands of == must be identifiers" -/
  | operandsOfEq
  /-- "operands of != must be identifiers" -/
  | operandsOfNeq
  | outOfFuel
  deriving DecidableEq, Repr

/-- The operators with two sides. -/
inductive Operator
  | child
  | and
  | or
  | eq
  | neq
  deriving DecidableEq, Repr

namespace Operator

/-- The operators in the order in which the loop tries them. -/
def all : List Operator :=
  [child, and, or, eq, neq]

/-- How an operator is written. -/
def text : Operator → List Char
  | child => ['>']
  | and => ['&', '&']
  | or => ['|', '|']
  | eq => ['=', '=']
  | neq => ['!', '=']

/-- `PRECEDENCE_CHILD`, `PRECEDENCE_OR`, `PRECEDENCE_AND` and `PRECEDENCE_EQ`. -/
def precedence : Operator → ℕ
  | child => 1
  | or => 2
  | and => 3
  | eq => 4
  | neq => 4

open KeyBindingContextPredicate in
/-- `new_child`, `new_and`, `new_or`, `new_eq` and `new_neq`. -/
def construct : Operator → KeyBindingContextPredicate → KeyBindingContextPredicate →
    Except ParseError KeyBindingContextPredicate
  | child, left, right => .ok (descendant left right)
  | and, left, right => .ok (KeyBindingContextPredicate.and left right)
  | or, left, right => .ok (KeyBindingContextPredicate.or left right)
  | eq, identifier left, identifier right => .ok (equal left right)
  | eq, _, _ => .error .operandsOfEq
  | neq, identifier left, identifier right => .ok (notEqual left right)
  | neq, _, _ => .error .operandsOfNeq

end Operator

/-- `PRECEDENCE_NOT`. -/
def precedenceNot : ℕ :=
  5

/-- The first operator that the source goes on with and that binds tightly enough. -/
def findOperator (source : List Char) (minPrecedence : ℕ) : Option Operator :=
  Operator.all.find? fun operator =>
    operator.text.isPrefixOf source && decide (minPrecedence ≤ operator.precedence)

namespace Alphabet

/-- `is_identifier_char`. -/
def isIdentifierChar (alphabet : Alphabet) (c : Char) : Bool :=
  alphabet.isAlphanumeric c || c == '_' || c == '-'

/-- A character that a name goes on with. -/
def isNameChar (alphabet : Alphabet) (c : Char) : Bool :=
  alphabet.isIdentifierChar c || isVimOperatorChar c

variable (alphabet : Alphabet)

mutual

/-- `parse_expr`. -/
def parseExpr (fuel : ℕ) (source : List Char) (minPrecedence : ℕ) :
    Except ParseError (KeyBindingContextPredicate × List Char) :=
  match fuel with
  | 0 => .error .outOfFuel
  | fuel + 1 => do
    let (predicate, rest) ← parsePrimary fuel source
    parseLoop fuel predicate rest minPrecedence

/-- The loop of `parse_expr`. -/
def parseLoop (fuel : ℕ) (predicate : KeyBindingContextPredicate) (source : List Char)
    (minPrecedence : ℕ) : Except ParseError (KeyBindingContextPredicate × List Char) :=
  match fuel with
  | 0 => .error .outOfFuel
  | fuel + 1 =>
    match findOperator source minPrecedence with
    | none => .ok (predicate, source)
    | some operator => do
      let source := skipWhitespace (source.drop operator.text.length)
      let (right, rest) ← parseExpr fuel source (operator.precedence + 1)
      let predicate ← operator.construct predicate right
      parseLoop fuel predicate rest minPrecedence

/-- `parse_primary`. -/
def parsePrimary (fuel : ℕ) (source : List Char) :
    Except ParseError (KeyBindingContextPredicate × List Char) :=
  match fuel with
  | 0 => .error .outOfFuel
  | fuel + 1 =>
    match source with
    | [] => .error .unexpectedEnd
    | next :: rest =>
      if next = '(' then do
        let (predicate, rest) ← parseExpr fuel (skipWhitespace rest) 0
        match rest with
        | ')' :: stripped => .ok (predicate, skipWhitespace stripped)
        | _ => .error .expectedParen
      else if next = '!' then do
        let (predicate, rest) ← parseExpr fuel (skipWhitespace rest) precedenceNot
        .ok (.not predicate, rest)
      else if alphabet.isIdentifierChar next then
        let name := (next :: rest).takeWhile alphabet.isNameChar
        .ok (.identifier (String.ofList name),
          skipWhitespace ((next :: rest).dropWhile alphabet.isNameChar))
      else if isVimOperatorChar next then
        .ok (.identifier (String.ofList [next]), skipWhitespace rest)
      else .error (.unexpectedCharacter next)

end

/-- The fuel for a source. -/
def fuelOf (source : List Char) : ℕ :=
  2 * source.length + 2

/-- `parse`. -/
def parse (source : List Char) : Except ParseError KeyBindingContextPredicate := do
  let source := skipWhitespace source
  let (predicate, rest) ← alphabet.parseExpr (fuelOf source) source 0
  match rest with
  | next :: _ => .error (.unexpectedCharacter next)
  | [] => .ok predicate

/-! ### Enough fuel -/

variable {alphabet : Alphabet} {fuel minPrecedence : ℕ} {source rest : List Char}
  {predicate p : KeyBindingContextPredicate}

theorem skipWhitespace_length_le (source : List Char) :
    (skipWhitespace source).length ≤ source.length :=
  (List.dropWhile_sublist _).length_le

theorem findOperator_spec {operator : Operator}
    (h : findOperator source minPrecedence = some operator) :
    operator.text <+: source ∧ minPrecedence ≤ operator.precedence := by
  have hsome := List.find?_some h
  rw [Bool.and_eq_true, List.isPrefixOf_iff_prefix, decide_eq_true_eq] at hsome
  exact hsome

theorem length_drop_text_lt {operator : Operator}
    (h : findOperator source minPrecedence = some operator) :
    (skipWhitespace (source.drop operator.text.length)).length < source.length := by
  have hle := skipWhitespace_length_le (source.drop operator.text.length)
  have hprefix := (findOperator_spec h).1.length_le
  have hpos : 0 < operator.text.length := by cases operator <;> decide
  rw [List.length_drop] at hle
  omega

/-- The characters of a name: those of an identifier, or one operator of vim. -/
def ValidName (alphabet : Alphabet) (name : List Char) : Prop :=
  (∃ c cs, name = c :: cs ∧ alphabet.isIdentifierChar c = true ∧
    ∀ c ∈ cs, alphabet.isNameChar c = true) ∨
  ∃ c, name = [c] ∧ isVimOperatorChar c = true

theorem parseExpr_cases (h : alphabet.parseExpr (fuel + 1) source minPrecedence = .ok (p, rest)) :
    ∃ predicate rest', alphabet.parsePrimary fuel source = .ok (predicate, rest') ∧
      alphabet.parseLoop fuel predicate rest' minPrecedence = .ok (p, rest) := by
  rw [parseExpr] at h
  obtain ⟨⟨predicate, rest'⟩, hprimary, h⟩ := bind_eq_ok.mp h
  exact ⟨predicate, rest', hprimary, h⟩

theorem parseLoop_cases
    (h : alphabet.parseLoop (fuel + 1) predicate source minPrecedence = .ok (p, rest)) :
    (findOperator source minPrecedence = none ∧ p = predicate ∧ rest = source) ∨
      ∃ operator right rest' predicate', findOperator source minPrecedence = some operator ∧
        alphabet.parseExpr fuel (skipWhitespace (source.drop operator.text.length))
          (operator.precedence + 1) = .ok (right, rest') ∧
        operator.construct predicate right = .ok predicate' ∧
        alphabet.parseLoop fuel predicate' rest' minPrecedence = .ok (p, rest) := by
  rw [parseLoop] at h
  split at h
  · cases h
    exact .inl ⟨‹_›, rfl, rfl⟩
  · rename_i operator hoperator
    obtain ⟨⟨right, rest'⟩, hexpr, h⟩ := bind_eq_ok.mp h
    obtain ⟨predicate', hconstruct, h⟩ := bind_eq_ok.mp h
    exact .inr ⟨operator, right, rest', predicate', hoperator, hexpr, hconstruct, h⟩

theorem parsePrimary_cases (h : alphabet.parsePrimary (fuel + 1) source = .ok (p, rest)) :
    (∃ tail stripped, source = '(' :: tail ∧
      alphabet.parseExpr fuel (skipWhitespace tail) 0 = .ok (p, ')' :: stripped) ∧
      rest = skipWhitespace stripped) ∨
    (∃ tail predicate, source = '!' :: tail ∧
      alphabet.parseExpr fuel (skipWhitespace tail) precedenceNot = .ok (predicate, rest) ∧
      p = .not predicate) ∨
    ∃ name tail, alphabet.ValidName name ∧ source = name ++ tail ∧
      p = .identifier (String.ofList name) ∧ rest = skipWhitespace tail := by
  unfold parsePrimary at h
  cases source with
  | nil => cases h
  | cons next tail =>
    dsimp only at h
    split at h
    · rename_i hnext
      obtain ⟨⟨predicate, rest'⟩, hexpr, h⟩ := bind_eq_ok.mp h
      dsimp only at h
      split at h
      · cases h
        exact .inl ⟨tail, _, by rw [hnext], hexpr, rfl⟩
      · cases h
    split at h
    · rename_i hnext
      obtain ⟨⟨predicate, rest'⟩, hexpr, h⟩ := bind_eq_ok.mp h
      cases h
      exact .inr (.inl ⟨tail, predicate, by rw [hnext], hexpr, rfl⟩)
    split at h
    · rename_i hnext
      cases h
      have hname : alphabet.isNameChar next = true := by rw [isNameChar, hnext, Bool.true_or]
      refine .inr (.inr ⟨_, _, .inl ⟨next, _, List.takeWhile_cons_of_pos hname, hnext, ?_⟩,
        List.takeWhile_append_dropWhile.symm, rfl, rfl⟩)
      exact fun c hc => List.mem_takeWhile_imp hc
    split at h
    · rename_i hnext
      cases h
      exact .inr (.inr ⟨[next], tail, .inr ⟨next, rfl, hnext⟩, rfl, rfl, rfl⟩)
    · cases h

theorem ValidName.length_pos {name : List Char} (h : alphabet.ValidName name) :
    0 < name.length := by
  rcases h with ⟨c, cs, rfl, -⟩ | ⟨c, rfl, -⟩
  · exact Nat.succ_pos _
  · exact Nat.one_pos

/-- An expression takes a part of its source, and the loop does not put anything back. -/
theorem length_lt (fuel : ℕ) :
    (∀ {source minPrecedence p rest},
      alphabet.parseExpr fuel source minPrecedence = .ok (p, rest) → rest.length < source.length) ∧
    (∀ {predicate source minPrecedence p rest},
      alphabet.parseLoop fuel predicate source minPrecedence = .ok (p, rest) →
        rest.length ≤ source.length) ∧
    (∀ {source p rest},
      alphabet.parsePrimary fuel source = .ok (p, rest) → rest.length < source.length) := by
  induction fuel with
  | zero => exact ⟨nofun, nofun, nofun⟩
  | succ fuel ih =>
    obtain ⟨ihexpr, ihloop, ihprimary⟩ := ih
    refine ⟨?_, ?_, ?_⟩
    · intro source minPrecedence p rest h
      obtain ⟨predicate, rest', hprimary, hloop⟩ := parseExpr_cases h
      exact (ihloop hloop).trans_lt (ihprimary hprimary)
    · intro predicate source minPrecedence p rest h
      rcases parseLoop_cases h with ⟨-, -, rfl⟩ | ⟨operator, right, rest', _,
        hoperator, hexpr, -, hloop⟩
      · exact le_rfl
      · have hlt := length_drop_text_lt hoperator
        have := ihexpr hexpr
        have := ihloop hloop
        omega
    · intro source p rest h
      rcases parsePrimary_cases h with ⟨tail, stripped, rfl, hexpr, rfl⟩ |
        ⟨tail, predicate, rfl, hexpr, -⟩ | ⟨name, tail, hname, rfl, -, rfl⟩
      · have := ihexpr hexpr
        have := skipWhitespace_length_le tail
        have := skipWhitespace_length_le stripped
        rw [List.length_cons] at *
        omega
      · have := ihexpr hexpr
        have := skipWhitespace_length_le tail
        rw [List.length_cons]
        omega
      · have := skipWhitespace_length_le tail
        have := hname.length_pos
        rw [List.length_append]
        omega

/-- More fuel does not change anything. -/
theorem stable (fuel : ℕ) :
    (∀ {source minPrecedence}, 2 * source.length + 2 ≤ fuel →
      alphabet.parseExpr (fuel + 1) source minPrecedence =
        alphabet.parseExpr fuel source minPrecedence) ∧
    (∀ {predicate source minPrecedence}, 2 * source.length + 1 ≤ fuel →
      alphabet.parseLoop (fuel + 1) predicate source minPrecedence =
        alphabet.parseLoop fuel predicate source minPrecedence) ∧
    (∀ {source}, 2 * source.length + 1 ≤ fuel →
      alphabet.parsePrimary (fuel + 1) source = alphabet.parsePrimary fuel source) := by
  induction fuel with
  | zero => exact ⟨fun h => by omega, fun h => by omega, fun h => by omega⟩
  | succ fuel ih =>
    obtain ⟨ihexpr, ihloop, ihprimary⟩ := ih
    refine ⟨?_, ?_, ?_⟩
    · intro source minPrecedence hfuel
      rw [parseExpr, ihprimary (by omega), parseExpr]
      cases hprimary : alphabet.parsePrimary fuel source with
      | error e => rfl
      | ok result =>
        have hlt := (length_lt fuel).2.2 hprimary
        exact ihloop (by omega)
    · intro predicate source minPrecedence hfuel
      rw [parseLoop, parseLoop]
      cases hoperator : findOperator source minPrecedence with
      | none => rfl
      | some operator =>
        have hlt := length_drop_text_lt hoperator
        dsimp only
        rw [ihexpr (by omega)]
        cases hexpr : alphabet.parseExpr fuel
            (skipWhitespace (source.drop operator.text.length)) (operator.precedence + 1) with
        | error e => rfl
        | ok result =>
          have := (length_lt fuel).1 hexpr
          cases hconstruct : operator.construct predicate result.1 with
          | error e => simp [bind, Except.bind, hconstruct]
          | ok predicate' =>
            simpa [bind, Except.bind, hconstruct] using ihloop (by omega)
    · intro source hfuel
      cases source with
      | nil =>
        unfold parsePrimary
        rfl
      | cons next tail =>
        rw [List.length_cons] at hfuel
        have hle := skipWhitespace_length_le tail
        unfold parsePrimary
        dsimp only
        rw [ihexpr (by omega), ihexpr (by omega)]

/-- Beyond the fuel for a source, the fuel does not matter. -/
theorem parseExpr_stable (h : fuelOf source ≤ fuel) :
    alphabet.parseExpr fuel source minPrecedence =
      alphabet.parseExpr (fuelOf source) source minPrecedence := by
  induction fuel, h using Nat.le_induction with
  | base => rfl
  | succ fuel hle ih => rw [(stable fuel).1 hle, ih]

/-! ### The names of a parsed predicate -/

/-- A predicate all of whose names are names. -/
def Valid (alphabet : Alphabet) : KeyBindingContextPredicate → Prop
  | .identifier name => alphabet.ValidName name.toList
  | .equal left right => alphabet.ValidName left.toList ∧ alphabet.ValidName right.toList
  | .notEqual left right => alphabet.ValidName left.toList ∧ alphabet.ValidName right.toList
  | .descendant parent child => alphabet.Valid parent ∧ alphabet.Valid child
  | .not pred => alphabet.Valid pred
  | .and left right => alphabet.Valid left ∧ alphabet.Valid right
  | .or left right => alphabet.Valid left ∧ alphabet.Valid right

theorem valid_construct {operator : Operator} {left right : KeyBindingContextPredicate}
    (hleft : alphabet.Valid left) (hright : alphabet.Valid right)
    (h : operator.construct left right = .ok p) : alphabet.Valid p := by
  cases operator with
  | child => cases h; exact ⟨hleft, hright⟩
  | and => cases h; exact ⟨hleft, hright⟩
  | or => cases h; exact ⟨hleft, hright⟩
  | eq =>
    cases left <;> cases right <;> try cases h
    exact ⟨hleft, hright⟩
  | neq =>
    cases left <;> cases right <;> try cases h
    exact ⟨hleft, hright⟩

theorem valid_of_parse (fuel : ℕ) :
    (∀ {source minPrecedence p rest},
      alphabet.parseExpr fuel source minPrecedence = .ok (p, rest) → alphabet.Valid p) ∧
    (∀ {predicate source minPrecedence p rest}, alphabet.Valid predicate →
      alphabet.parseLoop fuel predicate source minPrecedence = .ok (p, rest) → alphabet.Valid p) ∧
    (∀ {source p rest},
      alphabet.parsePrimary fuel source = .ok (p, rest) → alphabet.Valid p) := by
  induction fuel with
  | zero => exact ⟨nofun, nofun, nofun⟩
  | succ fuel ih =>
    obtain ⟨ihexpr, ihloop, ihprimary⟩ := ih
    refine ⟨?_, ?_, ?_⟩
    · intro source minPrecedence p rest h
      obtain ⟨predicate, rest', hprimary, hloop⟩ := parseExpr_cases h
      exact ihloop (ihprimary hprimary) hloop
    · intro predicate source minPrecedence p rest hpredicate h
      rcases parseLoop_cases h with ⟨-, rfl, -⟩ | ⟨operator, right, rest', predicate', -, hexpr,
        hconstruct, hloop⟩
      · exact hpredicate
      · exact ihloop (valid_construct hpredicate (ihexpr hexpr) hconstruct) hloop
    · intro source p rest h
      rcases parsePrimary_cases h with ⟨tail, stripped, -, hexpr, -⟩ |
        ⟨tail, predicate, -, hexpr, rfl⟩ | ⟨name, tail, hname, -, rfl, -⟩
      · exact ihexpr hexpr
      · exact show alphabet.Valid predicate from ihexpr hexpr
      · rw [Valid, String.toList_ofList]
        exact hname

/-- The names of a parsed predicate are names. -/
theorem parse_valid (h : alphabet.parse source = .ok p) : alphabet.Valid p := by
  obtain ⟨⟨predicate, rest⟩, hexpr, h⟩ := bind_eq_ok.mp h
  dsimp only at h
  split at h
  · cases h
  · cases h
    exact (valid_of_parse _).1 hexpr

end Alphabet

end Zui.Keys
