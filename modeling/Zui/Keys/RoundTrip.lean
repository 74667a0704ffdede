/-
Parsing a printed predicate.

Main definitions:

* `Parses`, `Loops` — what the parser does as soon as it has enough fuel.

Main statements:

* `parses_display` — the parser comes out of a printed predicate in the loop that extends the
  regrouped predicate;
* `parse_display` — a predicate that is parsed, printed and parsed again has the meaning that
  it had, if no `>` in it needs parentheses.
-/
import Zui.Keys.Parser
import Zui.Keys.Display

namespace Zui.Keys

namespace LogicalOperator

/-- The operator of the parser. -/
def toOperator : LogicalOperator → Operator
  | and => .and
  | or => .or

end LogicalOperator

namespace Alphabet

open KeyBindingContextPredicate

variable {alphabet : Alphabet} {source rest tail name : List Char} {minPrecedence : ℕ}
  {p predicate q : KeyBindingContextPredicate}

/-! ### Characters -/

theorem isIdentifierChar_ascii {c : Char} (h : c.toNat < 128) :
    alphabet.isIdentifierChar c = (c.isAlphanum || c == '_' || c == '-') := by
  rw [isIdentifierChar, alphabet.ascii c h]

theorem isIdentifierChar_of_vim {c : Char} (h : isVimOperatorChar c = true) :
    alphabet.isIdentifierChar c = false := by
  simp only [isVimOperatorChar, Bool.or_eq_true, beq_iff_eq] at h
  rcases h with (((rfl | rfl) | rfl) | rfl) | rfl
  all_goals
    rw [isIdentifierChar_ascii (by decide)]
    decide

theorem isWhitespace_of_isIdentifierChar {c : Char} (h : alphabet.isIdentifierChar c = true) :
    isWhitespace c = false := by
  simp only [isIdentifierChar, Bool.or_eq_true, beq_iff_eq] at h
  rcases h with (h | rfl) | rfl
  · exact alphabet.not_whitespace c h
  · decide
  · decide

theorem isWhitespace_of_vim {c : Char} (h : isVimOperatorChar c = true) :
    isWhitespace c = false := by
  simp only [isVimOperatorChar, Bool.or_eq_true, beq_iff_eq] at h
  rcases h with (((rfl | rfl) | rfl) | rfl) | rfl <;> decide

/-- A name does not go on here. -/
def Ends (alphabet : Alphabet) (rest : List Char) : Prop :=
  ∀ c ∈ rest.head?, alphabet.isNameChar c = false

theorem ends_nil : alphabet.Ends [] :=
  nofun

theorem ends_space : alphabet.Ends (' ' :: rest) := by
  intro c hc
  cases hc
  rw [isNameChar, isIdentifierChar_ascii (by decide)]
  decide

theorem ends_paren : alphabet.Ends (')' :: rest) := by
  intro c hc
  cases hc
  rw [isNameChar, isIdentifierChar_ascii (by decide)]
  decide

theorem takeWhile_name (hname : ∀ c ∈ name, alphabet.isNameChar c = true)
    (hrest : alphabet.Ends rest) :
    (name ++ rest).takeWhile alphabet.isNameChar = name ∧
      (name ++ rest).dropWhile alphabet.isNameChar = rest := by
  rw [List.takeWhile_append_of_pos hname, List.dropWhile_append_of_pos hname]
  cases rest with
  | nil => simp
  | cons c rest =>
    have hc := hrest c rfl
    simp [hc]

/-- The text does not begin with white space. -/
def Starts (source : List Char) : Prop :=
  ∃ c cs, source = c :: cs ∧ isWhitespace c = false

theorem Starts.append (h : Starts source) : Starts (source ++ rest) := by
  obtain ⟨c, cs, rfl, hc⟩ := h
  exact ⟨c, cs ++ rest, rfl, hc⟩

theorem Starts.skipWhitespace (h : Starts source) : skipWhitespace source = source := by
  obtain ⟨c, cs, rfl, hc⟩ := h
  exact List.dropWhile_cons_of_neg (by simp [hc])

theorem Starts.skipWhitespace_space (h : Starts source) :
    Keys.skipWhitespace (' ' :: source) = source :=
  (List.dropWhile_cons_of_pos (by decide)).trans h.skipWhitespace

theorem ValidName.starts (h : alphabet.ValidName name) : Starts name := by
  rcases h with ⟨c, cs, rfl, hc, -⟩ | ⟨c, rfl, hc⟩
  · exact ⟨c, cs, rfl, isWhitespace_of_isIdentifierChar hc⟩
  · exact ⟨c, [], rfl, isWhitespace_of_vim hc⟩

theorem starts_text (operator : Operator) : Starts (operator.text ++ rest) := by
  cases operator <;> exact ⟨_, _, rfl, by decide⟩

/-! ### The parser with enough fuel -/

/-- `parse_expr` returns this, if it has enough fuel. -/
def Parses (alphabet : Alphabet) (source : List Char) (minPrecedence : ℕ)
    (p : KeyBindingContextPredicate) (rest : List Char) : Prop :=
  ∃ n, ∀ fuel ≥ n, alphabet.parseExpr fuel source minPrecedence = .ok (p, rest)

/-- The loop of `parse_expr` returns this, if it has enough fuel. -/
def Loops (alphabet : Alphabet) (predicate : KeyBindingContextPredicate) (source : List Char)
    (minPrecedence : ℕ) (p : KeyBindingContextPredicate) (rest : List Char) : Prop :=
  ∃ n, ∀ fuel ≥ n, alphabet.parseLoop fuel predicate source minPrecedence = .ok (p, rest)

/-- `parse_primary` returns this, if it has enough fuel. -/
def Primary (alphabet : Alphabet) (source : List Char) (p : KeyBindingContextPredicate)
    (rest : List Char) : Prop :=
  ∃ n, ∀ fuel ≥ n, alphabet.parsePrimary fuel source = .ok (p, rest)

theorem Primary.parses {rest' : List Char} (hprimary : alphabet.Primary source predicate rest')
    (hloop : alphabet.Loops predicate rest' minPrecedence p rest) :
    alphabet.Parses source minPrecedence p rest := by
  obtain ⟨n, hn⟩ := hprimary
  obtain ⟨m, hm⟩ := hloop
  refine ⟨max n m + 1, fun fuel hfuel => ?_⟩
  obtain ⟨fuel, rfl⟩ := Nat.exists_eq_add_of_le' (show 1 ≤ fuel by omega)
  rw [parseExpr, hn fuel (by omega)]
  exact hm fuel (by omega)

theorem Loops.stop (h : findOperator source minPrecedence = none) :
    alphabet.Loops predicate source minPrecedence predicate source := by
  refine ⟨1, fun fuel hfuel => ?_⟩
  obtain ⟨fuel, rfl⟩ := Nat.exists_eq_add_of_le' hfuel
  rw [parseLoop, h]

theorem Loops.next {operator : Operator} {right predicate' : KeyBindingContextPredicate}
    {rest' : List Char} (hoperator : findOperator source minPrecedence = some operator)
    (hexpr : alphabet.Parses (skipWhitespace (source.drop operator.text.length))
      (operator.precedence + 1) right rest')
    (hconstruct : operator.construct predicate right = .ok predicate')
    (hloop : alphabet.Loops predicate' rest' minPrecedence p rest) :
    alphabet.Loops predicate source minPrecedence p rest := by
  obtain ⟨n, hn⟩ := hexpr
  obtain ⟨m, hm⟩ := hloop
  refine ⟨max n m + 1, fun fuel hfuel => ?_⟩
  obtain ⟨fuel, rfl⟩ := Nat.exists_eq_add_of_le' (show 1 ≤ fuel by omega)
  rw [parseLoop, hoperator]
  dsimp only
  rw [hn fuel (by omega)]
  show (operator.construct predicate right >>= fun predicate' =>
    alphabet.parseLoop fuel predicate' rest' minPrecedence) = _
  rw [hconstruct]
  exact hm fuel (by omega)

theorem Primary.paren (hexpr : alphabet.Parses (skipWhitespace tail) 0 p (')' :: rest)) :
    alphabet.Primary ('(' :: tail) p (skipWhitespace rest) := by
  obtain ⟨n, hn⟩ := hexpr
  refine ⟨n + 1, fun fuel hfuel => ?_⟩
  obtain ⟨fuel, rfl⟩ := Nat.exists_eq_add_of_le' (show 1 ≤ fuel by omega)
  unfold parsePrimary
  dsimp only
  rw [if_pos rfl, hn fuel (by omega)]
  rfl

theorem Primary.not (hexpr : alphabet.Parses (skipWhitespace tail) precedenceNot p rest) :
    alphabet.Primary ('!' :: tail) (.not p) rest := by
  obtain ⟨n, hn⟩ := hexpr
  refine ⟨n + 1, fun fuel hfuel => ?_⟩
  obtain ⟨fuel, rfl⟩ := Nat.exists_eq_add_of_le' (show 1 ≤ fuel by omega)
  unfold parsePrimary
  dsimp only
  rw [if_neg (by decide), if_pos rfl, hn fuel (by omega)]
  rfl

theorem Primary.of_name (hname : alphabet.ValidName name) (hrest : alphabet.Ends rest) :
    alphabet.Primary (name ++ rest) (.identifier (String.ofList name)) (skipWhitespace rest) := by
  refine ⟨1, fun fuel hfuel => ?_⟩
  obtain ⟨fuel, rfl⟩ := Nat.exists_eq_add_of_le' hfuel
  have hne : ∀ {c c' : Char}, alphabet.isIdentifierChar c = true →
      c'.toNat < 128 → (c'.isAlphanum || c' == '_' || c' == '-') = false → c ≠ c' := by
    rintro c _ hc hlt hc' rfl
    rw [isIdentifierChar_ascii hlt, hc'] at hc
    cases hc
  unfold parsePrimary
  rcases hname with ⟨c, cs, rfl, hc, hcs⟩ | ⟨c, rfl, hc⟩
  · have hname : ∀ d ∈ c :: cs, alphabet.isNameChar d = true :=
      List.forall_mem_cons.mpr ⟨by rw [isNameChar, hc, Bool.true_or], hcs⟩
    obtain ⟨htake, hdrop⟩ := takeWhile_name hname hrest
    rw [List.cons_append] at htake hdrop ⊢
    dsimp only
    rw [if_neg (hne hc (by decide) (by decide)), if_neg (hne hc (by decide) (by decide)),
      if_pos hc, htake, hdrop]
  · rw [List.singleton_append]
    dsimp only
    have hidentifier : alphabet.isIdentifierChar c = false := isIdentifierChar_of_vim hc
    rw [if_neg (by rintro rfl; cases hc), if_neg (by rintro rfl; cases hc), hidentifier,
      if_neg Bool.false_ne_true, if_pos hc]

/-- What `parse` returns, if `parse_expr` takes the whole source with enough fuel. -/
theorem Parses.parse (hexpr : alphabet.Parses source 0 p []) (hsource : Starts source) :
    alphabet.parse source = .ok p := by
  obtain ⟨n, hn⟩ := hexpr
  have hfuel : alphabet.parseExpr (fuelOf source) source 0 = .ok (p, []) := by
    rw [← parseExpr_stable (le_max_right n (fuelOf source))]
    exact hn _ (le_max_left _ _)
  rw [Alphabet.parse, hsource.skipWhitespace]
  dsimp only
  rw [hfuel]
  rfl

/-! ### Operators in a text -/

theorem findOperator_text {operator : Operator} (h : minPrecedence ≤ operator.precedence) :
    findOperator (operator.text ++ rest) minPrecedence = some operator := by
  cases operator <;> simp_all [findOperator, Operator.all, Operator.text, Operator.precedence]

theorem findOperator_text_of_lt {operator : Operator} (h : operator.precedence < minPrecedence) :
    findOperator (operator.text ++ ' ' :: rest) minPrecedence = none := by
  have hfalse := decide_eq_false (Nat.not_le.mpr h)
  cases operator
  all_goals
    simp only [Operator.precedence] at hfalse
    simp [findOperator, Operator.all, Operator.text, Operator.precedence, hfalse]

theorem findOperator_not : findOperator source precedenceNot = none := by
  refine List.find?_eq_none.mpr fun operator _ hfound => ?_
  rw [Bool.and_eq_true, decide_eq_true_eq] at hfound
  exact absurd hfound.2 (by cases operator <;> decide)

theorem findOperator_paren : findOperator (')' :: rest) minPrecedence = none := by
  simp [findOperator, Operator.all, Operator.text]

theorem findOperator_mono {minPrecedence' : ℕ} (hle : minPrecedence ≤ minPrecedence')
    (h : findOperator source minPrecedence = none) : findOperator source minPrecedence' = none := by
  refine List.find?_eq_none.mpr fun operator hmem hfound => List.find?_eq_none.mp h operator hmem ?_
  rw [Bool.and_eq_true, decide_eq_true_eq] at hfound ⊢
  exact ⟨hfound.1, hle.trans hfound.2⟩

/-- An operator with a space on each side, as it is printed. -/
def spaced (operator : Operator) : List Char :=
  ' ' :: operator.text ++ [' ']

theorem skipWhitespace_spaced {operator : Operator} :
    skipWhitespace (spaced operator ++ rest) = operator.text ++ ' ' :: rest := by
  have hstarts : Starts (operator.text ++ ' ' :: rest) := starts_text operator
  rw [spaced, List.append_assoc]
  exact hstarts.skipWhitespace_space

theorem ends_spaced {operator : Operator} : alphabet.Ends (spaced operator ++ rest) :=
  ends_space

/-- The loop goes on behind an operator with the expression on its right side. -/
theorem Loops.spaced (operator : Operator) {right predicate' : KeyBindingContextPredicate}
    {rest' : List Char} (hle : minPrecedence ≤ operator.precedence) (hsource : Starts source)
    (hexpr : alphabet.Parses source (operator.precedence + 1) right rest')
    (hconstruct : operator.construct predicate right = .ok predicate')
    (hloop : alphabet.Loops predicate' rest' minPrecedence p rest) :
    alphabet.Loops predicate (skipWhitespace (spaced operator ++ source)) minPrecedence p rest := by
  rw [skipWhitespace_spaced]
  refine .next (findOperator_text hle) ?_ hconstruct hloop
  rw [List.drop_left, hsource.skipWhitespace_space]
  exact hexpr

/-! ### Printed predicates -/

/-- How tightly the text of a predicate is bound. -/
def level : KeyBindingContextPredicate → ℕ
  | .descendant _ _ => Operator.child.precedence
  | .or _ _ => Operator.or.precedence
  | .and _ _ => Operator.and.precedence
  | .equal _ _ => Operator.eq.precedence
  | .notEqual _ _ => Operator.neq.precedence
  | .identifier _ => precedenceNot
  | .not _ => precedenceNot

/-- The parser gets through the text of a predicate into the loop. -/
def Continues (alphabet : Alphabet) (p : KeyBindingContextPredicate) : Prop :=
  ∀ ⦃rest minPrecedence q rest'⦄, alphabet.Ends rest →
    findOperator (skipWhitespace rest) (level p + 1) = none → minPrecedence ≤ level p →
    alphabet.Loops (regroup p) (skipWhitespace rest) minPrecedence q rest' →
    alphabet.Parses (display p ++ rest) minPrecedence q rest'

/-- The parser gets through the first sides of an operator. -/
def Begins (alphabet : Alphabet) (operator : LogicalOperator) (p : KeyBindingContextPredicate) :
    Prop :=
  ∀ ⦃rest minPrecedence q rest'⦄, alphabet.Ends rest →
    findOperator (skipWhitespace rest) (operator.toOperator.precedence + 1) = none →
    minPrecedence ≤ operator.toOperator.precedence →
    alphabet.Loops (regroup p) (skipWhitespace rest) minPrecedence q rest' →
    alphabet.Parses (joined operator p ++ rest) minPrecedence q rest'

/-- The loop gets through sides of an operator that follow others. -/
def Extends (alphabet : Alphabet) (operator : LogicalOperator) (p : KeyBindingContextPredicate) :
    Prop :=
  ∀ ⦃acc rest minPrecedence q rest'⦄, alphabet.Ends rest →
    findOperator (skipWhitespace rest) (operator.toOperator.precedence + 1) = none →
    minPrecedence ≤ operator.toOperator.precedence →
    alphabet.Loops (joinTo operator acc (regroup p)) (skipWhitespace rest) minPrecedence q rest' →
    alphabet.Loops acc (skipWhitespace (spaced operator.toOperator ++ (joined operator p ++ rest)))
      minPrecedence q rest'

theorem starts_joined_side {operator : LogicalOperator} (hside : operator.sides p = none)
    (hp : Starts (display p)) : Starts (joined operator p) := by
  rw [joined_side hside]
  split
  · exact ⟨_, _, rfl, by decide⟩
  · exact hp

/-- The text of a predicate with valid names does not begin with white space. -/
theorem starts_display (hp : alphabet.Valid p) :
    Starts (display p) ∧ ∀ operator, Starts (joined operator p) := by
  have hjoin : ∀ {operator : LogicalOperator} {left right : KeyBindingContextPredicate},
      Starts (joined operator left) →
      Starts (display (operator.join left right)) ∧
        ∀ operator', Starts (joined operator' (operator.join left right)) := by
    intro operator left right hleft
    have hstarts : Starts (joined operator (operator.join left right)) := by
      rw [joined_join, List.append_assoc]
      exact hleft.append
    refine ⟨by rwa [display_join], fun operator' => ?_⟩
    by_cases heq : operator' = operator
    · rwa [heq]
    · refine starts_joined_side ?_ (by rwa [display_join])
      cases operator <;> cases operator' <;> first | rfl | exact absurd rfl heq
  have hside : ∀ {self : KeyBindingContextPredicate},
      (∀ operator, LogicalOperator.sides operator self = none) → Starts (display self) →
      Starts (display self) ∧ ∀ operator, Starts (joined operator self) :=
    fun h hstarts => ⟨hstarts, fun operator => starts_joined_side (h operator) hstarts⟩
  induction p with
  | identifier name =>
    refine hside (fun operator => by cases operator <;> rfl) ?_
    rw [display]
    exact ValidName.starts hp
  | equal left right =>
    refine hside (fun operator => by cases operator <;> rfl) ?_
    rw [display, List.append_assoc]
    exact (ValidName.starts hp.1).append
  | notEqual left right =>
    refine hside (fun operator => by cases operator <;> rfl) ?_
    rw [display, List.append_assoc]
    exact (ValidName.starts hp.1).append
  | descendant parent child ihparent ihchild =>
    refine hside (fun operator => by cases operator <;> rfl) ?_
    rw [display, List.append_assoc]
    exact (ihparent hp.1).1.append
  | not pred ih =>
    refine hside (fun operator => by cases operator <;> rfl) ?_
    by_cases hname : ∃ name, pred = .identifier name
    · obtain ⟨name, rfl⟩ := hname
      rw [display]
      exact ⟨_, _, rfl, by decide⟩
    · rw [display_not fun name hname' => hname ⟨name, hname'⟩]
      exact ⟨_, _, rfl, by decide⟩
  | and left right ihleft ihright => exact hjoin ((ihleft hp.1).2 .and)
  | or left right ihleft ihright => exact hjoin ((ihleft hp.1).2 .or)

theorem separator_eq (operator : LogicalOperator) :
    operator.separator = spaced operator.toOperator := by
  cases operator <;> rfl

/-- The parser gets through a text in parentheses. -/
theorem Continues.paren {rest rest' : List Char} (hp : alphabet.Continues p)
    (hstarts : Starts (display p))
    (hloop : alphabet.Loops (regroup p) (skipWhitespace rest) minPrecedence q rest') :
    alphabet.Parses (['('] ++ display p ++ [')'] ++ rest) minPrecedence q rest' := by
  have hexpr : alphabet.Parses (display p ++ ')' :: rest) 0 (regroup p) (')' :: rest) :=
    hp ends_paren findOperator_paren (Nat.zero_le _) (.stop findOperator_paren)
  refine Primary.parses ?_ hloop
  rw [List.append_assoc, List.append_assoc, List.singleton_append, List.singleton_append]
  refine .paren ?_
  rw [hstarts.append.skipWhitespace]
  exact hexpr

/-- A side of an operator that is not joined by it. -/
theorem Continues.side {operator : LogicalOperator} (hp : alphabet.Continues p)
    (hside : operator.sides p = none) (hdescendant : isDescendant p = false)
    (hstarts : Starts (display p)) {rest rest' : List Char} (hends : alphabet.Ends rest)
    (hrest : findOperator (skipWhitespace rest) (operator.toOperator.precedence + 1) = none)
    (hle : minPrecedence ≤ operator.toOperator.precedence + 1)
    (hloop : alphabet.Loops (regroup p) (skipWhitespace rest) minPrecedence q rest') :
    alphabet.Parses (joined operator p ++ rest) minPrecedence q rest' := by
  rw [joined_side hside]
  split
  · exact hp.paren hstarts hloop
  · have hlevel : operator.toOperator.precedence + 1 ≤ level p := by
      cases operator <;> cases p <;>
        simp_all [level, LogicalOperator.toOperator, Operator.precedence, precedenceNot,
          LogicalOperator.needsParens, LogicalOperator.sides, isDescendant]
    exact hp hends (findOperator_mono (by omega) hrest) (hle.trans hlevel) hloop

theorem construct_toOperator (operator : LogicalOperator)
    (left right : KeyBindingContextPredicate) :
    operator.toOperator.construct left right = .ok (operator.join left right) := by
  cases operator <;> rfl

theorem Continues.begins {operator : LogicalOperator} (hp : alphabet.Continues p)
    (hside : operator.sides p = none) (hdescendant : isDescendant p = false)
    (hstarts : Starts (display p)) : alphabet.Begins operator p :=
  fun _ _ _ _ hends hrest hle hloop =>
    hp.side hside hdescendant hstarts hends hrest (by omega) hloop

theorem Continues.extends {operator : LogicalOperator} (hp : alphabet.Continues p)
    (hside : operator.sides p = none) (hdescendant : isDescendant p = false)
    (hstarts : Starts (display p)) : alphabet.Extends operator p := by
  intro acc rest minPrecedence q rest' hends hrest hle hloop
  rw [joinTo_side (sides_regroup hside)] at hloop
  refine .spaced operator.toOperator hle (starts_joined_side hside hstarts).append ?_
    (construct_toOperator operator acc (regroup p)) hloop
  exact hp.side hside hdescendant hstarts hends hrest le_rfl (.stop hrest)

theorem Begins.join {operator : LogicalOperator} {left right : KeyBindingContextPredicate}
    (hleft : alphabet.Begins operator left) (hright : alphabet.Extends operator right) :
    alphabet.Begins operator (operator.join left right) := by
  intro rest minPrecedence q rest' hends hrest hle hloop
  rw [regroup_join] at hloop
  rw [joined_join, List.append_assoc, List.append_assoc, separator_eq]
  refine hleft ends_spaced ?_ hle (hright hends hrest hle hloop)
  rw [skipWhitespace_spaced]
  exact findOperator_text_of_lt (Nat.lt_succ_self _)

theorem Extends.join {operator : LogicalOperator} {left right : KeyBindingContextPredicate}
    (hleft : alphabet.Extends operator left) (hright : alphabet.Extends operator right) :
    alphabet.Extends operator (operator.join left right) := by
  intro acc rest minPrecedence q rest' hends hrest hle hloop
  rw [regroup_join, ← joinTo_assoc] at hloop
  rw [joined_join, List.append_assoc, List.append_assoc, separator_eq]
  refine hleft ends_spaced ?_ hle (hright hends hrest hle hloop)
  rw [skipWhitespace_spaced]
  exact findOperator_text_of_lt (Nat.lt_succ_self _)

theorem Begins.continues {operator : LogicalOperator} {left right : KeyBindingContextPredicate}
    (h : alphabet.Begins operator (operator.join left right)) :
    alphabet.Continues (operator.join left right) := by
  have hlevel : level (operator.join left right) = operator.toOperator.precedence := by
    cases operator <;> rfl
  intro rest minPrecedence q rest' hends hrest hle hloop
  rw [hlevel] at hrest hle
  rw [display_join]
  exact h hends hrest hle hloop

theorem continues_identifier {name : String} (hname : alphabet.ValidName name.toList) :
    alphabet.Continues (.identifier name) := by
  intro rest minPrecedence q rest' hends hrest hle hloop
  have hprimary := Primary.of_name hname hends
  rw [String.ofList_toList] at hprimary
  rw [display]
  exact hprimary.parses hloop

/-- Two names with an operator between them. -/
theorem parses_names (operator : Operator) {left right : String} {rest rest' : List Char}
    (hleft : alphabet.ValidName left.toList) (hright : alphabet.ValidName right.toList)
    (hconstruct : operator.construct (.identifier left) (.identifier right) = .ok p)
    (hends : alphabet.Ends rest)
    (hrest : findOperator (skipWhitespace rest) (operator.precedence + 1) = none)
    (hle : minPrecedence ≤ operator.precedence)
    (hloop : alphabet.Loops p (skipWhitespace rest) minPrecedence q rest') :
    alphabet.Parses (left.toList ++ spaced operator ++ right.toList ++ rest)
      minPrecedence q rest' := by
  have hspaced : alphabet.Ends (spaced operator ++ (right.toList ++ rest)) := ends_spaced
  have hprimary := Primary.of_name hleft hspaced
  rw [String.ofList_toList] at hprimary
  rw [List.append_assoc, List.append_assoc]
  refine hprimary.parses (.spaced operator hle hright.starts.append ?_ hconstruct hloop)
  have hprimary' := Primary.of_name hright hends
  rw [String.ofList_toList] at hprimary'
  exact hprimary'.parses (.stop hrest)

/-- A negation is a primary expression, with a name or something in parentheses. -/
theorem continues_not (hp : alphabet.Valid p) (hcontinues : alphabet.Continues p) :
    alphabet.Continues (.not p) := by
  intro rest minPrecedence q rest' hends hrest hle hloop
  by_cases hname : ∃ name, p = .identifier name
  · obtain ⟨name, rfl⟩ := hname
    have hstarts : Starts name.toList := ValidName.starts hp
    have hprimary := Primary.of_name hp hends
    rw [String.ofList_toList] at hprimary
    rw [display, List.cons_append]
    refine (Primary.not ?_).parses hloop
    rw [hstarts.append.skipWhitespace]
    exact hprimary.parses (.stop findOperator_not)
  · rw [display_not fun name hname' => hname ⟨name, hname'⟩]
    show alphabet.Parses ('!' :: (['('] ++ display p ++ [')'] ++ rest)) minPrecedence q rest'
    refine (Primary.not ?_).parses hloop
    have hparen : Starts (['('] ++ display p ++ [')'] ++ rest) := ⟨_, _, rfl, by decide⟩
    rw [hparen.skipWhitespace]
    exact hcontinues.paren (starts_display hp).1
      (.stop findOperator_not)

theorem continues_descendant {parent child : KeyBindingContextPredicate}
    (hparent : alphabet.Continues parent) (hchild : alphabet.Continues child)
    (hstarts : Starts (display child)) (hdescendant : isDescendant child = false) :
    alphabet.Continues (.descendant parent child) := by
  have hchildLevel : Operator.child.precedence + 1 ≤ level child := by
    cases child <;> first | (cases hdescendant; done) | exact Nat.le_of_ble_eq_true rfl
  have hparentLevel : Operator.child.precedence ≤ level parent := by
    cases parent <;> exact Nat.le_of_ble_eq_true rfl
  intro rest minPrecedence q rest' hends hrest hle hloop
  rw [display, List.append_assoc, List.append_assoc]
  show alphabet.Parses (display parent ++ (spaced .child ++ (display child ++ rest)))
    minPrecedence q rest'
  refine hparent ends_spaced ?_ (hle.trans hparentLevel)
    (.spaced .child hle hstarts.append ?_ rfl hloop)
  · rw [skipWhitespace_spaced]
    exact findOperator_text_of_lt (Nat.lt_succ_of_le hparentLevel)
  · exact hchild hends (findOperator_mono (hchildLevel.trans (Nat.le_succ _)) hrest)
      hchildLevel (.stop hrest)

/-- The parser gets through the text of a predicate whose `>`s need no parentheses. -/
theorem parses_display (hvalid : alphabet.Valid p) (hgrouped : p.Grouped = true) :
    alphabet.Continues p ∧ (isDescendant p = false → ∀ operator,
      alphabet.Begins operator p ∧ alphabet.Extends operator p) := by
  have hside : ∀ {self : KeyBindingContextPredicate}, alphabet.Valid self →
      (∀ operator, LogicalOperator.sides operator self = none) → alphabet.Continues self →
      alphabet.Continues self ∧ (isDescendant self = false → ∀ operator,
        alphabet.Begins operator self ∧ alphabet.Extends operator self) :=
    fun hvalid hside h => ⟨h, fun hdescendant operator =>
      ⟨h.begins (hside operator) hdescendant (starts_display hvalid).1,
        h.extends (hside operator) hdescendant (starts_display hvalid).1⟩⟩
  have hjoin : ∀ (operator : LogicalOperator) {left right : KeyBindingContextPredicate},
      alphabet.Valid (operator.join left right) → alphabet.Begins operator left →
      alphabet.Extends operator left → alphabet.Extends operator right →
      alphabet.Continues (operator.join left right) ∧
        (isDescendant (operator.join left right) = false → ∀ operator',
          alphabet.Begins operator' (operator.join left right) ∧
            alphabet.Extends operator' (operator.join left right)) := by
    intro operator left right hvalid hbegins hleft hright
    have hcontinues : alphabet.Continues (operator.join left right) :=
      (hbegins.join hright).continues
    refine ⟨hcontinues, fun hdescendant operator' => ?_⟩
    by_cases heq : operator' = operator
    · rw [heq]
      exact ⟨hbegins.join hright, hleft.join hright⟩
    · have hsides : operator'.sides (operator.join left right) = none := by
        cases operator <;> cases operator' <;> first | rfl | exact absurd rfl heq
      exact ⟨hcontinues.begins hsides hdescendant (starts_display hvalid).1,
        hcontinues.extends hsides hdescendant (starts_display hvalid).1⟩
  induction p with
  | identifier name =>
    exact hside hvalid (fun operator => by cases operator <;> rfl) (continues_identifier hvalid)
  | equal left right =>
    refine hside hvalid (fun operator => by cases operator <;> rfl) ?_
    intro rest minPrecedence q rest' hends hrest hle hloop
    rw [display]
    exact parses_names .eq hvalid.1 hvalid.2 rfl hends hrest hle hloop
  | notEqual left right =>
    refine hside hvalid (fun operator => by cases operator <;> rfl) ?_
    intro rest minPrecedence q rest' hends hrest hle hloop
    rw [display]
    exact parses_names .neq hvalid.1 hvalid.2 rfl hends hrest hle hloop
  | descendant parent child ihparent ihchild =>
    simp only [KeyBindingContextPredicate.Grouped, Bool.and_eq_true, Bool.not_eq_true'] at hgrouped
    obtain ⟨⟨hparent, hchild⟩, hdescendant⟩ := hgrouped
    exact hside hvalid (fun operator => by cases operator <;> rfl)
      (continues_descendant (ihparent hvalid.1 hparent).1 (ihchild hvalid.2 hchild).1
        (starts_display hvalid.2).1 hdescendant)
  | not pred ih =>
    exact hside hvalid (fun operator => by cases operator <;> rfl)
      (continues_not hvalid (ih hvalid hgrouped).1)
  | and left right ihleft ihright =>
    simp only [KeyBindingContextPredicate.Grouped, Bool.and_eq_true, Bool.not_eq_true'] at hgrouped
    obtain ⟨⟨⟨hleft, hright⟩, hleftSide⟩, hrightSide⟩ := hgrouped
    have hbegins := (ihleft hvalid.1 hleft).2 hleftSide .and
    exact hjoin .and hvalid hbegins.1 hbegins.2
      ((ihright hvalid.2 hright).2 hrightSide .and).2
  | or left right ihleft ihright =>
    simp only [KeyBindingContextPredicate.Grouped, Bool.and_eq_true, Bool.not_eq_true'] at hgrouped
    obtain ⟨⟨⟨hleft, hright⟩, hleftSide⟩, hrightSide⟩ := hgrouped
    have hbegins := (ihleft hvalid.1 hleft).2 hleftSide .or
    exact hjoin .or hvalid hbegins.1 hbegins.2
      ((ihright hvalid.2 hright).2 hrightSide .or).2

theorem parse_display_eq (hvalid : alphabet.Valid p) (hgrouped : p.Grouped = true) :
    alphabet.parse (display p) = .ok (regroup p) := by
  have hexpr : alphabet.Parses (display p ++ []) 0 (regroup p) (skipWhitespace []) :=
    (parses_display hvalid hgrouped).1 ends_nil rfl (Nat.zero_le _) (.stop rfl)
  rw [List.append_nil] at hexpr
  exact hexpr.parse (starts_display hvalid).1

/-- A predicate that is parsed, printed and parsed again keeps its meaning, if no `>` in it
stands where it needs parentheses. -/
theorem parse_display {source : List Char} {p : KeyBindingContextPredicate}
    (hparse : alphabet.parse source = .ok p) (hgrouped : p.Grouped = true) :
    ∃ q, alphabet.parse (display p) = .ok q ∧
      (∀ contexts, q.eval contexts = p.eval contexts) ∧
      ∀ contexts, q.depthOf contexts = p.depthOf contexts :=
  ⟨regroup p, parse_display_eq (parse_valid hparse) hgrouped, eval_regroup p, depthOf_regroup p⟩

theorem isAlphanum_toNat {c : Char} (h : c.isAlphanum = true) : 48 ≤ c.toNat ∧ c.toNat ≤ 122 := by
  have htoNat : c.toNat = c.val.toNat := rfl
  simp only [Char.isAlphanum, Char.isAlpha, Char.isUpper, Char.isLower, Char.isDigit,
    Bool.or_eq_true, Bool.and_eq_true, decide_eq_true_eq, ge_iff_le,
    UInt32.le_iff_toNat_le, ← htoNat] at h
  have hbounds : 'A'.val.toNat = 65 ∧ 'Z'.val.toNat = 90 ∧ 'a'.val.toNat = 97 ∧
      'z'.val.toNat = 122 ∧ '0'.val.toNat = 48 ∧ '9'.val.toNat = 57 := by decide
  omega

/-- The alphabet of ASCII. -/
def ofAscii : Alphabet where
  isAlphanumeric c := c.isAlphanum
  ascii _ _ := rfl
  not_whitespace c h := by
    obtain ⟨hle, hge⟩ := isAlphanum_toNat h
    simp only [isWhitespace, Bool.or_eq_false_iff, Bool.and_eq_false_iff, decide_eq_false_iff_not,
      beq_eq_false_iff_ne]
    omega

theorem parse_display_joined :
    ∃ q, ofAscii.parse (display (.and (.and (.identifier "a")
        (.or (.identifier "b") (.not (.identifier "c")))) (.identifier "d"))) = .ok q ∧
      (∀ contexts, q.eval contexts = eval (.and (.and (.identifier "a")
        (.or (.identifier "b") (.not (.identifier "c")))) (.identifier "d")) contexts) ∧
      ∀ contexts, q.depthOf contexts = depthOf (.and (.and (.identifier "a")
        (.or (.identifier "b") (.not (.identifier "c")))) (.identifier "d")) contexts := by
  have hparse : ofAscii.parse "a && (b || !c) && d".toList = .ok (.and (.and (.identifier "a")
      (.or (.identifier "b") (.not (.identifier "c")))) (.identifier "d")) := by
    decide +kernel
  exact parse_display hparse (by decide)

/-- `(a > b) || c` is printed as `a > b || c`, which is `a > (b || c)`. -/
theorem parse_display_regroups :
    ¬ ∀ (alphabet : Alphabet) (source : List Char) (p : KeyBindingContextPredicate),
      alphabet.parse source = .ok p → ∃ q, alphabet.parse (display p) = .ok q ∧
        (∀ contexts, q.eval contexts = p.eval contexts) ∧
        ∀ contexts, q.depthOf contexts = p.depthOf contexts := by
  intro h
  have hparse : ofAscii.parse "(a > b) || c".toList =
      .ok (.or (.descendant (.identifier "a") (.identifier "b")) (.identifier "c")) := by
    decide +kernel
  have hdisplay : display (.or (.descendant (.identifier "a") (.identifier "b"))
      (.identifier "c")) = "a > b || c".toList := by
    have hleft : joined .or (.descendant (.identifier "a") (.identifier "b")) = _ :=
      joined_side rfl
    have hright : joined .or (.identifier "c") = _ := joined_side rfl
    show display (LogicalOperator.or.join _ _) = _
    rw [display_join, joined_join, hleft, hright]
    simp [display, LogicalOperator.needsParens, LogicalOperator.separator]
  obtain ⟨q, hq, heval, -⟩ := h ofAscii _ _ hparse
  have hq' : ofAscii.parse "a > b || c".toList =
      .ok (.descendant (.identifier "a") (.or (.identifier "b") (.identifier "c"))) := by
    decide +kernel
  rw [hdisplay, hq'] at hq
  cases hq
  exact absurd (heval [⟨[⟨"c", none⟩]⟩]) (by decide)

end Alphabet

end Zui.Keys
