/-
Reading a key context.

`KeyContext::parse` takes identifiers and pairs off a text, one after the other.  It never returns
an error.  An identifier may be missing, on both sides of an equals sign too, and where neither an
identifier nor an equals sign is next, nothing is taken off the text, so that it calls itself with
the same text for ever.

Main statements:

* `parse_of_spells` — a text of identifiers and pairs is read as the first entry of each key;
* `returns_iff` — which texts `KeyContext::parse` comes back from;
* `reads_exactly_iff` — it is right about the texts of identifiers and pairs only.
-/
import Zui.Keys.RoundTrip

namespace Zui.Keys

namespace KeyContext

/-- What `add` and `set` do: an entry is pushed if its key is not there yet. -/
def insert (self : KeyContext) (entry : ContextEntry) : KeyContext :=
  if self.contains entry.key then self else ⟨self.entries ++ [entry]⟩

/-- `KeyContext::add`. -/
def add (self : KeyContext) (identifier : String) : KeyContext :=
  self.insert ⟨identifier, none⟩

/-- `KeyContext::set`. -/
def set (self : KeyContext) (key value : String) : KeyContext :=
  self.insert ⟨key, some value⟩

end KeyContext

namespace Alphabet

/-- `KeyContext::parse_expr`, for at most `fuel` calls. -/
def parseEntries (alphabet : Alphabet) (fuel : ℕ) (source : List Char) (context : KeyContext) :
    Except ParseError KeyContext :=
  match fuel with
  | 0 => .error .outOfFuel
  | fuel + 1 =>
    if source = [] then .ok context
    else
      let key := source.takeWhile alphabet.isIdentifierChar
      match skipWhitespace (source.dropWhile alphabet.isIdentifierChar) with
      | '=' :: suffix =>
        let source := skipWhitespace suffix
        let value := source.takeWhile alphabet.isIdentifierChar
        alphabet.parseEntries fuel
          (skipWhitespace (source.dropWhile alphabet.isIdentifierChar))
          (context.set (String.ofList key) (String.ofList value))
      | source => alphabet.parseEntries fuel source (context.add (String.ofList key))

/-- `KeyContext::parse`, for at most `fuel` calls of `parse_expr`. -/
def parseContext (alphabet : Alphabet) (fuel : ℕ) (source : List Char) :
    Except ParseError KeyContext :=
  alphabet.parseEntries fuel (skipWhitespace source) ⟨[]⟩

/-! ### What is asked of `KeyContext::parse` -/

/-- The text of an identifier. -/
def IsIdentifier (alphabet : Alphabet) (text : List Char) : Prop :=
  text ≠ [] ∧ ∀ c ∈ text, alphabet.isIdentifierChar c = true

/-- The text of an identifier, or of one that equals another one. -/
inductive SpellsEntry (alphabet : Alphabet) : ContextEntry → List Char → Prop
  | identifier {key : List Char} (hkey : alphabet.IsIdentifier key) :
      SpellsEntry alphabet ⟨String.ofList key, none⟩ key
  | pair {key value before behind : List Char} (hkey : alphabet.IsIdentifier key)
      (hbefore : ∀ c ∈ before, isWhitespace c = true)
      (hbehind : ∀ c ∈ behind, isWhitespace c = true) (hvalue : alphabet.IsIdentifier value) :
      SpellsEntry alphabet ⟨String.ofList key, some (String.ofList value)⟩
        (key ++ (before ++ '=' :: (behind ++ value)))

/-- The text of some entries, with white space between any two of them. -/
inductive Spells (alphabet : Alphabet) : List ContextEntry → List Char → Prop
  | blank {space : List Char} (hspace : ∀ c ∈ space, isWhitespace c = true) :
      Spells alphabet [] space
  | entry {entry : ContextEntry} {entries : List ContextEntry} {space text rest : List Char}
      (hspace : ∀ c ∈ space, isWhitespace c = true) (hentry : alphabet.SpellsEntry entry text)
      (hseparated : ∀ c ∈ rest.head?, isWhitespace c = true)
      (hrest : Spells alphabet entries rest) :
      Spells alphabet (entry :: entries) (space ++ (text ++ rest))

/-- The first entry of each key. -/
def firsts : List ContextEntry → List ContextEntry
  | [] => []
  | entry :: entries => entry :: (firsts entries).filter (·.key ≠ entry.key)

/-- `KeyContext::parse` comes back with a result. -/
def Returns (alphabet : Alphabet) (source : List Char) (result : Except ParseError KeyContext) :
    Prop :=
  result ≠ .error .outOfFuel ∧ ∃ fuel, alphabet.parseContext fuel source = result

/-- Entries give the context of the first entries of each key, and any other text is an error. -/
def ReadsExactly (alphabet : Alphabet) (source : List Char) : Prop :=
  (∃ entries, alphabet.Spells entries source ∧ alphabet.Returns source (.ok ⟨firsts entries⟩)) ∨
    ((¬ ∃ entries, alphabet.Spells entries source) ∧ ∃ error,
      alphabet.Returns source (.error error))

/-! ### One call -/

variable {alphabet : Alphabet} {fuel : ℕ} {source rest key value : List Char} {context : KeyContext}

theorem parseEntries_nil : alphabet.parseEntries (fuel + 1) [] context = .ok context := by
  rw [parseEntries, if_pos rfl]

theorem parseEntries_pair {suffix : List Char} (hne : source ≠ [])
    (hsuffix : skipWhitespace (source.dropWhile alphabet.isIdentifierChar) = '=' :: suffix) :
    alphabet.parseEntries (fuel + 1) source context = alphabet.parseEntries fuel
      (skipWhitespace ((skipWhitespace suffix).dropWhile alphabet.isIdentifierChar))
      (context.set (String.ofList (source.takeWhile alphabet.isIdentifierChar))
        (String.ofList ((skipWhitespace suffix).takeWhile alphabet.isIdentifierChar))) := by
  rw [parseEntries, if_neg hne, hsuffix]
  rfl

theorem parseEntries_identifier (hne : source ≠ [])
    (hrest : ∀ suffix, skipWhitespace (source.dropWhile alphabet.isIdentifierChar)
      ≠ '=' :: suffix) :
    alphabet.parseEntries (fuel + 1) source context = alphabet.parseEntries fuel
      (skipWhitespace (source.dropWhile alphabet.isIdentifierChar))
      (context.add (String.ofList (source.takeWhile alphabet.isIdentifierChar))) := by
  rw [parseEntries, if_neg hne]
  split
  · rename_i suffix hsuffix
    exact absurd hsuffix (hrest suffix)
  · rfl

/-! ### Entries -/

theorem contains_insert {entry : ContextEntry} {key : String} :
    (context.insert entry).contains key = (context.contains key || entry.key = key) := by
  rw [KeyContext.insert]
  split_ifs with hcontains
  · by_cases hkey : entry.key = key
    · rw [← hkey, hcontains]
      simp
    · simp [hkey]
  · simp [KeyContext.contains]

/-- Entries are inserted unless their keys are there, and only the first one of each key is. -/
theorem foldl_insert (entries : List ContextEntry) (context : KeyContext) :
    entries.foldl KeyContext.insert context
      = ⟨context.entries ++ (firsts entries).filter (!context.contains ·.key)⟩ := by
  induction entries generalizing context with
  | nil => simp [firsts]
  | cons entry entries ih =>
    rw [List.foldl_cons, ih, firsts, List.filter_cons, List.filter_filter]
    have hfilter : (firsts entries).filter (!(context.insert entry).contains ·.key)
        = (firsts entries).filter (fun other => !context.contains other.key &&
            decide (other.key ≠ entry.key)) := by
      refine List.filter_congr ?_
      intro other _
      rw [contains_insert]
      by_cases hkey : entry.key = other.key
      · simp [hkey]
      · simp [hkey, Ne.symm hkey]
    rw [hfilter, KeyContext.insert]
    cases hcontains : context.contains entry.key with
    | true => simp
    | false => simp

/-! ### Texts of entries -/

theorem not_isIdentifierChar_of_isWhitespace {c : Char} (h : isWhitespace c = true) :
    alphabet.isIdentifierChar c = false := by
  cases hc : alphabet.isIdentifierChar c with
  | false => rfl
  | true => rw [isWhitespace_of_isIdentifierChar hc] at h; cases h

theorem not_isIdentifierChar_equals : alphabet.isIdentifierChar '=' = false := by
  rw [isIdentifierChar_ascii (by decide)]
  decide

/-- An identifier is taken off a text that does not go on with one of its characters. -/
theorem IsIdentifier.span (h : alphabet.IsIdentifier key)
    (hrest : ∀ c ∈ rest.head?, alphabet.isIdentifierChar c = false) :
    (key ++ rest).takeWhile alphabet.isIdentifierChar = key ∧
      (key ++ rest).dropWhile alphabet.isIdentifierChar = rest := by
  have hstop : rest.takeWhile alphabet.isIdentifierChar = [] ∧
      rest.dropWhile alphabet.isIdentifierChar = rest := by
    cases rest with
    | nil => exact ⟨rfl, rfl⟩
    | cons c rest =>
      have hc := hrest c rfl
      exact ⟨List.takeWhile_cons_of_neg (by simp [hc]), List.dropWhile_cons_of_neg (by simp [hc])⟩
  rw [List.takeWhile_append_of_pos h.2, List.dropWhile_append_of_pos h.2, hstop.1, hstop.2,
    List.append_nil]
  exact ⟨rfl, rfl⟩

theorem skipWhitespace_append {space : List Char} (h : ∀ c ∈ space, isWhitespace c = true) :
    skipWhitespace (space ++ rest) = skipWhitespace rest :=
  List.dropWhile_append_of_pos h

theorem IsIdentifier.starts (h : alphabet.IsIdentifier key) : Starts (key ++ rest) := by
  obtain ⟨c, cs, rfl⟩ := List.exists_cons_of_ne_nil h.1
  exact ⟨c, cs ++ rest, rfl, isWhitespace_of_isIdentifierChar (h.2 c (by simp))⟩

theorem SpellsEntry.begins {entry : ContextEntry} {text : List Char}
    (h : alphabet.SpellsEntry entry text) :
    ∃ key tail, alphabet.IsIdentifier key ∧ text = key ++ tail := by
  cases h with
  | identifier hkey => exact ⟨_, [], hkey, (List.append_nil _).symm⟩
  | pair hkey _ _ _ => exact ⟨_, _, hkey, rfl⟩

/-- Behind white space, entries do not go on with an equals sign. -/
theorem Spells.skipWhitespace_ne {entries : List ContextEntry} (h : alphabet.Spells entries rest)
    (suffix : List Char) : skipWhitespace rest ≠ '=' :: suffix := by
  intro heq
  cases h with
  | blank hspace =>
    rw [← List.append_nil rest, skipWhitespace_append hspace] at heq
    cases heq
  | entry hspace hentry _ _ =>
    obtain ⟨key, tail, hkey, rfl⟩ := hentry.begins
    rw [skipWhitespace_append hspace, List.append_assoc, hkey.starts.skipWhitespace] at heq
    obtain ⟨c, cs, rfl⟩ := List.exists_cons_of_ne_nil hkey.1
    obtain ⟨rfl, -⟩ := List.cons.inj heq
    have hc := hkey.2 '=' (by simp)
    rw [not_isIdentifierChar_equals] at hc
    cases hc

theorem not_isIdentifierChar_head (h : ∀ c ∈ rest.head?, isWhitespace c = true) :
    ∀ c ∈ rest.head?, alphabet.isIdentifierChar c = false :=
  fun c hc => not_isIdentifierChar_of_isWhitespace (h c hc)

/-- One call takes one entry off a text. -/
theorem parseEntries_entry {entry : ContextEntry} {entries : List ContextEntry} {text : List Char}
    (hentry : alphabet.SpellsEntry entry text)
    (hseparated : ∀ c ∈ rest.head?, isWhitespace c = true) (hrest : alphabet.Spells entries rest) :
    alphabet.parseEntries (fuel + 1) (text ++ rest) context
      = alphabet.parseEntries fuel (skipWhitespace rest) (context.insert entry) := by
  cases hentry with
  | identifier hkey =>
    obtain ⟨htake, hdrop⟩ := hkey.span (not_isIdentifierChar_head hseparated)
    rw [parseEntries_identifier (by simp [hkey.1]), htake, hdrop]
    · rfl
    · rw [hdrop]
      exact hrest.skipWhitespace_ne
  | @pair key value before behind hkey hbefore hbehind hvalue =>
    have hequals : ∀ c ∈ (before ++ '=' :: (behind ++ (value ++ rest))).head?,
        alphabet.isIdentifierChar c = false := by
      intro c hc
      cases before with
      | nil =>
        obtain rfl := Option.some.inj hc
        exact not_isIdentifierChar_equals
      | cons d before =>
        obtain rfl := Option.some.inj hc
        exact not_isIdentifierChar_of_isWhitespace (hbefore d (by simp))
    obtain ⟨htake, hdrop⟩ := hkey.span hequals
    obtain ⟨htake', hdrop'⟩ := hvalue.span (not_isIdentifierChar_head hseparated)
    have htext : key ++ (before ++ '=' :: (behind ++ value)) ++ rest
        = key ++ (before ++ '=' :: (behind ++ (value ++ rest))) := by simp
    have hbehind' : skipWhitespace (behind ++ (value ++ rest)) = value ++ rest := by
      rw [skipWhitespace_append hbehind, hvalue.starts.skipWhitespace]
    have hsuffix : skipWhitespace (before ++ '=' :: (behind ++ (value ++ rest)))
        = '=' :: (behind ++ (value ++ rest)) := by
      rw [skipWhitespace_append hbefore]
      exact List.dropWhile_cons_of_neg (by decide)
    rw [htext, parseEntries_pair
      (by simp) (by rw [hdrop, hsuffix]), htake, hbehind', htake', hdrop']
    rfl

/-- **A text of entries** is read, each of them by one call. -/
theorem parseEntries_spells {entries : List ContextEntry} (h : alphabet.Spells entries source)
    (context : KeyContext) : alphabet.parseEntries (entries.length + 1) (skipWhitespace source)
      context = .ok (entries.foldl KeyContext.insert context) := by
  induction h generalizing context with
  | @blank space hspace =>
    rw [← List.append_nil space, skipWhitespace_append hspace]
    exact parseEntries_nil
  | @entry entry entries space text rest hspace hentry hseparated hrest ih =>
    obtain ⟨key, tail, hkey, htext⟩ := hentry.begins
    have hstarts : skipWhitespace (text ++ rest) = text ++ rest := by
      rw [htext, List.append_assoc, hkey.starts.skipWhitespace]
    rw [skipWhitespace_append hspace, hstarts, List.length_cons,
      parseEntries_entry hentry hseparated hrest, ih]
    rfl

theorem parse_of_spells {entries : List ContextEntry} (h : alphabet.Spells entries source) :
    alphabet.Returns source (.ok ⟨firsts entries⟩) := by
  refine ⟨by simp, entries.length + 1, ?_⟩
  rw [parseContext, parseEntries_spells h, foldl_insert]
  simp [KeyContext.contains]

/-! ### No error, and no end -/

theorem parseEntries_error {error : ParseError}
    (h : alphabet.parseEntries fuel source context = .error error) : error = .outOfFuel := by
  induction fuel generalizing source context with
  | zero => exact (Except.error.inj h).symm
  | succ fuel ih =>
    rw [parseEntries] at h
    split at h
    · cases h
    · dsimp only at h
      split at h
      · exact ih h
      · exact ih h

/-- The characters that a call may take off a text. -/
def IsLegal (alphabet : Alphabet) (c : Char) : Prop :=
  alphabet.isIdentifierChar c = true ∨ isWhitespace c = true ∨ c = '='

theorem mem_dropWhile_of_mem {p : Char → Bool} {c : Char} (h : c ∈ source) (hc : ¬ p c = true) :
    c ∈ source.dropWhile p := by
  rw [← List.takeWhile_append_dropWhile (p := p) (l := source), List.mem_append] at h
  rcases h with h | h
  · exact absurd (List.mem_takeWhile_imp h) hc
  · exact h

/-- An illegal character stays in the text, which is never empty. -/
theorem parseEntries_illegal {c : Char} (hmem : c ∈ source) (hc : ¬ alphabet.IsLegal c) :
    alphabet.parseEntries fuel source context = .error .outOfFuel := by
  obtain ⟨hidentifier, hwhitespace, hequals⟩ : ¬ alphabet.isIdentifierChar c = true ∧
      ¬ isWhitespace c = true ∧ c ≠ '=' := by
    simpa [IsLegal] using hc
  induction fuel generalizing source context with
  | zero => rfl
  | succ fuel ih =>
    have hrest : c ∈ skipWhitespace (source.dropWhile alphabet.isIdentifierChar) :=
      mem_dropWhile_of_mem (mem_dropWhile_of_mem hmem hidentifier) hwhitespace
    rw [parseEntries, if_neg (List.ne_nil_of_mem hmem)]
    dsimp only
    split
    · rename_i suffix hsuffix
      rw [hsuffix] at hrest
      have hmem' : c ∈ suffix := (List.mem_cons.mp hrest).resolve_left hequals
      exact ih (mem_dropWhile_of_mem
        (mem_dropWhile_of_mem (mem_dropWhile_of_mem hmem' hwhitespace) hidentifier) hwhitespace)
    · exact ih hrest

theorem skipWhitespace_head (source : List Char) :
    ∀ c ∈ (skipWhitespace source).head?, isWhitespace c = false := by
  intro c hc
  have hnot := List.head?_dropWhile_not isWhitespace source
  rw [skipWhitespace] at hc
  rw [Option.mem_def.mp hc] at hnot
  simpa using hnot

/-- A text of legal characters gets shorter with each call. -/
theorem parseEntries_legal (hlegal : ∀ c ∈ source, alphabet.IsLegal c)
    (hhead : ∀ c ∈ source.head?, isWhitespace c = false) (hfuel : source.length < fuel) :
    ∃ result, alphabet.parseEntries fuel source context = .ok result := by
  induction fuel generalizing source context with
  | zero => omega
  | succ fuel ih =>
    by_cases hne : source = []
    · subst hne
      exact ⟨_, parseEntries_nil⟩
    have hdrop : (source.dropWhile alphabet.isIdentifierChar).Sublist source :=
      List.dropWhile_sublist _
    have hskip : (skipWhitespace (source.dropWhile alphabet.isIdentifierChar)).Sublist source :=
      (List.dropWhile_sublist _).trans hdrop
    by_cases hsuffix : ∃ suffix, skipWhitespace (source.dropWhile alphabet.isIdentifierChar)
        = '=' :: suffix
    · obtain ⟨suffix, hsuffix⟩ := hsuffix
      rw [parseEntries_pair hne hsuffix]
      rw [hsuffix] at hskip
      have hrest : (skipWhitespace ((skipWhitespace suffix).dropWhile
          alphabet.isIdentifierChar)).Sublist suffix :=
        (List.dropWhile_sublist _).trans
          ((List.dropWhile_sublist _).trans (List.dropWhile_sublist _))
      have hlength := hskip.length_le
      have hlength' := hrest.length_le
      rw [List.length_cons] at hlength
      refine ih ?_ (skipWhitespace_head _) (by omega)
      intro c hc
      exact hlegal c (hskip.subset (List.mem_cons_of_mem _ (hrest.subset hc)))
    · have hsuffix' : ∀ suffix, skipWhitespace (source.dropWhile alphabet.isIdentifierChar)
          ≠ '=' :: suffix := fun suffix heq => hsuffix ⟨suffix, heq⟩
      rw [parseEntries_identifier hne hsuffix']
      refine ih (fun c hc => hlegal c (hskip.subset hc)) (skipWhitespace_head _) ?_
      -- the text starts with an identifier, since it does not start with an equals sign
      obtain ⟨c, cs, rfl⟩ := List.exists_cons_of_ne_nil hne
      have hc : alphabet.isIdentifierChar c = true := by
        rcases hlegal c (by simp) with h | h | rfl
        · exact h
        · rw [hhead c rfl] at h
          cases h
        · refine absurd ?_ (hsuffix' cs)
          rw [List.dropWhile_cons_of_neg (by simp [not_isIdentifierChar_equals])]
          exact List.dropWhile_cons_of_neg (by decide)
      have hlength : (skipWhitespace ((c :: cs).dropWhile alphabet.isIdentifierChar)).length
          ≤ cs.length := by
        rw [List.dropWhile_cons_of_pos hc]
        exact ((List.dropWhile_sublist _).trans (List.dropWhile_sublist _)).length_le
      rw [List.length_cons] at hfuel
      omega

/-- **Which texts `KeyContext::parse` comes back from.** -/
theorem returns_iff : (∃ result, alphabet.Returns source result) ↔
    ∀ c ∈ source, alphabet.IsLegal c := by
  constructor
  · rintro ⟨result, hresult, fuel, rfl⟩ c hc
    by_contra hillegal
    have hwhitespace : ¬ isWhitespace c = true := fun h => hillegal (.inr (.inl h))
    exact hresult (parseEntries_illegal (mem_dropWhile_of_mem hc hwhitespace) hillegal)
  · intro hlegal
    have hskip : (skipWhitespace source).Sublist source := List.dropWhile_sublist _
    obtain ⟨result, hresult⟩ := parseEntries_legal (fun c hc => hlegal c (hskip.subset hc))
      (skipWhitespace_head source) (Nat.lt_succ_self _)
    exact ⟨.ok result, by simp, _, hresult⟩

/-- **When `KeyContext::parse` is right**: for the texts of entries, and for no others. -/
theorem reads_exactly_iff (alphabet : Alphabet) (source : List Char) :
    alphabet.ReadsExactly source ↔ ∃ entries, alphabet.Spells entries source := by
  constructor
  · rintro (⟨entries, hspells, -⟩ | ⟨-, error, hfuel, fuel, herror⟩)
    · exact ⟨entries, hspells⟩
    · exact absurd (congrArg Except.error (parseEntries_error herror)) hfuel
  · rintro ⟨entries, hspells⟩
    exact .inl ⟨entries, hspells, parse_of_spells hspells⟩

/-- A text that `KeyContext::parse` does not come back from, and one that it should refuse. -/
theorem not_reads_exactly : ¬ ofAscii.ReadsExactly ['!'] ∧ ¬ ofAscii.ReadsExactly ['=', 'x'] := by
  constructor
  · have hnot : ¬ ∃ result, ofAscii.Returns ['!'] result := by
      rw [returns_iff]
      intro hlegal
      rcases hlegal '!' (by simp) with h | h | h
      · exact absurd h (by decide)
      · exact absurd h (by decide)
      · exact absurd h (by decide)
    rintro (⟨entries, -, hreturns⟩ | ⟨-, error, hreturns⟩)
    · exact hnot ⟨_, hreturns⟩
    · exact hnot ⟨_, hreturns⟩
  · rintro (⟨entries, hspells, -⟩ | ⟨-, error, hfuel, fuel, herror⟩)
    · exact hspells.skipWhitespace_ne ['x'] (by decide)
    · exact absurd (congrArg Except.error (parseEntries_error herror)) hfuel

end Alphabet

end Zui.Keys
