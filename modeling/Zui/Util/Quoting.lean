/-
Quoting for Windows.

`quoteWindows` writes an argument so that the C runtime reads it back, and `quoteCmd` writes
that once more for cmd.exe.  What the readers do is modelled from their documented rules:
`Argv` is the C runtime, a pass over the command line with the backslashes that were not yet
decided about, and `readPercents` and `removeCarets` are cmd.exe.

* `escapeFrom_replicate` — the loop of `quoteWindows` in terms of pending backslashes;
* `run_escape` — between quotes the C runtime undoes that loop;
* `windows_quoting` — an argument list survives both readers.
-/
import Mathlib.Data.List.Basic
import Zui.Path.Basic

namespace Zui.Util

open Zui.Path (Text)

/-! ### Writing -/

/-- The inner loop of `quote_windows`: the number of backslashes in front, and the rest. -/
def backslashes : Text → ℕ × Text
  | [] => (0, [])
  | c :: chars =>
    if c = '\\' then ((backslashes chars).1 + 1, (backslashes chars).2) else (0, c :: chars)

theorem length_backslashes (chars : Text) : (backslashes chars).2.length ≤ chars.length := by
  induction chars with
  | nil => exact le_rfl
  | cons c chars ih =>
    rw [backslashes]
    split_ifs
    · exact ih.trans (Nat.le_succ _)
    · exact le_rfl

/-- The outer loop of `quote_windows`. -/
def escape : Text → Text
  | [] => []
  | c :: chars =>
    if c = '\\' then
      let numBackslashes := (backslashes chars).1 + 1
      match h : (backslashes chars).2 with
      | [] => List.replicate (numBackslashes * 2) '\\'
      | d :: rest =>
        if d = '"' then List.replicate (numBackslashes * 2 + 1) '\\' ++ '"' :: escape rest
        else List.replicate numBackslashes '\\' ++ escape (d :: rest)
    else if c = '"' then '\\' :: '"' :: escape chars
    else c :: escape chars
termination_by chars => chars.length
decreasing_by
  · have hle := length_backslashes chars
    simp only [List.length_cons, h] at hle ⊢
    omega
  · have hle := length_backslashes chars
    simp only [List.length_cons, h] at hle ⊢
    omega
  · exact Nat.lt_succ_self _
  · exact Nat.lt_succ_self _

/-- `quote_windows`. -/
def quoteWindows (arg : Text) (enclose : Bool) : Text :=
  if arg = [] then ['"', '"']
  else if ¬ arg.any fun c => c = ' ' ∨ c = '\t' ∨ c = '"' then arg
  else
    (if enclose then ['"'] else []) ++ escape arg ++ (if enclose then ['"'] else [])

/-- What `quote_cmd` writes for a character. -/
def cmdEscape (c : Char) : Text :=
  if c ∈ ['^', '"', '<', '>', '&', '|', '(', ')'] then ['^', c]
  else if c = '%' then ['%', '%', 'c', 'd', ':', '~', ',', '%']
  else [c]

/-- `quote_cmd`. -/
def quoteCmd (arg : Text) : Text :=
  let crtQuoted := quoteWindows arg true
  if ¬ crtQuoted.any fun c => c ∈ ['"', '%', '^', '<', '>', '&', '|', '(', ')'] then crtQuoted
  else crtQuoted.flatMap cmdEscape

/-! ### Reading -/

/-- The C runtime on its way through a command line: the arguments so far, the one that it is
in, whether it is between quotes, and the backslashes that it has not decided about. -/
structure Argv where
  args : List Text
  arg : Option Text
  quoted : Bool
  pending : ℕ

namespace Argv

/-- The argument so far if the backslashes stand for themselves. -/
def text (self : Argv) : Text :=
  self.arg.getD [] ++ List.replicate self.pending '\\'

/-- The arguments, up to where an argument ends. -/
def finish (self : Argv) : List Text :=
  if self.arg.isSome ∨ 0 < self.pending then self.args ++ [self.text] else self.args

/-- The C runtime reads a character. -/
def next (self : Argv) (c : Char) : Argv :=
  if c = '\\' then { self with pending := self.pending + 1 }
  else if c = '"' then
    let text := self.arg.getD [] ++ List.replicate (self.pending / 2) '\\'
    if self.pending % 2 = 0 then
      { self with arg := some text, quoted := !self.quoted, pending := 0 }
    else { self with arg := some (text ++ ['"']), pending := 0 }
  else if (c = ' ' ∨ c = '\t') ∧ self.quoted = false then
    { args := self.finish, arg := none, quoted := false, pending := 0 }
  else { self with arg := some (self.text ++ [c]), pending := 0 }

end Argv

/-- The arguments that the C runtime reads. -/
def argv (commandLine : Text) : List Text :=
  (commandLine.foldl Argv.next ⟨[], none, false, 0⟩).finish

/-- cmd.exe reads `%%cd:~,%` as a percent sign. -/
def readPercents : Text → Text
  | [] => []
  | c :: text =>
    if ['%', '%', 'c', 'd', ':', '~', ',', '%'].isPrefixOf (c :: text) then
      '%' :: readPercents (text.drop 7)
    else c :: readPercents text
termination_by text => text.length
decreasing_by
  · rw [List.length_cons, List.length_drop]
    omega
  · exact Nat.lt_succ_self _

/-- cmd.exe takes the character behind a caret as it is. -/
def removeCarets : Text → Text
  | [] => []
  | [c] => if c = '^' then [] else [c]
  | c :: d :: text => if c = '^' then d :: removeCarets text else c :: removeCarets (d :: text)

/-- The text has a quote without a caret, at which cmd.exe starts a quoted region. -/
def opensQuote : Text → Bool
  | [] => false
  | [c] => c = '"'
  | c :: d :: text =>
    if c = '^' then opensQuote text else c = '"' || opensQuote (d :: text)

example : argv ['a', ' ', '"', 'b', ' ', '\\', '\\', '"', ' ', '\\', '"'] =
    [['a'], ['b', ' ', '\\'], ['"']] := by decide

/-! ### The loop of `quote_windows` -/

section Escape

variable {n : ℕ} {c : Char} {chars : Text}

theorem backslashes_replicate (h : chars.head? ≠ some '\\') :
    backslashes (List.replicate n '\\' ++ chars) = (n, chars) := by
  induction n with
  | zero =>
    cases chars with
    | nil => rfl
    | cons c chars => exact if_neg fun hc => h (congrArg some hc)
  | succ n ih =>
    rw [List.replicate_succ, List.cons_append, backslashes, if_pos rfl, ih]

/-- What the loop makes of backslashes depends on what comes behind them. -/
def escapeBehind (n : ℕ) : Text → Text
  | [] => List.replicate (n * 2) '\\'
  | c :: chars =>
    if c = '"' then List.replicate (n * 2 + 1) '\\' ++ '"' :: escape chars
    else List.replicate n '\\' ++ c :: escape chars

theorem escape_cons (hc : c ≠ '\\') (hquote : c ≠ '"') :
    escape (c :: chars) = c :: escape chars := by
  rw [escape, if_neg hc, if_neg hquote]

theorem escape_replicate (h : chars.head? ≠ some '\\') :
    escape (List.replicate n '\\' ++ chars) = escapeBehind n chars := by
  cases n with
  | zero =>
    cases chars with
    | nil => simp [escape, escapeBehind]
    | cons c chars =>
      have hc : c ≠ '\\' := fun hc => h (congrArg some hc)
      by_cases hquote : c = '"'
      · simp [hquote, escape, escapeBehind]
      · simp [hquote, escape_cons hc hquote, escapeBehind]
  | succ n =>
    have hfront := @backslashes_replicate n chars h
    rw [List.replicate_succ, List.cons_append, escape, if_pos rfl]
    simp only
    split
    · rename_i hrest
      rw [hfront] at hrest ⊢
      obtain rfl : chars = [] := hrest
      rfl
    · rename_i d rest hrest
      rw [hfront] at hrest ⊢
      obtain rfl : chars = d :: rest := hrest
      have hd : d ≠ '\\' := fun hd => h (congrArg some hd)
      by_cases hquote : d = '"'
      · simp [hquote, escapeBehind]
      · simp [hquote, escape_cons hd hquote, escapeBehind]

end Escape

/-! ### The C runtime -/

namespace Argv

variable {self : Argv} {n : ℕ} {c : Char}

theorem foldl_backslashes :
    (List.replicate n '\\').foldl next self = { self with pending := self.pending + n } := by
  induction n generalizing self with
  | zero => rfl
  | succ n ih =>
    have hnext : self.next '\\' = { self with pending := self.pending + 1 } := if_pos rfl
    rw [List.replicate_succ, List.foldl_cons, hnext, ih, Nat.add_comm n 1, ← Nat.add_assoc]

theorem next_other (hc : c ≠ '\\') (hquote : c ≠ '"')
    (hblank : (c ≠ ' ' ∧ c ≠ '\t') ∨ self.quoted = true) :
    self.next c = ⟨self.args, some (self.text ++ [c]), self.quoted, 0⟩ := by
  rw [next, if_neg hc, if_neg hquote, if_neg]
  rintro ⟨hspace, hopen⟩
  rcases hblank with ⟨hne, hne'⟩ | hquoted
  · exact hspace.elim hne hne'
  · exact Bool.false_ne_true (hopen.symm.trans hquoted)

theorem next_space (hopen : self.quoted = false) :
    self.next ' ' = ⟨self.finish, none, false, 0⟩ := by
  rw [next, if_neg (by decide), if_neg (by decide), if_pos ⟨.inl rfl, hopen⟩]

theorem foldl_quote {args : List Text} {arg : Option Text} {quoted : Bool} :
    (List.replicate (n * 2) '\\' ++ ['"']).foldl next ⟨args, arg, quoted, 0⟩ =
      ⟨args, some (arg.getD [] ++ List.replicate n '\\'), !quoted, 0⟩ := by
  rw [List.foldl_append, foldl_backslashes, List.foldl_cons, List.foldl_nil, next,
    if_neg (by decide), if_pos rfl]
  simp

theorem foldl_literal {args : List Text} {arg : Option Text} {quoted : Bool} :
    (List.replicate (n * 2 + 1) '\\' ++ ['"']).foldl next ⟨args, arg, quoted, 0⟩ =
      ⟨args, some (arg.getD [] ++ List.replicate n '\\' ++ ['"']), quoted, 0⟩ := by
  rw [List.foldl_append, foldl_backslashes, List.foldl_cons, List.foldl_nil, next,
    if_neg (by decide), if_pos rfl]
  have hodd : (0 + (n * 2 + 1)) % 2 ≠ 0 := by omega
  have hhalf : (0 + (n * 2 + 1)) / 2 = n := by omega
  simp only [hodd, hhalf, if_false]

/-- Between quotes the C runtime undoes the loop, and the closing quote ends the region. -/
theorem foldl_escape (args : List Text) (chars : Text) : ∀ (n : ℕ) (text : Text),
    (escape (List.replicate n '\\' ++ chars) ++ ['"']).foldl next ⟨args, some text, true, 0⟩ =
      ⟨args, some (text ++ List.replicate n '\\' ++ chars), false, 0⟩ := by
  induction chars with
  | nil =>
    intro n text
    rw [escape_replicate (by simp), escapeBehind, foldl_quote]
    simp
  | cons c chars ih =>
    intro n text
    by_cases hc : c = '\\'
    · -- One more backslash that the loop has not written yet.
      subst hc
      have hmore : ∀ front : Text, front ++ List.replicate n '\\' ++ '\\' :: chars =
          front ++ List.replicate (n + 1) '\\' ++ chars := by
        intro front
        simp [List.replicate_succ']
      have hshift := ih (n + 1) text
      rwa [← hmore, ← List.nil_append (List.replicate (n + 1) '\\'), ← hmore] at hshift
    · have hhead : (c :: chars).head? ≠ some '\\' := fun hhead => hc (Option.some.inj hhead)
      rw [escape_replicate hhead, escapeBehind]
      by_cases hquote : c = '"'
      · rw [if_pos hquote, hquote, List.append_cons (List.replicate (n * 2 + 1) '\\'),
          List.append_assoc, List.foldl_append, foldl_literal]
        simpa using ih 0 (text ++ List.replicate n '\\' ++ ['"'])
      · rw [if_neg hquote, List.append_assoc, List.foldl_append, foldl_backslashes,
          List.cons_append, List.foldl_cons, next_other hc hquote (.inr rfl)]
        simpa [Argv.text] using ih 0 (text ++ List.replicate n '\\' ++ [c])

end Argv

/-! ### Arguments -/

/-- The C runtime has read an argument, up to where it ends. -/
structure HasRead (args : List Text) (arg : Text) (state : Argv) : Prop where
  args : state.args = args
  text : state.text = arg
  opened : state.arg.isSome ∨ 0 < state.pending
  unquoted : state.quoted = false

theorem HasRead.finish {args : List Text} {arg : Text} {state : Argv}
    (h : HasRead args arg state) : state.finish = args ++ [arg] := by
  rw [Argv.finish, if_pos h.opened, h.args, h.text]

theorem foldl_plain (args : List Text) (arg : Text)
    (hplain : ∀ c ∈ arg, c ≠ ' ' ∧ c ≠ '\t' ∧ c ≠ '"') : ∀ (text : Text) (state : Argv),
    state.args = args → state.text = text → state.quoted = false →
    (state.arg.isSome ∨ 0 < state.pending ∨ arg ≠ []) →
    HasRead args (text ++ arg) (arg.foldl Argv.next state) := by
  induction arg with
  | nil =>
    intro text state hargs htext hopen hsome
    rw [List.append_nil]
    exact ⟨hargs, htext, hsome.imp_right fun h => h.resolve_right fun hne => hne rfl, hopen⟩
  | cons c arg ih =>
    intro text state hargs htext hopen _
    obtain ⟨⟨hspace, htab, hquote⟩, hplain⟩ := List.forall_mem_cons.mp hplain
    rw [List.foldl_cons, List.append_cons]
    by_cases hc : c = '\\'
    · have hnext : state.next c = { state with pending := state.pending + 1 } := if_pos hc
      rw [hnext]
      refine ih hplain _ _ hargs ?_ hopen (.inr (.inl (Nat.succ_pos _)))
      rw [← htext, hc, Argv.text, Argv.text, List.append_assoc, List.replicate_succ']
    · rw [Argv.next_other hc hquote (.inl ⟨hspace, htab⟩)]
      exact ih hplain _ _ hargs (by simp [Argv.text, ← htext]) hopen (.inl rfl)

theorem hasRead_quoteWindows (args : List Text) (arg : Text) :
    HasRead args arg ((quoteWindows arg true).foldl Argv.next ⟨args, none, false, 0⟩) := by
  have hopening : Argv.next ⟨args, none, false, 0⟩ '"' = ⟨args, some [], true, 0⟩ := by
    simp [Argv.next]
  have hclosing : Argv.next ⟨args, some [], true, 0⟩ '"' = ⟨args, some [], false, 0⟩ := by
    simp [Argv.next]
  rw [quoteWindows]
  by_cases hnil : arg = []
  · rw [if_pos hnil, hnil, List.foldl_cons, List.foldl_cons, List.foldl_nil, hopening, hclosing]
    exact ⟨rfl, rfl, .inl rfl, rfl⟩
  rw [if_neg hnil]
  by_cases hquoted : arg.any (fun c => c = ' ' ∨ c = '\t' ∨ c = '"') = true
  · rw [if_neg (not_not.mpr hquoted), if_pos rfl, List.append_assoc, List.singleton_append,
      List.foldl_cons, hopening]
    have hread := Argv.foldl_escape args arg 0 []
    rw [List.replicate_zero, List.nil_append] at hread
    rw [hread]
    exact ⟨rfl, by simp [Argv.text], .inl rfl, rfl⟩
  · rw [if_pos hquoted]
    refine foldl_plain args arg (fun c hc => ?_) [] ⟨args, none, false, 0⟩ rfl rfl rfl
      (.inr (.inr hnil))
    rw [Bool.not_eq_true, List.any_eq_false] at hquoted
    simpa using hquoted c hc

/-- The C runtime splits a command line into the arguments it was joined from. -/
theorem argv_intercalate (args : List Text) :
    argv ([' '].intercalate (args.map fun arg => quoteWindows arg true)) = args := by
  have hrest : ∀ (args done : List Text), args ≠ [] →
      (([' '].intercalate (args.map fun arg => quoteWindows arg true)).foldl Argv.next
        ⟨done, none, false, 0⟩).finish = done ++ args := by
    intro args
    induction args with
    | nil => exact fun _ hne => absurd rfl hne
    | cons arg args ih =>
      intro done _
      have hread := hasRead_quoteWindows done arg
      by_cases hnil : args = []
      · rw [hnil, List.map_singleton, List.intercalate_singleton, hread.finish]
      · rw [List.map_cons, List.intercalate_cons_of_ne_nil (by simpa using hnil),
          List.append_assoc, List.foldl_append, List.singleton_append, List.foldl_cons,
          Argv.next_space hread.unquoted, hread.finish, ih _ hnil, List.append_assoc,
          List.singleton_append]
  by_cases hnil : args = []
  · rw [hnil]
    rfl
  · exact hrest args [] hnil

/-! ### cmd.exe -/

/-- What cmd.exe sees for a character once the percent signs are read. -/
def caretEscape (c : Char) : Text :=
  if c ∈ ['^', '"', '<', '>', '&', '|', '(', ')'] then ['^', c] else [c]

theorem quoteCmd_eq (arg : Text) : quoteCmd arg = (quoteWindows arg true).flatMap cmdEscape := by
  rw [quoteCmd]
  split_ifs with hspecial
  · rfl
  · rw [Bool.not_eq_true, List.any_eq_false] at hspecial
    refine (List.flatMap_singleton' _).symm.trans (List.flatMap_congr fun c hc => ?_)
    have hc := hspecial c hc
    simp only [List.mem_cons, List.not_mem_nil, or_false, decide_eq_true_eq, not_or] at hc
    simp [cmdEscape, hc]

theorem readPercents_cons {c : Char} {text : Text} (h : c ≠ '%') :
    readPercents (c :: text) = c :: readPercents text := by
  rw [readPercents, if_neg]
  intro hstart
  rw [List.isPrefixOf_iff_prefix, List.cons_prefix_cons] at hstart
  exact h hstart.1.symm

theorem readPercents_flatMap (text : Text) :
    readPercents (text.flatMap cmdEscape) = text.flatMap caretEscape := by
  induction text with
  | nil => exact readPercents.eq_1
  | cons c text ih =>
    rw [List.flatMap_cons, List.flatMap_cons, cmdEscape, caretEscape]
    split_ifs with hcaret hpercent
    · have hc : c ≠ '%' := by
        rintro rfl
        exact absurd hcaret (by decide)
      rw [List.cons_append, List.cons_append, readPercents_cons (by decide), readPercents_cons hc,
        List.nil_append, ih]
      rfl
    · rw [List.cons_append, readPercents, if_pos, hpercent]
      · exact congrArg _ ih
      · rw [List.isPrefixOf_iff_prefix]
        exact List.prefix_append _ _
    · rw [List.singleton_append, readPercents_cons hpercent, ih]
      rfl

theorem removeCarets_cons {c : Char} {text : Text} (h : c ≠ '^') :
    removeCarets (c :: text) = c :: removeCarets text := by
  cases text with
  | nil => exact if_neg h
  | cons d text => exact if_neg h

theorem removeCarets_flatMap (text : Text) : removeCarets (text.flatMap caretEscape) = text := by
  induction text with
  | nil => rfl
  | cons c text ih =>
    rw [List.flatMap_cons, caretEscape]
    split_ifs with hcaret
    · show c :: removeCarets (text.flatMap caretEscape) = c :: text
      rw [ih]
    · have hc : c ≠ '^' := by
        rintro rfl
        exact hcaret (by decide)
      rw [List.singleton_append, removeCarets_cons hc, ih]

theorem opensQuote_cons {c : Char} {text : Text} (h : c ≠ '^') (hquote : c ≠ '"') :
    opensQuote (c :: text) = opensQuote text := by
  cases text with
  | nil => exact decide_eq_false hquote
  | cons d text =>
    rw [opensQuote, if_neg h, decide_eq_false hquote, Bool.false_or]

theorem opensQuote_flatMap (text : Text) : opensQuote (text.flatMap cmdEscape) = false := by
  induction text with
  | nil => rfl
  | cons c text ih =>
    rw [List.flatMap_cons, cmdEscape]
    split_ifs with hcaret hpercent
    · exact ih
    · simpa only [List.cons_append, List.nil_append, opensQuote_cons, ne_eq, Char.reduceEq,
        not_false_eq_true] using ih
    · have hc : c ≠ '^' ∧ c ≠ '"' := by
        refine ⟨?_, ?_⟩ <;> rintro rfl <;> exact hcaret (by decide)
      rw [List.singleton_append, opensQuote_cons hc.1 hc.2, ih]

/-- **Quoting for Windows.**  The C runtime reads back any list of arguments, and cmd.exe hands
what was quoted for it on as it is, without starting a quoted region. -/
theorem windows_quoting (args : List Text) (arg : Text) :
    argv ([' '].intercalate (args.map fun arg => quoteWindows arg true)) = args ∧
      removeCarets (readPercents (quoteCmd arg)) = quoteWindows arg true ∧
      opensQuote (quoteCmd arg) = false := by
  refine ⟨argv_intercalate args, ?_, ?_⟩
  · rw [quoteCmd_eq, readPercents_flatMap, removeCarets_flatMap]
  · rw [quoteCmd_eq, opensQuote_flatMap]

end Zui.Util
