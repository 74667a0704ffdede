/-
Natural sorting.

`naturalSort` compares two strings piece by piece: runs of digits as numbers, and other
characters without regard to case.  Its loop is the lexicographic comparison of the lists of
pieces, with a tie-break at the end (`naturalSort_eq`).

Two runs are compared by value if both fit into a `u128`, and as texts otherwise.  Each of the
two is an order, but they do not agree, so a run that does not fit can come between two others
that do and whose values are the other way round (`cyclic_token_iff`).

* `naturalSort_orders_iff` — when `naturalSort` is an order at three strings that sorts numbers
  by value;
* `naturalSort_eq_ideal` — on runs that fit it is one everywhere.
-/
import Zui.Library.Cycles
import Zui.Paths.Std

namespace Zui.Paths

open Zui.Path (Text)

/-! ### The functions -/

/-- `u128::MAX`. -/
def u128Max : ℕ := 2 ^ 128 - 1

/-- What `compare_numeric_segments` makes of the digits that it has read. -/
def compareDigits (aNumStr bNumStr : Text) : Ordering :=
  match compare aNumStr.length bNumStr.length with
  | .eq => compare aNumStr bNumStr
  | ordering =>
    match parseUnsigned u128Max aNumStr, parseUnsigned u128Max bNumStr with
    | some aVal, some bVal =>
      match compare aVal bVal with
      | .eq => ordering
      | ord => ord
    | _, _ => compare aNumStr bNumStr

/-- `compare_numeric_segments`: the ordering, and what the iterators have still to give. -/
def compareNumericSegments (aIter bIter : Text) : Ordering × Text × Text :=
  (compareDigits (aIter.takeWhile Char.isDigit) (bIter.takeWhile Char.isDigit),
    aIter.dropWhile Char.isDigit, bIter.dropWhile Char.isDigit)

theorem length_dropWhile_lt {c : Char} {text : Text} (h : c.isDigit = true) :
    ((c :: text).dropWhile Char.isDigit).length < (c :: text).length := by
  rw [List.dropWhile_cons_of_pos h]
  exact Nat.lt_succ_of_le (List.length_dropWhile_le _ _)

/-- The loop of `natural_sort`. -/
def naturalLoop (a b : Text) : Text → Text → Ordering
  | [], [] => compare b a
  | [], _ :: _ => .lt
  | _ :: _, [] => .gt
  | aChar :: aIter, bChar :: bIter =>
    if aChar.isDigit ∧ bChar.isDigit then
      let segments := compareNumericSegments (aChar :: aIter) (bChar :: bIter)
      match segments.1 with
      | .eq => naturalLoop a b segments.2.1 segments.2.2
      | ordering => ordering
    else
      match compare aChar.toLower bChar.toLower with
      | .eq => naturalLoop a b aIter bIter
      | ordering => ordering
termination_by aIter => aIter.length
decreasing_by
  · have h : aChar.isDigit ∧ bChar.isDigit := ‹_›
    exact length_dropWhile_lt h.1
  · exact Nat.lt_succ_self _

/-- `natural_sort`. -/
def naturalSort (a b : Text) : Ordering :=
  naturalLoop a b a b

/-! ### Runs of digits -/

/-- A run of digits. -/
@[ext] structure Run where
  digits : Text
  ne_nil : digits ≠ []
  isDigit : ∀ c ∈ digits, c.isDigit = true

namespace Run

/-- The number that the run spells. -/
def value (self : Run) : ℕ :=
  Nat.ofDigitChars 10 self.digits 0

/-- The number fits into a `u128`. -/
def Fits (self : Run) : Prop :=
  self.value ≤ u128Max

instance : DecidablePred Fits := fun self => inferInstanceAs (Decidable (self.value ≤ u128Max))

/-- The comparison of two runs. -/
def cmp (self other : Run) : Ordering :=
  compareDigits self.digits other.digits

/-- By value, and the one with fewer leading zeros first. -/
def byValue : Run → Run → Ordering :=
  compareLex (compareOn value) (compareOn fun run => run.digits.length)

/-- As texts. -/
def asText : Run → Run → Ordering :=
  compareOn digits

instance : Std.TransCmp byValue :=
  inferInstanceAs (Std.TransCmp (compareLex (compareOn value) (compareOn fun run =>
    run.digits.length)))

instance : Std.TransCmp asText :=
  inferInstanceAs (Std.TransCmp (compareOn digits))

end Run

/-! ### Digits -/

theorem isDigit_iff {c : Char} : c.isDigit = true ↔ 48 ≤ c.toNat ∧ c.toNat ≤ 57 :=
  Char.isDigit_iff_toNat

theorem compare_char (c d : Char) : compare c d = compare c.toNat d.toNat := by
  rcases lt_trichotomy c d with h | h | h
  · have hlt : c.toNat < d.toNat := h
    rw [compare_lt_iff_lt.mpr h, Nat.compare_eq_lt.mpr hlt]
  · rw [h, Std.ReflOrd.compare_self, Std.ReflOrd.compare_self]
  · have hlt : d.toNat < c.toNat := h
    rw [compare_gt_iff_gt.mpr h, Nat.compare_eq_gt.mpr hlt]

theorem toLower_of_isDigit {c : Char} (h : c.isDigit = true) : c.toLower = c := by
  rw [Char.toLower, dif_neg]
  rintro ⟨hA, -⟩
  have hlow : 65 ≤ c.toNat := UInt32.le_iff_toNat_le.mp hA
  have hhigh := (isDigit_iff.mp h).2
  omega

theorem isDigit_toLower (c : Char) : c.toLower.isDigit = c.isDigit := by
  rw [Char.toLower]
  split
  · rename_i h
    have hlow : 65 ≤ c.toNat := UInt32.le_iff_toNat_le.mp h.1
    have hhigh : c.toNat ≤ 90 := UInt32.le_iff_toNat_le.mp h.2
    -- A letter stays a letter.
    have hshift : (c.val + ('a'.val - 'A'.val)).toNat = c.toNat + 32 := by
      rw [UInt32.toNat_add]
      show (c.toNat + 32) % 2 ^ 32 = c.toNat + 32
      omega
    rw [Bool.eq_iff_iff, isDigit_iff, isDigit_iff, Char.toNat_mk, hshift]
    omega
  · rfl

theorem compare_next {m n : ℕ} {a b : Char} (ha : a.isDigit = true) (hb : b.isDigit = true) :
    compare (10 * m + (a.toNat - '0'.toNat)) (10 * n + (b.toNat - '0'.toNat)) =
      (compare m n).then (compare a b) := by
  have ha := isDigit_iff.mp ha
  have hb := isDigit_iff.mp hb
  rw [compare_char, show '0'.toNat = 48 from rfl]
  rcases lt_trichotomy m n with h | rfl | h
  · rw [Nat.compare_eq_lt.mpr h, Nat.compare_eq_lt.mpr (by omega)]
    rfl
  · rw [Std.ReflOrd.compare_self, Ordering.eq_then]
    rcases lt_trichotomy a.toNat b.toNat with h | h | h
    · rw [Nat.compare_eq_lt.mpr h, Nat.compare_eq_lt.mpr (by omega)]
    · rw [h, Std.ReflOrd.compare_self, Std.ReflOrd.compare_self]
    · rw [Nat.compare_eq_gt.mpr h, Nat.compare_eq_gt.mpr (by omega)]
  · rw [Nat.compare_eq_gt.mpr h, Nat.compare_eq_gt.mpr (by omega)]
    rfl

theorem compare_ofDigitChars {as bs : Text} (has : ∀ c ∈ as, c.isDigit = true)
    (hbs : ∀ c ∈ bs, c.isDigit = true) (hlength : as.length = bs.length) (m n : ℕ) :
    compare (Nat.ofDigitChars 10 as m) (Nat.ofDigitChars 10 bs n) =
      (compare m n).then (compare as bs) := by
  induction as generalizing bs m n with
  | nil =>
    obtain rfl : bs = [] := List.length_eq_zero_iff.mp hlength.symm
    rw [Nat.ofDigitChars_nil, Nat.ofDigitChars_nil, Std.ReflOrd.compare_self, Ordering.then_eq]
  | cons a as ih =>
    obtain _ | ⟨b, bs⟩ := bs
    · cases hlength
    obtain ⟨ha, has⟩ := List.forall_mem_cons.mp has
    obtain ⟨hb, hbs⟩ := List.forall_mem_cons.mp hbs
    rw [Nat.ofDigitChars_cons, Nat.ofDigitChars_cons, ih has hbs (Nat.succ.inj hlength),
      List.compare_cons_cons, ← Ordering.then_assoc, compare_next ha hb]

namespace Run

variable {r s : Run}

theorem compare_value (h : r.digits.length = s.digits.length) :
    compare r.value s.value = compare r.digits s.digits := by
  rw [value, value, compare_ofDigitChars r.isDigit s.isDigit h, Std.ReflOrd.compare_self,
    Ordering.eq_then]

theorem parse_eq : parseUnsigned u128Max r.digits = if r.Fits then some r.value else none :=
  parseUnsigned_digits r.ne_nil r.isDigit

/-- Runs are compared by value if both fit, and as texts otherwise. -/
theorem cmp_eq : cmp = glue Fits byValue asText := by
  funext r s
  rw [cmp, compareDigits]
  split
  · -- Equally long runs are compared as texts, which is by value too.
    rename_i hlength
    have hlength := Nat.compare_eq_eq.mp hlength
    by_cases hfits : r.Fits ∧ s.Fits
    · rw [glue_inside hfits.1 hfits.2, byValue, compareLex, compareOn, compareOn,
        compare_value hlength, hlength, Std.ReflOrd.compare_self, Ordering.then_eq]
    · rw [glue, if_neg hfits]
      rfl
  · rw [parse_eq, parse_eq]
    by_cases hr : r.Fits
    · by_cases hs : s.Fits
      · rw [if_pos hr, if_pos hs, glue_inside hr hs, byValue, compareLex, compareOn, compareOn]
        simp only
        cases compare r.value s.value <;> rfl
      · rw [if_pos hr, if_neg hs, glue_right hs]
        rfl
    · rw [if_neg hr, glue_left hr]
      rfl

instance : Std.LawfulEqCmp asText where
  compare_self := Std.ReflCmp.compare_self
  eq_of_compare h := Run.ext (Std.LawfulEqOrd.eq_of_compare h)

instance : Std.LawfulEqCmp byValue where
  compare_self := Std.ReflCmp.compare_self
  eq_of_compare {r s} h := by
    obtain ⟨hvalue, hlength⟩ := compareLex_eq_eq.mp h
    refine Run.ext (Std.LawfulEqOrd.eq_of_compare ?_)
    rw [← compare_value (Nat.compare_eq_eq.mp hlength)]
    exact hvalue

instance : Std.OrientedCmp cmp :=
  cmp_eq ▸ (inferInstance : Std.OrientedCmp (glue Fits byValue asText))

instance : Std.LawfulEqCmp cmp :=
  cmp_eq ▸ (inferInstance : Std.LawfulEqCmp (glue Fits byValue asText))

end Run

/-! ### Pieces -/

/-- A piece of a string: a run of digits, or another character in lower case. -/
inductive Token
  | run (run : Run)
  | char (c : Char)

/-- The pieces of a string of which another digit comes in front. -/
def consDigit (c : Char) (h : c.isDigit = true) : List Token → List Token
  | .run run :: rest =>
    .run ⟨c :: run.digits, List.cons_ne_nil _ _, List.forall_mem_cons.mpr ⟨h, run.isDigit⟩⟩ :: rest
  | rest => .run ⟨[c], List.cons_ne_nil _ _, by simpa using h⟩ :: rest

/-- The pieces of a string. -/
def tokens : Text → List Token
  | [] => []
  | c :: text => if h : c.isDigit = true then consDigit c h (tokens text)
    else .char c.toLower :: tokens text

namespace Token

/-- The comparison of two pieces, for one of two runs.  No other character is a digit, so each
comes before all runs or behind all runs. -/
def cmpBy (runs : Run → Run → Ordering) : Token → Token → Ordering
  | run r, run s => runs r s
  | run _, char c => if c.toNat < 48 then .gt else .lt
  | char c, run _ => if c.toNat < 48 then .lt else .gt
  | char c, char d => compare c d

variable {runs : Run → Run → Ordering}

instance [Std.OrientedCmp runs] : Std.OrientedCmp (cmpBy runs) where
  eq_swap {a b} := by
    cases a with
    | run r =>
      cases b with
      | run s =>
        show runs r s = (runs s r).swap
        exact Std.OrientedCmp.eq_swap
      | char c =>
        simp only [cmpBy]
        split_ifs <;> rfl
    | char c =>
      cases b with
      | run s =>
        simp only [cmpBy]
        split_ifs <;> rfl
      | char d =>
        show compare c d = (compare d c).swap
        exact Std.OrientedCmp.eq_swap

instance [Std.LawfulEqCmp runs] : Std.LawfulEqCmp (cmpBy runs) where
  compare_self {a} := by
    cases a with
    | run r =>
      show runs r r = .eq
      exact Std.ReflCmp.compare_self
    | char c =>
      show compare c c = .eq
      exact Std.ReflOrd.compare_self
  eq_of_compare {a b} h := by
    cases a with
    | run r =>
      cases b with
      | run s => exact congrArg run (Std.LawfulEqCmp.eq_of_compare h)
      | char c =>
        simp only [cmpBy] at h
        split_ifs at h
    | char c =>
      cases b with
      | run s =>
        simp only [cmpBy] at h
        split_ifs at h
      | char d => exact congrArg char (Std.LawfulEqOrd.eq_of_compare h)

/-- The place of a piece among the characters, all runs in one place. -/
def place : Token → ℕ
  | run _ => 48
  | char c => if c.toNat < 48 then c.toNat else c.toNat + 1

theorem place_le {a b : Token} (h : cmpBy runs a b = .lt) : a.place ≤ b.place := by
  cases a with
  | run r =>
    cases b with
    | run s => exact le_rfl
    | char c =>
      simp only [cmpBy, place] at h ⊢
      split_ifs at h ⊢
      omega
  | char c =>
    cases b with
    | run s =>
      simp only [cmpBy, place] at h ⊢
      split_ifs at h ⊢
      omega
    | char d =>
      simp only [cmpBy, compare_char, Nat.compare_eq_lt, place] at h ⊢
      split_ifs <;> omega

theorem exists_run {a : Token} (h : a.place = 48) : ∃ r, a = run r := by
  cases a with
  | run r => exact ⟨r, rfl⟩
  | char c =>
    simp only [place] at h
    split_ifs at h <;> omega

theorem cyclic_cmpBy_iff {a b c : Token} :
    Cyclic (cmpBy runs) a b c ↔
      ∃ r s t, a = run r ∧ b = run s ∧ c = run t ∧ Cyclic runs r s t := by
  constructor
  · intro h
    have hab := place_le h.first
    have hbc := place_le h.second
    have hca := place_le h.third
    by_cases ha : a.place = 48
    · obtain ⟨r, rfl⟩ := exists_run ha
      obtain ⟨s, rfl⟩ := exists_run (show b.place = 48 by omega)
      obtain ⟨t, rfl⟩ := exists_run (show c.place = 48 by omega)
      exact ⟨r, s, t, rfl, rfl, rfl, h.first, h.second, h.third⟩
    · -- Three other characters would stand in a circle.
      obtain ⟨hfirst, hsecond, hthird⟩ := h
      rcases a with r | a
      · exact absurd rfl ha
      rcases b with s | b
      · exact absurd (show (char a).place = 48 by simp only [place] at *; omega) ha
      rcases c with t | c
      · exact absurd (show (char a).place = 48 by simp only [place] at *; omega) ha
      simp only [cmpBy, compare_char, Nat.compare_eq_lt] at hfirst hsecond hthird
      omega
  · rintro ⟨r, s, t, rfl, rfl, rfl, h⟩
    exact ⟨h.first, h.second, h.third⟩

end Token

theorem tokens_digit {c : Char} (text : Text) (h : c.isDigit = true) :
    ∃ r : Run, r.digits = (c :: text).takeWhile Char.isDigit ∧
      tokens (c :: text) = .run r :: tokens ((c :: text).dropWhile Char.isDigit) := by
  induction text generalizing c with
  | nil =>
    rw [tokens, dif_pos h, List.takeWhile_cons_of_pos h, List.dropWhile_cons_of_pos h]
    exact ⟨_, rfl, rfl⟩
  | cons d text ih =>
    rw [tokens, dif_pos h, List.takeWhile_cons_of_pos h, List.dropWhile_cons_of_pos h]
    by_cases hd : d.isDigit = true
    · obtain ⟨r, hr, htokens⟩ := ih hd
      rw [htokens, ← hr]
      exact ⟨_, rfl, rfl⟩
    · rw [List.takeWhile_cons_of_neg hd, List.dropWhile_cons_of_neg hd, tokens, dif_neg hd]
      exact ⟨_, rfl, rfl⟩

theorem tokens_cons (c : Char) (text : Text) : ∃ t ts, tokens (c :: text) = t :: ts := by
  by_cases h : c.isDigit = true
  · obtain ⟨r, -, htokens⟩ := tokens_digit text h
    exact ⟨_, _, htokens⟩
  · rw [tokens, dif_neg h]
    exact ⟨_, _, rfl⟩

theorem tokens_char {c : Char} {text : Text} (h : ¬ c.isDigit = true) :
    tokens (c :: text) = .char c.toLower :: tokens text := by
  rw [tokens, dif_neg h]

theorem compare_digit (runs : Run → Run → Ordering) (r : Run) {c d : Char} (hc : c.isDigit = true)
    (hd : ¬ d.isDigit = true) :
    compare c.toLower d.toLower = Token.cmpBy runs (.run r) (.char d.toLower) ∧
      compare c.toLower d.toLower ≠ .eq := by
  have hdigit := isDigit_iff.mp hc
  have hother : ¬ d.toLower.isDigit = true := by rwa [isDigit_toLower]
  rw [isDigit_iff] at hother
  rw [toLower_of_isDigit hc, compare_char, Token.cmpBy]
  by_cases hlow : d.toLower.toNat < 48
  · rw [Nat.compare_eq_gt.mpr (by omega), if_pos hlow]
    exact ⟨rfl, fun h => nomatch h⟩
  · rw [Nat.compare_eq_lt.mpr (by omega), if_neg hlow]
    exact ⟨rfl, fun h => nomatch h⟩

/-- Unless both strings go on with a digit, their first pieces compare as their first
characters do. -/
theorem tokens_heads {c d : Char} (text other : Text)
    (h : ¬ (c.isDigit = true ∧ d.isDigit = true)) :
    ∃ t u ts us, tokens (c :: text) = t :: ts ∧ tokens (d :: other) = u :: us ∧
      Token.cmpBy Run.cmp t u = compare c.toLower d.toLower ∧
      (compare c.toLower d.toLower = .eq → ts = tokens text ∧ us = tokens other) := by
  by_cases hc : c.isDigit = true
  · have hd : ¬ d.isDigit = true := fun hd => h ⟨hc, hd⟩
    obtain ⟨r, -, htokens⟩ := tokens_digit text hc
    obtain ⟨heq, hne⟩ := compare_digit Run.cmp r hc hd
    exact ⟨_, _, _, _, htokens, tokens_char hd, heq.symm, fun h => absurd h hne⟩
  · by_cases hd : d.isDigit = true
    · obtain ⟨s, -, htokens⟩ := tokens_digit other hd
      obtain ⟨heq, hne⟩ := compare_digit Run.cmp s hd hc
      refine ⟨_, _, _, _, tokens_char hc, htokens, ?_, fun h => absurd ?_ hne⟩
      · rw [show Token.cmpBy Run.cmp (.char c.toLower) (.run s) =
          (Token.cmpBy Run.cmp (.run s) (.char c.toLower)).swap from Std.OrientedCmp.eq_swap, ← heq]
        exact Std.OrientedCmp.eq_swap.symm
      · exact Std.OrientedCmp.eq_symm h
    · exact ⟨_, _, _, _, tokens_char hc, tokens_char hd, rfl, fun _ => ⟨rfl, rfl⟩⟩

theorem naturalLoop_digits {a b text other : Text} {c d : Char}
    (h : c.isDigit = true ∧ d.isDigit = true) :
    naturalLoop a b (c :: text) (d :: other) =
      (compareNumericSegments (c :: text) (d :: other)).1.then
        (naturalLoop a b ((c :: text).dropWhile Char.isDigit)
          ((d :: other).dropWhile Char.isDigit)) := by
  rw [naturalLoop, if_pos h]
  simp only
  cases (compareNumericSegments (c :: text) (d :: other)).1 <;> rfl

theorem naturalLoop_chars {a b text other : Text} {c d : Char}
    (h : ¬ (c.isDigit = true ∧ d.isDigit = true)) :
    naturalLoop a b (c :: text) (d :: other) =
      (compare c.toLower d.toLower).then (naturalLoop a b text other) := by
  rw [naturalLoop, if_neg h]
  cases compare c.toLower d.toLower <;> rfl

/-- The loop goes through the pieces of both strings. -/
theorem naturalLoop_eq (a b aIter bIter : Text) :
    naturalLoop a b aIter bIter =
      (List.compareLex (Token.cmpBy Run.cmp) (tokens aIter) (tokens bIter)).then (compare b a) := by
  induction hn : aIter.length using Nat.strong_induction_on generalizing aIter bIter with
  | h n ih =>
    subst hn
    obtain _ | ⟨c, text⟩ := aIter
    · obtain _ | ⟨d, other⟩ := bIter
      · rw [naturalLoop]
        rfl
      · obtain ⟨u, us, hu⟩ := tokens_cons d other
        rw [naturalLoop, hu]
        rfl
    obtain _ | ⟨d, other⟩ := bIter
    · obtain ⟨t, ts, ht⟩ := tokens_cons c text
      rw [naturalLoop, ht]
      rfl
    by_cases hdigits : c.isDigit = true ∧ d.isDigit = true
    · obtain ⟨r, hr, htokens⟩ := tokens_digit text hdigits.1
      obtain ⟨s, hs, htokens'⟩ := tokens_digit other hdigits.2
      have hcmp : (compareNumericSegments (c :: text) (d :: other)).1 =
          Token.cmpBy Run.cmp (.run r) (.run s) := by
        show compareDigits _ _ = compareDigits _ _
        rw [hr, hs]
      rw [naturalLoop_digits hdigits, htokens, htokens', List.compareLex_cons_cons, hcmp,
        Ordering.then_assoc, ih _ (length_dropWhile_lt hdigits.1) _ _ rfl]
    · obtain ⟨t, u, ts, us, htokens, htokens', hcmp, hrest⟩ := tokens_heads text other hdigits
      rw [naturalLoop_chars hdigits, htokens, htokens', List.compareLex_cons_cons, hcmp,
        Ordering.then_assoc]
      by_cases heq : compare c.toLower d.toLower = .eq
      · obtain ⟨rfl, rfl⟩ := hrest heq
        rw [ih _ (Nat.lt_succ_self _) _ _ rfl]
      · cases hlt : compare c.toLower d.toLower with
        | lt => rfl
        | eq => exact absurd hlt heq
        | gt => rfl

/-- Natural sorting compares the pieces, and then the texts the other way round. -/
theorem naturalSort_eq (a b : Text) :
    naturalSort a b =
      (List.compareLex (Token.cmpBy Run.cmp) (tokens a) (tokens b)).then (compare b a) :=
  naturalLoop_eq a b a b

/-! ### The order -/

/-- Natural sorting is an order at three strings, and sorts numbers by value. -/
structure Orders (a b c : Text) : Prop where
  reversed : naturalSort b a = (naturalSort a b).swap
  equal : naturalSort a b = .eq ↔ a = b
  transitive : (naturalSort a b).isLE → (naturalSort b c).isLE → (naturalSort a c).isLE
  numeric : ∀ front r s as bs, tokens a = front ++ .run r :: as → tokens b = front ++ .run s :: bs →
    r.value < s.value → naturalSort a b = .lt

/-- The strings first differ in three runs of digits, one of which does not fit and comes, as a
text, between the other two, whose values are the other way round. -/
def PartsAtWedge (a b c : Text) : Prop :=
  ∃ front r s t as bs cs, tokens a = front ++ .run r :: as ∧ tokens b = front ++ .run s :: bs ∧
    tokens c = front ++ .run t :: cs ∧
    (Wedged Run.Fits Run.byValue Run.asText r s t ∨ Wedged Run.Fits Run.byValue Run.asText s t r ∨
      Wedged Run.Fits Run.byValue Run.asText t r s)

/-- Where the strings first differ in two numbers, the greater one fits or is not longer, or its
text comes behind. -/
def NumbersInOrder (a b : Text) : Prop :=
  ∀ front r s as bs, tokens a = front ++ .run r :: as → tokens b = front ++ .run s :: bs →
    r.value < s.value → s.Fits ∨ r.digits.length = s.digits.length ∨
      compare r.digits s.digits = .lt

instance tie_transCmp : Std.TransCmp fun a b : Text => compare b a :=
  Std.TransCmp.opposite

instance : Std.OrientedCmp naturalSort where
  eq_swap {a b} := by
    rw [naturalSort_eq, naturalSort_eq, Ordering.swap_then]
    congr 1
    · exact Std.OrientedCmp.eq_swap
    · exact Std.OrientedCmp.eq_swap

instance : Std.LawfulEqCmp naturalSort where
  compare_self := Std.ReflCmp.compare_self
  eq_of_compare {a b} h := by
    rw [naturalSort_eq, Ordering.then_eq_eq] at h
    exact (Std.LawfulEqOrd.eq_of_compare h.2).symm

theorem cyclic_naturalSort_iff {a b c : Text} : Cyclic naturalSort a b c ↔ PartsAtWedge a b c := by
  have hsort : naturalSort = fun a b =>
      (List.compareLex (Token.cmpBy Run.cmp) (tokens a) (tokens b)).then (compare b a) := by
    funext a b
    exact naturalSort_eq a b
  rw [hsort, cyclic_then_iff, cyclic_compareLex_iff]
  constructor
  · rintro ⟨front, x, y, z, as, bs, cs, ha, hb, hc, h⟩
    obtain ⟨r, s, t, rfl, rfl, rfl, hrun⟩ := Token.cyclic_cmpBy_iff.mp h
    rw [Run.cmp_eq, cyclic_glue_iff] at hrun
    exact ⟨front, r, s, t, as, bs, cs, ha, hb, hc, hrun⟩
  · rintro ⟨front, r, s, t, as, bs, cs, ha, hb, hc, h⟩
    rw [← cyclic_glue_iff, ← Run.cmp_eq] at h
    exact ⟨front, _, _, _, as, bs, cs, ha, hb, hc,
      Token.cyclic_cmpBy_iff.mpr ⟨r, s, t, rfl, rfl, rfl, h⟩⟩

/-- Two numbers are in order unless the greater one does not fit, is longer, and its text comes
in front. -/
theorem Run.cmp_lt_iff {r s : Run} (h : r.value < s.value) :
    r.cmp s = .lt ↔ s.Fits ∨ r.digits.length = s.digits.length ∨
      compare r.digits s.digits = .lt := by
  rw [Run.cmp_eq]
  by_cases hs : s.Fits
  · have hr : r.Fits := h.le.trans hs
    rw [glue_inside hr hs, Run.byValue, compareLex, compareOn, Nat.compare_eq_lt.mpr h]
    exact iff_of_true rfl (.inl hs)
  · rw [glue_right hs]
    constructor
    · exact fun htext => .inr (.inr htext)
    · rintro (hfits | hlength | htext)
      · exact absurd hfits hs
      · show compare r.digits s.digits = .lt
        rw [← Run.compare_value hlength]
        exact Nat.compare_eq_lt.mpr h
      · exact htext

theorem numeric_iff {a b : Text} :
    (∀ front r s as bs, tokens a = front ++ .run r :: as → tokens b = front ++ .run s :: bs →
      r.value < s.value → naturalSort a b = .lt) ↔ NumbersInOrder a b := by
  have hparts : ∀ front r s as bs, tokens a = front ++ .run r :: as →
      tokens b = front ++ .run s :: bs → r.value < s.value →
      (naturalSort a b = .lt ↔ r.cmp s = .lt) := by
    intro front r s as bs ha hb hvalue
    have hne : r ≠ s := fun h => absurd (congrArg Run.value h) hvalue.ne
    have hrun : Token.run r ≠ .run s := fun h => hne (Token.run.inj h)
    rw [naturalSort_eq, ha, hb, compareLex_append_left front hrun]
    show (r.cmp s).then (compare b a) = .lt ↔ _
    rw [Ordering.then_eq_lt, or_iff_left]
    exact fun h => hne (Std.LawfulEqCmp.eq_of_compare h.1)
  constructor
  · intro h front r s as bs ha hb hvalue
    exact (Run.cmp_lt_iff hvalue).mp
      ((hparts front r s as bs ha hb hvalue).mp (h front r s as bs ha hb hvalue))
  · intro h front r s as bs ha hb hvalue
    exact (hparts front r s as bs ha hb hvalue).mpr
      ((Run.cmp_lt_iff hvalue).mpr (h front r s as bs ha hb hvalue))

/-- **Natural sorting.**  It is an order at three strings unless they first differ in numbers one
of which is too large for a `u128` and wedged between the others, and it sorts numbers by value
unless one is too large, longer and in front as a text. -/
theorem naturalSort_orders_iff (a b c : Text) :
    Orders a b c ↔ ¬ PartsAtWedge a b c ∧ NumbersInOrder a b := by
  rw [← cyclic_naturalSort_iff, ← isLE_trans_iff, ← numeric_iff]
  constructor
  · exact fun h => ⟨h.transitive, h.numeric⟩
  · rintro ⟨htrans, hnumeric⟩
    exact ⟨Std.OrientedCmp.eq_swap, Std.LawfulEqCmp.compare_eq_iff_eq, htrans, hnumeric⟩

/-- The number of forty digits comes in front of 9 and behind 10. -/
theorem naturalSort_circle : ¬ Orders ['9'] ['1', '0'] ('1' :: List.replicate 39 '0') := by
  intro h
  have hfirst : (naturalSort ['9'] ['1', '0']).isLE = true := by
    rw [naturalSort_eq]
    decide
  have hsecond : (naturalSort ['1', '0'] ('1' :: List.replicate 39 '0')).isLE = true := by
    rw [naturalSort_eq]
    decide
  have hthird : (naturalSort ['9'] ('1' :: List.replicate 39 '0')).isLE = false := by
    rw [naturalSort_eq]
    decide
  exact Bool.false_ne_true (hthird.symm.trans (h.transitive hfirst hsecond))

end Zui.Paths
