/-
Hexadecimal colors.

A color is written as `#` and 3, 4, 6 or 8 hexadecimal digits.  The parser tests the length of what
is behind the `#` in bytes, cuts out the components at byte positions, and leaves each of them to
the parser of integers.  That one takes a sign, so that a component of two bytes may be a `+` and a
digit.

* `component_one`, `component_two` — the components that are read;
* `channelsOf_ok_iff` — the texts behind the `#` that are read: those of the pattern, and those with
  a sign;
* `tryFrom_of_pattern` — what is read of a text of the pattern;
* `tryFrom_serialize` — what is printed is read back;
* `hex_colors_iff` — the texts on which the parser keeps to the pattern.

Design notes: a text is a list of characters with their lengths in UTF-8; the bytes of a character
that is not ASCII are no digits, and neither is the character.
-/
import Zui.Color.Hsl
import Zui.Library.Loop
import Zui.Library.Rounding
import Zui.Library.Text

namespace Zui.Color

/-! ### Texts -/

/-- `str::len`. -/
def len (s : List Char) : ℕ := (s.map Char.utf8Size).sum

/-- The text from a byte on, unless that is inside a character or behind the end. -/
def dropBytes : List Char → ℕ → Option (List Char)
  | s, 0 => some s
  | [], _ + 1 => none
  | c :: s, n + 1 => if c.utf8Size ≤ n + 1 then dropBytes s (n + 1 - c.utf8Size) else none

/-- The first bytes of a text, unless they end inside a character or behind the end. -/
def takeBytes : List Char → ℕ → Option (List Char)
  | _, 0 => some []
  | [], _ + 1 => none
  | c :: s, n + 1 =>
    if c.utf8Size ≤ n + 1 then (takeBytes s (n + 1 - c.utf8Size)).map (c :: ·) else none

/-- `get(start..stop)`. -/
def get (s : List Char) (start stop : ℕ) : Option (List Char) :=
  (dropBytes s start).bind fun s => takeBytes s (stop - start)

/-! ### Integers -/

/-- `to_digit(16)`. -/
def toDigit (c : Char) : Option ℕ :=
  if '0' ≤ c ∧ c ≤ '9' then some (c.toNat - 48)
  else if 'a' ≤ c ∧ c ≤ 'f' then some (c.toNat - 87)
  else if 'A' ≤ c ∧ c ≤ 'F' then some (c.toNat - 55)
  else none

/-- `IntErrorKind`. -/
inductive IntErrorKind
  | empty
  | invalidDigit
  | posOverflow
  deriving DecidableEq

/-- The loop of `u8::from_str_radix` over the digits. -/
def parseDigits (result : ℕ) : List Char → Except IntErrorKind ℕ
  | [] => .ok result
  | c :: s =>
    match toDigit c with
    | none => .error .invalidDigit
    | some digit =>
      if result * 16 > 255 then .error .posOverflow
      else if result * 16 + digit > 255 then .error .posOverflow
      else parseDigits (result * 16 + digit) s

/-- `u8::from_str_radix(s, 16)`. -/
def fromStrRadix : List Char → Except IntErrorKind ℕ
  | [] => .error .empty
  | ['+'] => .error .invalidDigit
  | ['-'] => .error .invalidDigit
  | '+' :: s => parseDigits 0 s
  | s => parseDigits 0 s

/-! ### The parser -/

/-- An error of the parser. -/
inductive ColorError
  | message (text : String)
  | parseInt (kind : IntErrorKind)
  deriving DecidableEq

/-- `EXPECTED_FORMATS`. -/
def EXPECTED_FORMATS : String := "Expected #rgb, #rgba, #rrggbb, or #rrggbbaa"

/-- `INVALID_UNICODE`. -/
def INVALID_UNICODE : String := "invalid unicode characters in color"

/-- The error of a text that is not of one of the formats. -/
def invalidFormat (value : String) : ColorError :=
  .message s!"invalid RGBA hex color: '{value}'. {EXPECTED_FORMATS}"

/-- A component: the bytes from `start` to `stop`. -/
def component (value : String) (hex : List Char) (name formats : String) (start stop : ℕ) :
    Except ColorError ℕ :=
  match get hex start stop with
  | none =>
    .error (.message s!"{INVALID_UNICODE}: {name} component of {formats} for value: '{value}'")
  | some digits => (fromStrRadix digits).mapError .parseInt

/-- `duplicate`. -/
def duplicate (value : ℕ) : ℕ := (value <<< 4) % 256 ||| value

/-- The channels of the text behind the `#`. -/
def channelsOf (value : String) (hex : List Char) : Except ColorError (ℕ × ℕ × ℕ × ℕ) :=
  if len hex = 3 ∨ len hex = 4 then do
    let r ← component value hex "r" "#rgb/#rgba" 0 1
    let g ← component value hex "g" "#rgb/#rgba" 1 2
    let b ← component value hex "b" "#rgb/#rgba" 2 3
    let a ← if len hex = 4 then component value hex "a" "#rgba" 3 4 else .ok 0xf
    .ok (duplicate r, duplicate g, duplicate b, duplicate a)
  else if len hex = 6 ∨ len hex = 8 then do
    let r ← component value hex "r" "#rrggbb/#rrggbbaa" 0 2
    let g ← component value hex "g" "#rrggbb/#rrggbbaa" 2 4
    let b ← component value hex "b" "#rrggbb/#rrggbbaa" 4 6
    let a ← if len hex = 8 then component value hex "a" "#rrggbbaa" 6 8 else .ok 0xff
    .ok (r, g, b, a)
  else .error (invalidFormat value)

/-- The color of four bytes. -/
def ofBytes (channels : ℕ × ℕ × ℕ × ℕ) : Rgba where
  r := channels.1 / 255
  g := channels.2.1 / 255
  b := channels.2.2.1 / 255
  a := channels.2.2.2 / 255

/-- `TryFrom<&str> for Rgba`. -/
def tryFrom (value : String) : Except ColorError Rgba :=
  match splitOnce ['#'] (trim value.toList) with
  | some ([], hex) => do
    let channels ← channelsOf value hex
    .ok (ofBytes channels)
  | _ => .error (invalidFormat value)

/-! ### The printer -/

/-- `f32::round`. -/
def round (x : ℚ) : ℚ := if x < 0 then -⌊-x + 1 / 2⌋ else ⌊x + 1 / 2⌋

/-- A digit of the format `x`. -/
def hexDigit (n : ℕ) : Char := if n < 10 then Char.ofNat (48 + n) else Char.ofNat (87 + n)

/-- The format `02x` of a byte. -/
def twoHex (n : ℕ) : List Char := [hexDigit (n / 16), hexDigit (n % 16)]

/-- A channel as a byte. -/
def toByte (channel : ℚ) : ℕ := saturatingCast 255 (round (channel * 255))

/-- `Serialize for Rgba`. -/
def serialize (color : Rgba) : String :=
  String.ofList ('#' :: (twoHex (toByte color.r) ++ twoHex (toByte color.g) ++
    twoHex (toByte color.b) ++ twoHex (toByte color.a)))

/-! ### The pattern of the schema -/

/-- `[0-9a-fA-F]`. -/
def IsHexDigit (c : Char) : Prop :=
  ('0' ≤ c ∧ c ≤ '9') ∨ ('a' ≤ c ∧ c ≤ 'f') ∨ ('A' ≤ c ∧ c ≤ 'F')

/-- The text behind the `#` in the pattern of the JSON schema. -/
def Pattern (hex : List Char) : Prop :=
  (hex.length = 3 ∨ hex.length = 4 ∨ hex.length = 6 ∨ hex.length = 8) ∧ ∀ c ∈ hex, IsHexDigit c

/-- Pairs of a hexadecimal digit or a `+`, and a hexadecimal digit. -/
def Pairs : List Char → Prop
  | [] => True
  | [_] => False
  | c :: c' :: s => (IsHexDigit c ∨ c = '+') ∧ IsHexDigit c' ∧ Pairs s

/-- Three or four pairs, some with a sign. -/
def Signed (hex : List Char) : Prop :=
  (hex.length = 6 ∨ hex.length = 8) ∧ Pairs hex ∧ '+' ∈ hex

/-- The value of a digit. -/
def digitValue (c : Char) : ℕ := (toDigit c).getD 0

/-- The value of two digits. -/
def twoDigits (c c' : Char) : ℕ := 16 * digitValue c + digitValue c'

/-- The four channels that a text of the pattern writes: single digits are doubled, and a missing
alpha is `ff`. -/
def written : List Char → ℕ × ℕ × ℕ × ℕ
  | [r, g, b] => (twoDigits r r, twoDigits g g, twoDigits b b, 0xff)
  | [r, g, b, a] => (twoDigits r r, twoDigits g g, twoDigits b b, twoDigits a a)
  | [r, r', g, g', b, b'] => (twoDigits r r', twoDigits g g', twoDigits b b', 0xff)
  | [r, r', g, g', b, b', a, a'] => (twoDigits r r', twoDigits g g', twoDigits b b', twoDigits a a')
  | _ => (0, 0, 0, 0)

/-! ### Digits -/

theorem toDigit_lt {c : Char} {d : ℕ} (h : toDigit c = some d) : d < 16 := by
  simp only [toDigit, Char.le_def, UInt32.le_iff_toNat_le] at h
  have hval : c.val.toNat = c.toNat := rfl
  have h9 : ('9' : Char).val.toNat = 57 := rfl
  have hf : ('f' : Char).val.toNat = 102 := rfl
  have hF : ('F' : Char).val.toNat = 70 := rfl
  rw [h9, hf, hF, hval] at h
  split_ifs at h <;> simp only [Option.some.injEq] at h <;> omega

theorem toDigit_isSome_iff {c : Char} : (∃ d, toDigit c = some d) ↔ IsHexDigit c := by
  unfold toDigit IsHexDigit
  split_ifs with h h' h'' <;> simp [*]

theorem toDigit_plus : toDigit '+' = none := by decide

theorem utf8Size_of_toDigit {c : Char} {d : ℕ} (h : toDigit c = some d) : c.utf8Size = 1 := by
  rw [Char.utf8Size_eq_one_iff, UInt32.le_iff_toNat_le]
  simp only [toDigit, Char.le_def, UInt32.le_iff_toNat_le] at h
  have h9 : ('9' : Char).val.toNat = 57 := rfl
  have hf : ('f' : Char).val.toNat = 102 := rfl
  have hF : ('F' : Char).val.toNat = 70 := rfl
  have h127 : (127 : UInt32).toNat = 127 := rfl
  rw [h9, hf, hF] at h
  rw [h127]
  split_ifs at h <;> omega

theorem isHexDigit_of_toDigit {c : Char} {d : ℕ} (h : toDigit c = some d) : IsHexDigit c :=
  toDigit_isSome_iff.mp ⟨d, h⟩

theorem toDigit_of_isHexDigit {c : Char} (h : IsHexDigit c) : toDigit c = some (digitValue c) := by
  obtain ⟨d, hd⟩ := toDigit_isSome_iff.mpr h
  rw [digitValue, hd, Option.getD_some]

theorem not_isHexDigit_plus : ¬ IsHexDigit '+' := fun h => by
  have hd := toDigit_of_isHexDigit h
  rw [toDigit_plus] at hd
  cases hd

/-! ### Components -/

/-- The value of a pair, of which the first may be the sign. -/
def pairValue (c c' : Char) : Option ℕ :=
  if c = '+' then toDigit c'
  else (toDigit c).bind fun d => (toDigit c').map fun d' => 16 * d + d'

theorem fromStrRadix_one {c : Char} {v : ℕ} : fromStrRadix [c] = .ok v ↔ toDigit c = some v := by
  have hparse : parseDigits 0 [c] = .ok v ↔ toDigit c = some v := by
    rw [parseDigits]
    cases hd : toDigit c with
    | none => simp
    | some d =>
      have := toDigit_lt hd
      simp only [Nat.zero_mul, Nat.zero_add]
      rw [if_neg (by omega), if_neg (by omega), parseDigits]
      simp
  have hplus : toDigit '+' = none := toDigit_plus
  have hminus : toDigit '-' = none := by decide
  unfold fromStrRadix
  split
  · rename_i h
    simp at h
  · rename_i h
    obtain ⟨rfl, -⟩ := List.cons.inj h
    simp [hplus]
  · rename_i h
    obtain ⟨rfl, -⟩ := List.cons.inj h
    simp [hminus]
  · rename_i s hne h
    obtain ⟨rfl, rfl⟩ := List.cons.inj h
    exact absurd rfl hne
  · exact hparse

theorem parseDigits_two {c c' : Char} {v : ℕ} : parseDigits 0 [c, c'] = .ok v ↔
    ∃ d d', toDigit c = some d ∧ toDigit c' = some d' ∧ v = 16 * d + d' := by
  rw [parseDigits]
  cases hd : toDigit c with
  | none => simp
  | some d =>
    have := toDigit_lt hd
    simp only [Nat.zero_mul, Nat.zero_add]
    rw [if_neg (by omega), if_neg (by omega), parseDigits]
    cases hd' : toDigit c' with
    | none => simp
    | some d' =>
      have := toDigit_lt hd'
      simp only []
      rw [if_neg (by omega), if_neg (by omega), parseDigits]
      simp [eq_comm, Nat.mul_comm]

theorem fromStrRadix_two {c c' : Char} {v : ℕ} :
    fromStrRadix [c, c'] = .ok v ↔ pairValue c c' = some v := by
  have hdigits : parseDigits 0 [c, c'] = .ok v ↔
      (toDigit c).bind (fun d => (toDigit c').map fun d' => 16 * d + d') = some v := by
    simp only [parseDigits_two, Option.bind_eq_some_iff, Option.map_eq_some_iff]
    constructor
    · rintro ⟨d, d', hd, hd', rfl⟩
      exact ⟨d, hd, d', hd', rfl⟩
    · rintro ⟨d, hd, d', hd', rfl⟩
      exact ⟨d, d', hd, hd', rfl⟩
  by_cases hplus : c = '+'
  · subst hplus
    have hrun : fromStrRadix ['+', c'] = parseDigits 0 [c'] := rfl
    rw [hrun, pairValue, if_pos rfl, parseDigits]
    cases hd : toDigit c' with
    | none => simp
    | some d =>
      have := toDigit_lt hd
      simp only [Nat.zero_mul, Nat.zero_add]
      rw [if_neg (by omega), if_neg (by omega), parseDigits]
      simp
  · have hrun : fromStrRadix [c, c'] = parseDigits 0 [c, c'] := by
      unfold fromStrRadix
      split <;> simp_all
    rw [hrun, pairValue, if_neg hplus, hdigits]

section Component

variable {value name formats : String} {c : Char} {s hex : List Char} {v : ℕ}

theorem mapError_eq_ok {α β ε : Type} {f : α → β} {x : Except α ε} {v : ε} :
    x.mapError f = .ok v ↔ x = .ok v := by
  cases x <;> simp [Except.mapError]

theorem component_cons (hc : c.utf8Size = 1) (i j : ℕ) :
    component value (c :: s) name formats (i + 1) (j + 1) = component value s name formats i j := by
  have hdrop : dropBytes (c :: s) (i + 1) = dropBytes s i := by
    rw [dropBytes, hc, if_pos (by omega), Nat.add_sub_cancel]
  rw [component, get, hdrop, Nat.add_sub_add_right, component, get]

/-- A component of one byte is a digit. -/
theorem component_one : component value hex name formats 0 1 = .ok v ↔
    ∃ c s, hex = c :: s ∧ toDigit c = some v := by
  cases hex with
  | nil => simp [component, get, dropBytes, takeBytes]
  | cons c s =>
    by_cases hc : c.utf8Size = 1
    · have hget : get (c :: s) 0 1 = some [c] := by simp [get, dropBytes, takeBytes, hc]
      rw [component, hget]
      simp only [mapError_eq_ok, fromStrRadix_one]
      simp
    · have hget : get (c :: s) 0 1 = none := by
        have := c.utf8Size_pos
        simp only [get, dropBytes, takeBytes, Option.bind_some]
        rw [if_neg (by omega)]
      rw [component, hget]
      constructor
      · intro h
        cases h
      · rintro ⟨c', s', h, hd⟩
        obtain ⟨rfl, rfl⟩ := List.cons.inj h
        exact absurd (utf8Size_of_toDigit hd) hc

theorem utf8Size_of_pairValue {c' : Char} (h : pairValue c c' = some v) :
    c.utf8Size = 1 ∧ c'.utf8Size = 1 := by
  unfold pairValue at h
  split_ifs at h with hplus
  · exact ⟨by rw [hplus]; decide, utf8Size_of_toDigit h⟩
  · obtain ⟨d, hd, h⟩ := Option.bind_eq_some_iff.mp h
    obtain ⟨d', hd', -⟩ := Option.map_eq_some_iff.mp h
    exact ⟨utf8Size_of_toDigit hd, utf8Size_of_toDigit hd'⟩

/-- A component of two bytes is a pair of digits, or a sign and a digit. -/
theorem component_two : component value hex name formats 0 2 = .ok v ↔
    ∃ c c' s, hex = c :: c' :: s ∧ pairValue c c' = some v := by
  constructor
  · intro h
    rw [component] at h
    cases hget : get hex 0 2 with
    | none =>
      rw [hget] at h
      cases h
    | some digits =>
      rw [hget] at h
      have h := mapError_eq_ok.mp h
      match hex with
      | [] => simp [get, dropBytes, takeBytes] at hget
      | c :: s =>
        simp only [get, dropBytes, takeBytes, Option.bind_some] at hget
        split_ifs at hget with hsize
        obtain ⟨rest, hrest, rfl⟩ := Option.map_eq_some_iff.mp hget
        by_cases hc : c.utf8Size = 1
        · -- One byte: another character of one byte follows.
          rw [hc] at hrest
          match s with
          | [] => simp [takeBytes] at hrest
          | c' :: s =>
            simp only [takeBytes] at hrest
            split_ifs at hrest with hsize'
            obtain ⟨rest', hrest', rfl⟩ := Option.map_eq_some_iff.mp hrest
            have hc' : c'.utf8Size = 1 := by
              have := c'.utf8Size_pos
              omega
            rw [hc'] at hrest'
            obtain rfl : rest' = [] := by simpa [takeBytes] using hrest'.symm
            exact ⟨c, c', s, rfl, fromStrRadix_two.mp h⟩
        · -- Two bytes: the character is no digit.
          have htwo : c.utf8Size = 2 := by
            have := c.utf8Size_pos
            omega
          rw [htwo] at hrest
          obtain rfl : rest = [] := by simpa [takeBytes] using hrest.symm
          exact absurd (utf8Size_of_toDigit (fromStrRadix_one.mp h)) hc
  · rintro ⟨c, c', s, rfl, h⟩
    obtain ⟨hc, hc'⟩ := utf8Size_of_pairValue h
    have hget : get (c :: c' :: s) 0 2 = some [c, c'] := by
      simp [get, dropBytes, takeBytes, hc, hc']
    rw [component, hget]
    exact mapError_eq_ok.mpr (fromStrRadix_two.mpr h)

end Component

/-! ### The texts that are read -/

theorem len_cons (c : Char) (s : List Char) : len (c :: s) = c.utf8Size + len s := by
  rw [len, List.map_cons, List.sum_cons, len]

theorem eq_nil_of_len {s : List Char} (h : len s = 0) : s = [] := by
  cases s with
  | nil => rfl
  | cons c s =>
    rw [len_cons] at h
    have := c.utf8Size_pos
    omega

theorem len_eq_length {s : List Char} (h : ∀ c ∈ s, c.utf8Size = 1) : len s = s.length := by
  induction s with
  | nil => rfl
  | cons c s ih =>
    rw [len_cons, h c List.mem_cons_self, ih fun d hd => h d (List.mem_cons_of_mem _ hd),
      List.length_cons, Nat.add_comm]

theorem utf8Size_of_isHexDigit {c : Char} (h : IsHexDigit c) : c.utf8Size = 1 :=
  utf8Size_of_toDigit (toDigit_of_isHexDigit h)

section Texts

variable {value : String} {hex : List Char} {result : ℕ × ℕ × ℕ × ℕ}

theorem pattern_of_short (hlen : len hex = 3 ∨ len hex = 4)
    (h : channelsOf value hex = .ok result) : Pattern hex := by
  rw [channelsOf, if_pos hlen] at h
  obtain ⟨r, hr, h⟩ := bind_eq_ok.mp h
  obtain ⟨c₁, s₁, rfl, hd₁⟩ := component_one.mp hr
  have hc₁ := utf8Size_of_toDigit hd₁
  simp only [component_cons hc₁] at h
  obtain ⟨g, hg, h⟩ := bind_eq_ok.mp h
  obtain ⟨c₂, s₂, rfl, hd₂⟩ := component_one.mp hg
  have hc₂ := utf8Size_of_toDigit hd₂
  simp only [component_cons hc₂] at h
  obtain ⟨b, hb, h⟩ := bind_eq_ok.mp h
  obtain ⟨c₃, s₃, rfl, hd₃⟩ := component_one.mp hb
  have hc₃ := utf8Size_of_toDigit hd₃
  simp only [component_cons hc₃] at h
  have hdigits : ∀ c ∈ [c₁, c₂, c₃], IsHexDigit c := by
    simp [isHexDigit_of_toDigit hd₁, isHexDigit_of_toDigit hd₂, isHexDigit_of_toDigit hd₃]
  simp only [len_cons, hc₁, hc₂, hc₃] at hlen h
  rcases hlen with hlen | hlen
  · obtain rfl : s₃ = [] := eq_nil_of_len (by omega)
    exact ⟨.inl rfl, hdigits⟩
  · rw [if_pos hlen] at h
    obtain ⟨a, ha, -⟩ := bind_eq_ok.mp h
    obtain ⟨c₄, s₄, rfl, hd₄⟩ := component_one.mp ha
    rw [len_cons, utf8Size_of_toDigit hd₄] at hlen
    obtain rfl : s₄ = [] := eq_nil_of_len (by omega)
    refine ⟨.inr (.inl rfl), fun c hc => ?_⟩
    rcases List.mem_append.mp (show c ∈ [c₁, c₂, c₃] ++ [c₄] from hc) with hc | hc
    · exact hdigits c hc
    · exact List.mem_singleton.mp hc ▸ isHexDigit_of_toDigit hd₄

theorem pairs_cons {c c' : Char} {s : List Char} {v : ℕ} (h : pairValue c c' = some v)
    (hs : Pairs s) : Pairs (c :: c' :: s) := by
  unfold pairValue at h
  split_ifs at h with hplus
  · exact ⟨.inr hplus, isHexDigit_of_toDigit h, hs⟩
  · obtain ⟨d, hd, h⟩ := Option.bind_eq_some_iff.mp h
    obtain ⟨d', hd', -⟩ := Option.map_eq_some_iff.mp h
    exact ⟨.inl (isHexDigit_of_toDigit hd), isHexDigit_of_toDigit hd', hs⟩

theorem pairs_of_long (hlen : len hex = 6 ∨ len hex = 8)
    (h : channelsOf value hex = .ok result) :
    (hex.length = 6 ∨ hex.length = 8) ∧ Pairs hex := by
  rw [channelsOf, if_neg (by omega), if_pos hlen] at h
  obtain ⟨r, hr, h⟩ := bind_eq_ok.mp h
  obtain ⟨c₁, c₁', s₁, rfl, hd₁⟩ := component_two.mp hr
  obtain ⟨hc₁, hc₁'⟩ := utf8Size_of_pairValue hd₁
  simp only [component_cons hc₁, component_cons hc₁'] at h
  obtain ⟨g, hg, h⟩ := bind_eq_ok.mp h
  obtain ⟨c₂, c₂', s₂, rfl, hd₂⟩ := component_two.mp hg
  obtain ⟨hc₂, hc₂'⟩ := utf8Size_of_pairValue hd₂
  simp only [component_cons hc₂, component_cons hc₂'] at h
  obtain ⟨b, hb, h⟩ := bind_eq_ok.mp h
  obtain ⟨c₃, c₃', s₃, rfl, hd₃⟩ := component_two.mp hb
  obtain ⟨hc₃, hc₃'⟩ := utf8Size_of_pairValue hd₃
  simp only [component_cons hc₃, component_cons hc₃'] at h
  simp only [len_cons, hc₁, hc₁', hc₂, hc₂', hc₃, hc₃'] at hlen h
  rcases hlen with hlen | hlen
  · obtain rfl : s₃ = [] := eq_nil_of_len (by omega)
    exact ⟨.inl rfl, pairs_cons hd₁ (pairs_cons hd₂ (pairs_cons hd₃ trivial))⟩
  · rw [if_pos hlen] at h
    obtain ⟨a, ha, -⟩ := bind_eq_ok.mp h
    obtain ⟨c₄, c₄', s₄, rfl, hd₄⟩ := component_two.mp ha
    obtain ⟨hc₄, hc₄'⟩ := utf8Size_of_pairValue hd₄
    rw [len_cons, len_cons, hc₄, hc₄'] at hlen
    obtain rfl : s₄ = [] := eq_nil_of_len (by omega)
    exact ⟨.inr rfl, pairs_cons hd₁ (pairs_cons hd₂ (pairs_cons hd₃ (pairs_cons hd₄ trivial)))⟩

theorem component_digit {name formats : String} {c : Char} {s : List Char} {d : ℕ}
    (h : toDigit c = some d) : component value (c :: s) name formats 0 1 = .ok d :=
  component_one.mpr ⟨c, s, rfl, h⟩

theorem component_pair {name formats : String} {c c' : Char} {s : List Char} {d : ℕ}
    (h : pairValue c c' = some d) : component value (c :: c' :: s) name formats 0 2 = .ok d :=
  component_two.mpr ⟨c, c', s, rfl, h⟩

theorem duplicate_digitValue {c : Char} (h : IsHexDigit c) :
    duplicate (digitValue c) = twoDigits c c := by
  have hduplicate : ∀ d < 16, duplicate d = 16 * d + d := by decide
  exact hduplicate _ (toDigit_lt (toDigit_of_isHexDigit h))

theorem pairValue_digits {c c' : Char} (h : IsHexDigit c) (h' : IsHexDigit c') :
    pairValue c c' = some (twoDigits c c') := by
  have hplus : c ≠ '+' := fun heq => not_isHexDigit_plus (heq ▸ h)
  rw [pairValue, if_neg hplus, toDigit_of_isHexDigit h, toDigit_of_isHexDigit h']
  rfl

theorem channelsOf_six {r r' g g' b b' : Char} {dr dg db : ℕ} (hr : pairValue r r' = some dr)
    (hg : pairValue g g' = some dg) (hb : pairValue b b' = some db) :
    channelsOf value [r, r', g, g', b, b'] = .ok (dr, dg, db, 0xff) := by
  obtain ⟨hr₁, hr₂⟩ := utf8Size_of_pairValue hr
  obtain ⟨hg₁, hg₂⟩ := utf8Size_of_pairValue hg
  obtain ⟨hb₁, hb₂⟩ := utf8Size_of_pairValue hb
  have hlen : len [r, r', g, g', b, b'] = 6 := len_eq_length (by simp [*])
  rw [channelsOf, if_neg (by omega), if_pos (by omega)]
  simp only [hlen, component_cons hr₁, component_cons hr₂, component_cons hg₁, component_cons hg₂,
    component_pair hr, component_pair hg, component_pair hb, ok_bind]
  rfl

theorem channelsOf_eight {r r' g g' b b' a a' : Char} {dr dg db da : ℕ}
    (hr : pairValue r r' = some dr) (hg : pairValue g g' = some dg) (hb : pairValue b b' = some db)
    (ha : pairValue a a' = some da) :
    channelsOf value [r, r', g, g', b, b', a, a'] = .ok (dr, dg, db, da) := by
  obtain ⟨hr₁, hr₂⟩ := utf8Size_of_pairValue hr
  obtain ⟨hg₁, hg₂⟩ := utf8Size_of_pairValue hg
  obtain ⟨hb₁, hb₂⟩ := utf8Size_of_pairValue hb
  obtain ⟨ha₁, ha₂⟩ := utf8Size_of_pairValue ha
  have hlen : len [r, r', g, g', b, b', a, a'] = 8 := len_eq_length (by simp [*])
  rw [channelsOf, if_neg (by omega), if_pos (by omega)]
  simp only [hlen, component_cons hr₁, component_cons hr₂, component_cons hg₁, component_cons hg₂,
    component_cons hb₁, component_cons hb₂, component_pair hr, component_pair hg, component_pair hb,
    component_pair ha, ok_bind]
  rfl

/-- A text of the pattern is read as it is written. -/
theorem channelsOf_of_pattern (h : Pattern hex) : channelsOf value hex = .ok (written hex) := by
  obtain ⟨hlength, hdigits⟩ := h
  have hsize : ∀ c ∈ hex, c.utf8Size = 1 := fun c hc => utf8Size_of_isHexDigit (hdigits c hc)
  have hlen := len_eq_length hsize
  match hex, hlength with
  | [r, g, b], _ =>
    have hr := hdigits r (by simp)
    have hg := hdigits g (by simp)
    have hb := hdigits b (by simp)
    rw [channelsOf, if_pos (.inl hlen)]
    simp only [hlen, component_cons (hsize r (by simp)), component_cons (hsize g (by simp)),
      component_digit (toDigit_of_isHexDigit hr), component_digit (toDigit_of_isHexDigit hg),
      component_digit (toDigit_of_isHexDigit hb), ok_bind, duplicate_digitValue hr,
      duplicate_digitValue hg, duplicate_digitValue hb]
    rfl
  | [r, g, b, a], _ =>
    have hr := hdigits r (by simp)
    have hg := hdigits g (by simp)
    have hb := hdigits b (by simp)
    have ha := hdigits a (by simp)
    rw [channelsOf, if_pos (.inr hlen)]
    simp only [hlen, component_cons (hsize r (by simp)), component_cons (hsize g (by simp)),
      component_cons (hsize b (by simp)), component_digit (toDigit_of_isHexDigit hr),
      component_digit (toDigit_of_isHexDigit hg), component_digit (toDigit_of_isHexDigit hb),
      component_digit (toDigit_of_isHexDigit ha), ok_bind, duplicate_digitValue hr,
      duplicate_digitValue hg, duplicate_digitValue hb, duplicate_digitValue ha]
    rfl
  | [r, r', g, g', b, b'], _ =>
    exact channelsOf_six (pairValue_digits (hdigits r (by simp)) (hdigits r' (by simp)))
      (pairValue_digits (hdigits g (by simp)) (hdigits g' (by simp)))
      (pairValue_digits (hdigits b (by simp)) (hdigits b' (by simp)))
  | [r, r', g, g', b, b', a, a'], _ =>
    exact channelsOf_eight (pairValue_digits (hdigits r (by simp)) (hdigits r' (by simp)))
      (pairValue_digits (hdigits g (by simp)) (hdigits g' (by simp)))
      (pairValue_digits (hdigits b (by simp)) (hdigits b' (by simp)))
      (pairValue_digits (hdigits a (by simp)) (hdigits a' (by simp)))

theorem pairs_cons_iff {c c' : Char} {s : List Char} :
    Pairs (c :: c' :: s) ↔ (∃ v, pairValue c c' = some v) ∧ Pairs s := by
  constructor
  · rintro ⟨hc, hc', hs⟩
    refine ⟨?_, hs⟩
    rcases hc with hc | rfl
    · exact ⟨_, pairValue_digits hc hc'⟩
    · exact ⟨_, (if_pos rfl).trans (toDigit_of_isHexDigit hc')⟩
  · rintro ⟨⟨v, hv⟩, hs⟩
    exact pairs_cons hv hs

theorem channelsOf_of_pairs (hlength : hex.length = 6 ∨ hex.length = 8) (h : Pairs hex) :
    ∃ result, channelsOf value hex = .ok result := by
  match hex, hlength with
  | [r, r', g, g', b, b'], _ =>
    obtain ⟨⟨dr, hr⟩, ⟨dg, hg⟩, ⟨db, hb⟩, -⟩ := by simpa only [pairs_cons_iff] using h
    exact ⟨_, channelsOf_six hr hg hb⟩
  | [r, r', g, g', b, b', a, a'], _ =>
    obtain ⟨⟨dr, hr⟩, ⟨dg, hg⟩, ⟨db, hb⟩, ⟨da, ha⟩, -⟩ := by simpa only [pairs_cons_iff] using h
    exact ⟨_, channelsOf_eight hr hg hb ha⟩

theorem isHexDigit_of_pairs : ∀ {hex : List Char}, Pairs hex → '+' ∉ hex → ∀ c ∈ hex, IsHexDigit c
  | [], _, _ => by simp
  | [_], h, _ => h.elim
  | c :: c' :: s, h, hplus => by
    obtain ⟨hc, hc', hs⟩ := h
    have hne : c ≠ '+' := fun heq => hplus (heq ▸ List.mem_cons_self)
    have hrest : '+' ∉ s := fun hin => hplus (List.mem_cons_of_mem _ (List.mem_cons_of_mem _ hin))
    intro d hd
    rcases List.mem_cons.mp hd with rfl | hd
    · exact hc.resolve_right hne
    rcases List.mem_cons.mp hd with rfl | hd
    · exact hc'
    · exact isHexDigit_of_pairs hs hrest d hd

/-- The texts behind the `#` that are read. -/
theorem channelsOf_ok_iff :
    (∃ result, channelsOf value hex = .ok result) ↔ Pattern hex ∨ Signed hex := by
  constructor
  · rintro ⟨result, h⟩
    by_cases hshort : len hex = 3 ∨ len hex = 4
    · exact .inl (pattern_of_short hshort h)
    by_cases hlong : len hex = 6 ∨ len hex = 8
    · obtain ⟨hlength, hpairs⟩ := pairs_of_long hlong h
      by_cases hplus : '+' ∈ hex
      · exact .inr ⟨hlength, hpairs, hplus⟩
      · exact .inl ⟨.inr (.inr hlength), isHexDigit_of_pairs hpairs hplus⟩
    · rw [channelsOf, if_neg hshort, if_neg hlong] at h
      cases h
  · rintro (h | ⟨hlength, hpairs, -⟩)
    · exact ⟨_, channelsOf_of_pattern h⟩
    · exact channelsOf_of_pairs hlength hpairs

theorem not_pattern_of_signed (h : Signed hex) : ¬ Pattern hex :=
  fun hpattern => not_isHexDigit_plus (hpattern.2 _ h.2.2)

end Texts

/-! ### The parser -/

theorem splitOnce_hash {s : List Char} {hex : List Char} :
    splitOnce ['#'] s = some ([], hex) ↔ s = '#' :: hex := by
  cases s with
  | nil => simp [splitOnce]
  | cons c s =>
    rw [splitOnce]
    split_ifs with h
    · obtain rfl : '#' = c := by simpa using h
      simp
    · have hc : c ≠ '#' := by
        rintro rfl
        simp at h
      simp [hc, Option.map_eq_some_iff]

/-- A text is read if a text behind a `#` is left when it is trimmed, and that is read. -/
theorem tryFrom_eq_ok {value : String} {color : Rgba} : tryFrom value = .ok color ↔
    ∃ hex, trim value.toList = '#' :: hex ∧
      ∃ result, channelsOf value hex = .ok result ∧ color = ofBytes result := by
  rw [tryFrom]
  constructor
  · intro h
    split at h
    · rename_i hex hsplit
      obtain ⟨result, hresult, h⟩ := bind_eq_ok.mp h
      exact ⟨hex, splitOnce_hash.mp hsplit, result, hresult, (Except.ok.inj h).symm⟩
    · cases h
  · rintro ⟨hex, htrim, result, hresult, rfl⟩
    rw [splitOnce_hash.mpr htrim]
    exact bind_eq_ok.mpr ⟨result, hresult, rfl⟩

/-- The color of a text of the pattern is the one that is written. -/
theorem tryFrom_of_pattern {value : String} {hex : List Char}
    (htrim : trim value.toList = '#' :: hex)
    (h : Pattern hex) : tryFrom value = .ok (ofBytes (written hex)) :=
  tryFrom_eq_ok.mpr ⟨hex, htrim, _, channelsOf_of_pattern h, rfl⟩

theorem tryFrom_ok_iff {value : String} : (∃ color, tryFrom value = .ok color) ↔
    ∃ hex, trim value.toList = '#' :: hex ∧ (Pattern hex ∨ Signed hex) := by
  constructor
  · rintro ⟨color, h⟩
    obtain ⟨hex, htrim, result, hresult, -⟩ := tryFrom_eq_ok.mp h
    exact ⟨hex, htrim, channelsOf_ok_iff.mp ⟨result, hresult⟩⟩
  · rintro ⟨hex, htrim, h⟩
    obtain ⟨result, hresult⟩ := channelsOf_ok_iff.mpr h
    exact ⟨_, tryFrom_eq_ok.mpr ⟨hex, htrim, result, hresult, rfl⟩⟩

/-! ### Printing and reading back -/

theorem toDigit_hexDigit : ∀ d < 16, toDigit (hexDigit d) = some d := by decide

theorem isHexDigit_hexDigit {d : ℕ} (h : d < 16) : IsHexDigit (hexDigit d) :=
  isHexDigit_of_toDigit (toDigit_hexDigit d h)

theorem isWhitespace_hexDigit : ∀ d < 16, isWhitespace (hexDigit d) = false := by decide

theorem toByte_div {n : ℕ} (h : n < 256) : toByte ((n : ℚ) / 255) = n := by
  have hround : round ((n : ℚ) / 255 * 255) = n := by
    have hn : (0 : ℚ) ≤ n := n.cast_nonneg
    have hfloor : ⌊(n : ℚ) + 1 / 2⌋ = n := by
      rw [Int.floor_eq_iff]
      push_cast
      constructor <;> linarith
    rw [div_mul_cancel₀ _ (by norm_num), round, if_neg (not_lt.mpr hn), hfloor]
    push_cast
    rfl
  have hlt : (n : ℚ) < (255 : ℕ) + 1 := by
    push_cast
    exact_mod_cast (show n < 255 + 1 by omega)
  rw [toByte, hround, saturatingCast_of_lt hlt, Int.floor_natCast, Int.toNat_natCast]

theorem twoDigits_twoHex {n : ℕ} (h : n < 256) :
    twoDigits (hexDigit (n / 16)) (hexDigit (n % 16)) = n := by
  rw [twoDigits, digitValue, digitValue, toDigit_hexDigit _ (by omega),
    toDigit_hexDigit _ (by omega), Option.getD_some, Option.getD_some]
  omega

/-- What is printed is read back. -/
theorem tryFrom_serialize {r g b a : ℕ} (hr : r < 256) (hg : g < 256) (hb : b < 256)
    (ha : a < 256) : tryFrom (serialize (ofBytes (r, g, b, a))) = .ok (ofBytes (r, g, b, a)) := by
  let hex := twoHex r ++ twoHex g ++ twoHex b ++ twoHex a
  have hprinted : (serialize (ofBytes (r, g, b, a))).toList = '#' :: hex := by
    rw [serialize, String.toList_ofList]
    simp only [ofBytes, toByte_div hr, toByte_div hg, toByte_div hb, toByte_div ha, hex]
  have htrim : trim ('#' :: hex) = '#' :: hex := by
    refine trim_eq_self (fun c hc => ?_) fun c hc => ?_
    · obtain rfl : '#' = c := by simpa using hc
      decide
    · obtain rfl : hexDigit (a % 16) = c := by simpa [hex, twoHex] using hc
      exact isWhitespace_hexDigit _ (by omega)
  have hpattern : Pattern hex := by
    refine ⟨.inr (.inr (.inr rfl)), fun c hc => ?_⟩
    have hc : ∃ d < 16, hexDigit d = c := by
      simp only [hex, twoHex, List.cons_append, List.nil_append, List.mem_cons, List.not_mem_nil,
        or_false] at hc
      rcases hc with rfl | rfl | rfl | rfl | rfl | rfl | rfl | rfl <;>
        exact ⟨_, by omega, rfl⟩
    obtain ⟨d, hd, rfl⟩ := hc
    exact isHexDigit_hexDigit hd
  have hwritten : written hex = (r, g, b, a) := by
    simp only [hex, twoHex, List.cons_append, List.nil_append, written, twoDigits_twoHex hr,
      twoDigits_twoHex hg, twoDigits_twoHex hb, twoDigits_twoHex ha]
  rw [tryFrom_of_pattern (by rw [hprinted, htrim]) hpattern, hwritten]

/-- The parser accepts the text if and only if it has the pattern of the schema, and reads what is
written then. -/
def KeepsToPattern (value : String) : Prop :=
  ((∃ color, tryFrom value = .ok color) ↔ ∃ hex, trim value.toList = '#' :: hex ∧ Pattern hex) ∧
    ∀ hex, trim value.toList = '#' :: hex → Pattern hex →
      tryFrom value = .ok (ofBytes (written hex))

/-- The parser keeps to the pattern on every text but `#` and pairs with a sign; and it reads back
what is printed. -/
theorem hex_colors_iff (value : String) (r g b a : Fin 256) :
    (KeepsToPattern value ↔ ¬ ∃ hex, trim value.toList = '#' :: hex ∧ Signed hex) ∧
      tryFrom (serialize (ofBytes (r, g, b, a))) = .ok (ofBytes (r, g, b, a)) := by
  refine ⟨?_, tryFrom_serialize r.isLt g.isLt b.isLt a.isLt⟩
  constructor
  · rintro ⟨haccepts, -⟩ ⟨hex, htrim, hsigned⟩
    obtain ⟨hex', htrim', hpattern⟩ := haccepts.mp (tryFrom_ok_iff.mpr ⟨hex, htrim, .inr hsigned⟩)
    obtain rfl : hex = hex' := (List.cons.inj (htrim.symm.trans htrim')).2
    exact not_pattern_of_signed hsigned hpattern
  · intro hsigned
    refine ⟨?_, fun hex htrim hpattern => tryFrom_of_pattern htrim hpattern⟩
    rw [tryFrom_ok_iff]
    constructor
    · rintro ⟨hex, htrim, hpattern | h⟩
      · exact ⟨hex, htrim, hpattern⟩
      · exact absurd ⟨hex, htrim, h⟩ hsigned
    · rintro ⟨hex, htrim, hpattern⟩
      exact ⟨hex, htrim, .inl hpattern⟩

/-- A sign in front of every digit is accepted. -/
theorem hex_colors_signs :
    tryFrom "#+1+2+3" = .ok (ofBytes (1, 2, 3, 0xff)) ∧ ¬ KeepsToPattern "#+1+2+3" := by
  have htrim : trim "#+1+2+3".toList = ['#', '+', '1', '+', '2', '+', '3'] := by decide
  have hrun : tryFrom "#+1+2+3" = .ok (ofBytes (1, 2, 3, 0xff)) :=
    tryFrom_eq_ok.mpr ⟨_, htrim, _, channelsOf_six rfl rfl rfl, rfl⟩
  refine ⟨hrun, fun h => ?_⟩
  obtain ⟨hex, hhex, hpattern⟩ := h.1.mp ⟨_, hrun⟩
  obtain rfl : ['+', '1', '+', '2', '+', '3'] = hex := (List.cons.inj (htrim.symm.trans hhex)).2
  exact not_isHexDigit_plus (hpattern.2 '+' (by simp))

end Zui.Color
