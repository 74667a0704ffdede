/-
Keystrokes as texts.

`Keystroke::parse` splits a text at the dashes and reads the parts from the left.  The key of the
last part is put in lower case.  A key that has a character behind it is not, so that it is not
read back from what `unparse` prints, where it is the last part.  Nor is the platform modifier, on
targets for which `unparse` has no name for it.

Main statements:

* `parse_unparse` — what a printed keystroke is read as;
* `form_of_parse` — which keystrokes are read;
* `roundTrips_iff` — which texts give a keystroke that is read back.
-/
import Zui.Keys.Keymap
import Zui.Library.Separated
import Zui.Library.Text

namespace Zui.Keys

/-- `target_os`. -/
inductive TargetOs
  | macos
  | linux
  | freebsd
  | windows
  | other
  deriving DecidableEq, Repr

/-- `InvalidKeystrokeError`. -/
structure InvalidKeystrokeError where
  keystroke : List Char
  deriving DecidableEq, Repr

/-- The modifiers that have names. -/
inductive ModifierName
  | control
  | alt
  | shift
  | function
  | secondary
  | platform
  deriving DecidableEq, Repr

/-- The modifier that a component names. -/
def modifierOf (component : List Char) : Option ModifierName :=
  if eqIgnoreAsciiCase component ['c', 't', 'r', 'l'] then some .control
  else if eqIgnoreAsciiCase component ['a', 'l', 't'] then some .alt
  else if eqIgnoreAsciiCase component ['s', 'h', 'i', 'f', 't'] then some .shift
  else if eqIgnoreAsciiCase component ['f', 'n'] then some .function
  else if eqIgnoreAsciiCase component ['s', 'e', 'c', 'o', 'n', 'd', 'a', 'r', 'y'] then
    some .secondary
  else if eqIgnoreAsciiCase component ['c', 'm', 'd'] ||
      eqIgnoreAsciiCase component ['s', 'u', 'p', 'e', 'r'] ||
      eqIgnoreAsciiCase component ['w', 'i', 'n'] then some .platform
  else none

namespace Modifiers

/-- `Modifiers::none`. -/
def none : Modifiers := ⟨false, false, false, false, false⟩

/-- Sets the modifier of a name. -/
def press (target : TargetOs) (self : Modifiers) : ModifierName → Modifiers
  | .control => { self with control := true }
  | .alt => { self with alt := true }
  | .shift => { self with shift := true }
  | .function => { self with function := true }
  | .secondary =>
    if target = .macos then { self with platform := true } else { self with control := true }
  | .platform => { self with platform := true }

end Modifiers

/-- Whether a component is the character of the key in front of it. -/
def isKeyChar : List Char → Bool
  | '>' :: _ :: _ => true
  | _ => false

/-- Whether a component is an upper case letter. -/
def isUpperLetter : List Char → Bool
  | [c] => c.isUpper
  | _ => false

/-- The variables of `Keystroke::parse`. -/
structure Parsing where
  modifiers : Modifiers
  key : Option (List Char)
  keyChar : Option (List Char)

/-- The loop of `Keystroke::parse`. -/
def parseComponents (target : TargetOs) (source : List Char) :
    List (List Char) → Parsing → Except InvalidKeystrokeError Parsing
  | [], self => .ok self
  | component :: components, self =>
    match modifierOf component with
    | some name =>
      parseComponents target source components
        { self with modifiers := self.modifiers.press target name }
    | none =>
      match components with
      | next :: rest =>
        if next = [] ∧ source.getLast? = some '-' then .ok { self with key := some ['-'] }
        else if isKeyChar next then
          parseComponents target source rest
            { self with key := some component, keyChar := some next.tail }
        else .error ⟨source⟩
      | [] =>
        let key := some (component.map Char.toLower)
        if isUpperLetter component then
          .ok { self with modifiers := { self.modifiers with shift := true }, key }
        else .ok { self with key }

/-- The key, or else the first modifier that is set, which is not set then. -/
def Parsing.takeKey (self : Parsing) : Option (List Char) × Modifiers :=
  match self.key with
  | some key => (some key, self.modifiers)
  | none =>
    let modifiers := self.modifiers
    if modifiers.shift then
      (some ['s', 'h', 'i', 'f', 't'], { modifiers with shift := false })
    else if modifiers.control then
      (some ['c', 'o', 'n', 't', 'r', 'o', 'l'], { modifiers with control := false })
    else if modifiers.alt then (some ['a', 'l', 't'], { modifiers with alt := false })
    else if modifiers.platform then
      (some ['p', 'l', 'a', 't', 'f', 'o', 'r', 'm'], { modifiers with platform := false })
    else if modifiers.function then
      (some ['f', 'u', 'n', 'c', 't', 'i', 'o', 'n'], { modifiers with function := false })
    else (none, modifiers)

/-- The name of the platform modifier in `unparse`. -/
def TargetOs.platformPrefix : TargetOs → List Char
  | macos => ['c', 'm', 'd', '-']
  | linux => ['s', 'u', 'p', 'e', 'r', '-']
  | freebsd => ['s', 'u', 'p', 'e', 'r', '-']
  | windows => ['w', 'i', 'n', '-']
  | other => []

namespace Keystroke

/-- `Keystroke::parse`. -/
def parse (target : TargetOs) (source : List Char) : Except InvalidKeystrokeError Keystroke := do
  let parsing ← parseComponents target source (source.splitOn '-') ⟨.none, none, none⟩
  match parsing.takeKey with
  | (some key, modifiers) =>
    .ok ⟨modifiers, String.ofList key, parsing.keyChar.map String.ofList⟩
  | (none, _) => .error ⟨source⟩

/-- The function `unparse`. -/
def unparseKey (target : TargetOs) (modifiers : Modifiers) (key : List Char) : List Char :=
  (if modifiers.function then ['f', 'n', '-'] else []) ++
    ((if modifiers.control then ['c', 't', 'r', 'l', '-'] else []) ++
    ((if modifiers.alt then ['a', 'l', 't', '-'] else []) ++
    ((if modifiers.platform then target.platformPrefix else []) ++
    ((if modifiers.shift then ['s', 'h', 'i', 'f', 't', '-'] else []) ++ key))))

/-- `Keystroke::unparse`. -/
def unparse (target : TargetOs) (self : Keystroke) : List Char :=
  unparseKey target self.modifiers self.key.toList

/-- A keystroke is read back, but for the character of its key. -/
def RoundTrips (target : TargetOs) (self : Keystroke) : Prop :=
  ∃ keystroke, parse target (self.unparse target) = .ok keystroke ∧
    keystroke.modifiers = self.modifiers ∧ keystroke.key = self.key

end Keystroke

/-! ### The texts that are not read back -/

/-- Reading some components from the left, one comes to a rest of them with a property. -/
inductive Reaches (P : List (List Char) → Prop) : List (List Char) → Prop
  | here {components : List (List Char)} (h : P components) : Reaches P components
  | modifier {component : List Char} {components : List (List Char)}
      (hmodifier : (modifierOf component).isSome) (h : Reaches P components) :
      Reaches P (component :: components)
  | key {component next : List Char} {components : List (List Char)}
      (hkey : modifierOf component = none) (hnext : isKeyChar next = true)
      (h : Reaches P components) : Reaches P (component :: next :: components)

/-- A key with an upper case letter and a character behind it, which no other key follows. -/
def CasedKey (components : List (List Char)) : Prop :=
  ∃ key next modifiers, components = key :: next :: modifiers ∧ modifierOf key = none ∧
    isKeyChar next = true ∧ (∀ component ∈ modifiers, (modifierOf component).isSome) ∧
    key.any Char.isUpper = true

/-- The last key of a text keeps its upper case letters. -/
def KeepsCase (source : List Char) : Prop := Reaches CasedKey (source.splitOn '-')

/-- The first component names the platform modifier. -/
def PlatformFirst (components : List (List Char)) : Prop :=
  components.head?.bind modifierOf = some .platform

/-- The text sets the platform modifier, which has no name, and it does not only consist of it and
the function modifier. -/
def LosesPlatform (target : TargetOs) (source : List Char) : Prop :=
  target = .other ∧ Reaches PlatformFirst (source.splitOn '-') ∧
    ∃ component ∈ source.splitOn '-',
      modifierOf component ≠ some .platform ∧ modifierOf component ≠ some .function

variable {target : TargetOs} {source key component next : List Char}
  {components rest : List (List Char)} {self result : Parsing} {modifiers : Modifiers}
  {name : ModifierName}

/-! ### One component -/

theorem parseComponents_modifier (h : modifierOf component = some name) :
    parseComponents target source (component :: components) self
      = parseComponents target source components
        { self with modifiers := self.modifiers.press target name } := by
  rw [parseComponents.eq_def]
  dsimp only
  rw [h]

theorem parseComponents_last (h : modifierOf component = none) :
    parseComponents target source [component] self
      = .ok { self with
          modifiers := if isUpperLetter component then { self.modifiers with shift := true }
            else self.modifiers
          key := some (component.map Char.toLower) } := by
  rw [parseComponents.eq_def]
  dsimp only
  rw [h]
  dsimp only
  split_ifs <;> rfl

/-- What is read of a component that is not the last one: it is the key in front of its character,
or is dropped in front of a dash. -/
theorem parseComponents_key (h : modifierOf component = none)
    (hok : parseComponents target source (component :: next :: rest) self = .ok result) :
    (next = [] ∧ result = { self with key := some ['-'] }) ∨
      (isKeyChar next = true ∧ parseComponents target source rest
        { self with key := some component, keyChar := some next.tail } = .ok result) := by
  rw [parseComponents.eq_def] at hok
  dsimp only at hok
  rw [h] at hok
  dsimp only at hok
  split_ifs at hok with hdash hnext
  · exact .inl ⟨hdash.1, (Except.ok.inj hok).symm⟩
  · exact .inr ⟨hnext, hok⟩

/-- The induction over the components of a text that is accepted. -/
theorem parseComponents_induction {motive : List (List Char) → Parsing → Prop}
    (nil : motive [] result)
    (modifier : ∀ component components self name, modifierOf component = some name →
      motive components { self with modifiers := self.modifiers.press target name } →
        motive (component :: components) self)
    (dash : ∀ component rest self, modifierOf component = none →
      result = { self with key := some ['-'] } → motive (component :: [] :: rest) self)
    (key : ∀ component next rest self, modifierOf component = none → isKeyChar next = true →
      motive rest { self with key := some component, keyChar := some next.tail } →
        motive (component :: next :: rest) self)
    (last : ∀ component self, modifierOf component = none →
      result = { self with
          modifiers := if isUpperLetter component then { self.modifiers with shift := true }
            else self.modifiers
          key := some (component.map Char.toLower) } → motive [component] self)
    (h : parseComponents target source components self = .ok result) :
    motive components self := by
  induction hlength : components.length using Nat.strong_induction_on
    generalizing components self with
  | _ n ih =>
    rcases components with _ | ⟨component, components⟩
    · obtain rfl := Except.ok.inj h
      exact nil
    rw [List.length_cons] at hlength
    cases hmodifier : modifierOf component with
    | some name =>
      rw [parseComponents_modifier hmodifier] at h
      exact modifier component components self name hmodifier (ih _ (by omega) h rfl)
    | none =>
      rcases components with _ | ⟨next, rest⟩
      · rw [parseComponents_last hmodifier] at h
        exact last component self hmodifier (Except.ok.inj h).symm
      · rw [List.length_cons] at hlength
        rcases parseComponents_key hmodifier h with ⟨rfl, hresult⟩ | ⟨hnext, hrest⟩
        · exact dash component rest self hmodifier hresult
        · exact key component next rest self hmodifier hnext (ih _ (by omega) hrest rfl)

/-! ### Letters -/

theorem map_toLower_toLower : (key.map Char.toLower).map Char.toLower = key.map Char.toLower := by
  rw [List.map_map]
  refine List.map_congr_left ?_
  intro c _
  exact Char.toLower_toLower_eq_toLower c

theorem modifierOf_map_toLower : modifierOf (key.map Char.toLower) = modifierOf key := by
  unfold modifierOf eqIgnoreAsciiCase
  rw [map_toLower_toLower]

theorem map_toLower_eq_iff : key.map Char.toLower = key ↔ key.any Char.isUpper = false := by
  rw [List.any_eq_false]
  constructor
  · intro h c hc hupper
    rw [← h] at hc
    obtain ⟨d, -, rfl⟩ := List.mem_map.mp hc
    rw [Char.isUpper_toLower_eq_false] at hupper
    cases hupper
  · intro h
    refine (List.map_congr_left ?_).trans (List.map_id key)
    intro c hc
    exact Char.toLower_eq_of_not_isUpper (h c hc)

theorem any_of_isUpperLetter (h : isUpperLetter key = true) : key.any Char.isUpper = true := by
  rcases key with _ | ⟨c, _ | ⟨d, rest⟩⟩
  · cases h
  · simpa [isUpperLetter] using h
  · cases h

theorem dash_not_mem_map_toLower (h : '-' ∉ key) : '-' ∉ key.map Char.toLower := by
  intro hmem
  obtain ⟨c, hc, hlower⟩ := List.mem_map.mp hmem
  by_cases hupper : c.isUpper = true
  · have hletter := Char.isLower_toLower_eq_isAlpha c
    rw [hlower, Char.isAlpha, hupper, Bool.true_or] at hletter
    exact absurd hletter (by decide)
  · rw [Char.toLower_eq_of_not_isUpper hupper] at hlower
    exact h (hlower ▸ hc)

/-! ### Reading from the left -/

section Reaching

variable {P : List (List Char) → Prop}

theorem reaches_modifier (h : modifierOf component = some name) :
    Reaches P (component :: components) ↔ P (component :: components) ∨ Reaches P components := by
  constructor
  · intro hreaches
    cases hreaches with
    | here hP => exact .inl hP
    | modifier _ hrest => exact .inr hrest
    | key hkey _ _ => rw [h] at hkey; cases hkey
  · rintro (hP | hrest)
    · exact .here hP
    · exact .modifier (by rw [h]; rfl) hrest

theorem reaches_key (h : modifierOf component = none) :
    Reaches P (component :: next :: rest) ↔
      P (component :: next :: rest) ∨ (isKeyChar next = true ∧ Reaches P rest) := by
  constructor
  · intro hreaches
    cases hreaches with
    | here hP => exact .inl hP
    | modifier hmodifier _ => rw [h] at hmodifier; cases hmodifier
    | key _ hnext hrest => exact .inr ⟨hnext, hrest⟩
  · rintro (hP | ⟨hnext, hrest⟩)
    · exact .here hP
    · exact .key h hnext hrest

theorem reaches_last (h : modifierOf component = none) :
    Reaches P [component] ↔ P [component] := by
  constructor
  · intro hreaches
    cases hreaches with
    | here hP => exact hP
    | modifier hmodifier _ => rw [h] at hmodifier; cases hmodifier
  · exact .here

theorem reaches_nil : Reaches P [] ↔ P [] := by
  constructor
  · intro hreaches
    cases hreaches with
    | here hP => exact hP
  · exact .here

end Reaching

theorem casedKey_iff {component : List Char} : CasedKey (component :: components) ↔
    modifierOf component = none ∧ component.any Char.isUpper = true ∧
      ∃ next modifiers, components = next :: modifiers ∧ isKeyChar next = true ∧
        ∀ other ∈ modifiers, (modifierOf other).isSome := by
  constructor
  · rintro ⟨key, next, modifiers, hsplit, hkey, hnext, hmodifiers, hupper⟩
    obtain ⟨rfl, rfl⟩ := List.cons.inj hsplit
    exact ⟨hkey, hupper, next, modifiers, rfl, hnext, hmodifiers⟩
  · rintro ⟨hkey, hupper, next, modifiers, rfl, hnext, hmodifiers⟩
    exact ⟨component, next, modifiers, rfl, hkey, hnext, hmodifiers, hupper⟩

/-- A key that is not in lower case. -/
def Cased (key : Option (List Char)) : Prop := ∃ text ∈ key, text.any Char.isUpper = true

/-- **Where a key with an upper case letter comes from.** -/
theorem cased_iff (h : parseComponents target source components self = .ok result) :
    Cased result.key ↔ Reaches CasedKey components ∨
      ((∀ component ∈ components, (modifierOf component).isSome) ∧ Cased self.key) := by
  refine parseComponents_induction (motive := fun components self => Cased result.key ↔
    Reaches CasedKey components ∨
      ((∀ component ∈ components, (modifierOf component).isSome) ∧ Cased self.key))
    ?_ ?_ ?_ ?_ ?_ h
  · have hnil : ¬ Reaches CasedKey [] := by
      rw [reaches_nil]
      rintro ⟨key, next, modifiers, hsplit, -⟩
      cases hsplit
    simp [hnil]
  · intro component components self name hmodifier ih
    have hnot : ¬ CasedKey (component :: components) := by
      rw [casedKey_iff, hmodifier]
      rintro ⟨hnone, -⟩
      cases hnone
    rw [ih, reaches_modifier hmodifier]
    simp [hnot, hmodifier]
  · rintro component rest self hkey rfl
    rw [reaches_key hkey, casedKey_iff]
    simp [Cased, isKeyChar, hkey]
  · intro component next rest self hkey hnext ih
    rw [ih, reaches_key hkey, casedKey_iff]
    simp [Cased, hkey, hnext, and_comm, or_comm]
  · rintro component self hkey rfl
    have hlower : (component.map Char.toLower).any Char.isUpper = false := by
      rw [← map_toLower_eq_iff]
      exact map_toLower_toLower
    rw [reaches_last hkey, casedKey_iff]
    simp [Cased, hkey]

theorem platform_press {target : TargetOs} (htarget : target = .other) :
    (modifiers.press target name).platform = true ↔
      modifiers.platform = true ∨ name = .platform := by
  subst htarget
  cases name <;> simp [Modifiers.press]

/-- **Where the platform modifier comes from**, on targets where `secondary` is `control`. -/
theorem platform_iff (htarget : target = .other)
    (h : parseComponents target source components self = .ok result) :
    result.modifiers.platform = true ↔
      self.modifiers.platform = true ∨ Reaches PlatformFirst components := by
  refine parseComponents_induction (motive := fun components self =>
    result.modifiers.platform = true ↔
      self.modifiers.platform = true ∨ Reaches PlatformFirst components) ?_ ?_ ?_ ?_ ?_ h
  · rw [reaches_nil]
    simp [PlatformFirst]
  · intro component components self name hmodifier ih
    rw [ih, platform_press htarget, reaches_modifier hmodifier]
    simp [PlatformFirst, hmodifier, or_assoc]
  · rintro component rest self hkey rfl
    rw [reaches_key hkey]
    simp [PlatformFirst, isKeyChar, hkey]
  · intro component next rest self hkey hnext ih
    rw [ih, reaches_key hkey]
    simp [PlatformFirst, hkey, hnext]
  · rintro component self hkey rfl
    rw [reaches_last hkey]
    by_cases hupper : isUpperLetter component = true <;> simp [PlatformFirst, hkey, hupper]

/-- There is something to take the key from before the platform modifier. -/
def Parsing.Keyed (self : Parsing) : Prop :=
  self.key.isSome ∨ self.modifiers.shift = true ∨ self.modifiers.control = true ∨
    self.modifiers.alt = true

theorem keyed_iff (htarget : target = .other)
    (h : parseComponents target source components self = .ok result) :
    result.Keyed ↔ self.Keyed ∨ ∃ component ∈ components,
      modifierOf component ≠ some .platform ∧ modifierOf component ≠ some .function := by
  refine parseComponents_induction (motive := fun components self => result.Keyed ↔
    self.Keyed ∨ ∃ component ∈ components,
      modifierOf component ≠ some .platform ∧ modifierOf component ≠ some .function)
    ?_ ?_ ?_ ?_ ?_ h
  · simp
  · intro component components self name hmodifier ih
    rw [ih, List.exists_mem_cons_iff, hmodifier, ← or_assoc]
    refine or_congr_left ?_
    subst htarget
    cases name <;> simp [Parsing.Keyed, Modifiers.press]
  · rintro component rest self hkey rfl
    simp [Parsing.Keyed, hkey]
  · intro component next rest self hkey hnext ih
    rw [ih]
    simp [Parsing.Keyed, hkey]
  · rintro component self hkey rfl
    simp [Parsing.Keyed, hkey]

/-! ### Which keystrokes are read -/

/-- What can stand at the end of a printed keystroke. -/
inductive Form (modifiers : Modifiers) : List Char → Prop
  | dash : Form modifiers ['-']
  | key {key : List Char} (hdash : '-' ∉ key) (hkey : modifierOf key = none) : Form modifiers key
  | shift (hshift : modifiers.shift = false) : Form modifiers ['s', 'h', 'i', 'f', 't']
  | alt (hshift : modifiers.shift = false) (hcontrol : modifiers.control = false)
      (halt : modifiers.alt = false) : Form modifiers ['a', 'l', 't']

theorem key_form (hfree : ∀ component ∈ components, '-' ∉ component)
    (hself : ∀ key ∈ self.key, ∀ modifiers, Form modifiers key)
    (h : parseComponents target source components self = .ok result) :
    ∀ key ∈ result.key, ∀ modifiers, Form modifiers key := by
  revert hfree hself
  refine parseComponents_induction (motive := fun components self =>
    (∀ component ∈ components, '-' ∉ component) →
      (∀ key ∈ self.key, ∀ modifiers, Form modifiers key) →
        ∀ key ∈ result.key, ∀ modifiers, Form modifiers key) ?_ ?_ ?_ ?_ ?_ h
  · intro _ hself
    exact hself
  · intro component components self name _ ih hfree hself
    exact ih (fun c hc => hfree c (List.mem_cons_of_mem _ hc)) hself
  · rintro component rest self - rfl _ _ key hkey modifiers
    obtain rfl := Option.mem_some_iff.mp hkey
    exact .dash
  · intro component next rest self hkey _ ih hfree _
    refine ih (fun c hc => hfree c (by simp [hc])) ?_
    rintro key hmem modifiers
    obtain rfl := Option.mem_some_iff.mp hmem
    exact .key (hfree component (by simp)) hkey
  · rintro component self hkey rfl hfree _ key hmem modifiers
    obtain rfl := Option.mem_some_iff.mp hmem
    refine .key (dash_not_mem_map_toLower (hfree component (by simp))) ?_
    rw [modifierOf_map_toLower]
    exact hkey

theorem takeKey_form (hself : ∀ key ∈ self.key, ∀ modifiers, Form modifiers key)
    (h : self.takeKey = (some key, modifiers)) : Form modifiers key := by
  rw [Parsing.takeKey] at h
  cases hkey : self.key with
  | some text =>
    rw [hkey] at h
    simp only [Prod.mk.injEq, Option.some.injEq] at h
    obtain ⟨rfl, rfl⟩ := h
    exact hself text hkey _
  | none =>
    rw [hkey] at h
    dsimp only at h
    split_ifs at h with hshift hcontrol halt hplatform hfunction
    all_goals
      simp only [Prod.mk.injEq, Option.some.injEq, reduceCtorEq, false_and] at h
    · obtain ⟨rfl, rfl⟩ := h
      exact .shift rfl
    · obtain ⟨rfl, rfl⟩ := h
      exact .key (by decide) (by decide)
    · obtain ⟨rfl, rfl⟩ := h
      exact .alt (by simpa using hshift) (by simpa using hcontrol) rfl
    · obtain ⟨rfl, rfl⟩ := h
      exact .key (by decide) (by decide)
    · obtain ⟨rfl, rfl⟩ := h
      exact .key (by decide) (by decide)

namespace Keystroke

variable {keystroke : Keystroke}

theorem parse_eq_ok : parse target source = .ok keystroke ↔
    ∃ parsing key, parseComponents target source (source.splitOn '-') ⟨.none, none, none⟩
        = .ok parsing ∧ parsing.takeKey = (some key, keystroke.modifiers) ∧
      keystroke.key = String.ofList key ∧
      keystroke.keyChar = parsing.keyChar.map String.ofList := by
  rw [parse]
  cases hparsing : parseComponents target source (source.splitOn '-') ⟨.none, none, none⟩ with
  | error error => simp [bind, Except.bind]
  | ok parsing =>
    obtain ⟨modifiers, key, keyChar⟩ := keystroke
    rcases htaken : parsing.takeKey with ⟨taken, left⟩
    cases taken with
    | none => simp [bind, Except.bind, htaken]
    | some taken =>
      simp only [bind, Except.bind, htaken, Except.ok.injEq, mk.injEq, Prod.mk.injEq,
        Option.some.injEq, exists_and_left, exists_eq_left']
      constructor
      · rintro ⟨rfl, rfl, rfl⟩
        exact ⟨taken, ⟨rfl, rfl⟩, rfl, rfl⟩
      · rintro ⟨_, ⟨rfl, rfl⟩, rfl, rfl⟩
        exact ⟨rfl, rfl, rfl⟩

/-- **The keystrokes that are read.** -/
theorem form_of_parse (h : parse target source = .ok keystroke) :
    Form keystroke.modifiers keystroke.key.toList := by
  obtain ⟨parsing, key, hparsing, htaken, hkey, -⟩ := parse_eq_ok.mp h
  have hfree : ∀ component ∈ source.splitOn '-', '-' ∉ component := by
    intro component hmem hin
    rw [List.splitOn_eq_splitOnP] at hmem
    simpa using separator_free component hmem '-' hin
  rw [hkey, String.toList_ofList]
  exact takeKey_form (key_form hfree (by simp) hparsing) htaken

end Keystroke

/-! ### Reading a printed keystroke -/

section Printed

variable {pressed : Bool} {rest : List Char}

theorem parseComponents_piece (text : List Char) (name : ModifierName) (hfree : '-' ∉ text)
    (h : modifierOf text = some name) :
    parseComponents target source (((if pressed then text ++ ['-'] else []) ++ rest).splitOn '-')
        self
      = parseComponents target source (rest.splitOn '-')
        { self with
          modifiers := if pressed then self.modifiers.press target name else self.modifiers } := by
  cases pressed with
  | false => simp
  | true =>
    rw [if_pos rfl, if_pos rfl, List.append_assoc, List.singleton_append,
      List.splitOn_append_cons_self_of_not_mem hfree, parseComponents_modifier h]

theorem parseComponents_platform :
    parseComponents target source
        (((if pressed then target.platformPrefix else []) ++ rest).splitOn '-') self
      = parseComponents target source (rest.splitOn '-')
        { self with modifiers := { self.modifiers with
            platform := self.modifiers.platform || (pressed && decide (target ≠ .other)) } } := by
  cases target with
  | macos =>
    refine (parseComponents_piece ['c', 'm', 'd'] .platform (by decide) (by decide)).trans ?_
    cases pressed <;> simp [Modifiers.press]
  | linux =>
    refine (parseComponents_piece ['s', 'u', 'p', 'e', 'r'] .platform
      (by decide) (by decide)).trans ?_
    cases pressed <;> simp [Modifiers.press]
  | freebsd =>
    refine (parseComponents_piece ['s', 'u', 'p', 'e', 'r'] .platform
      (by decide) (by decide)).trans ?_
    cases pressed <;> simp [Modifiers.press]
  | windows =>
    refine (parseComponents_piece ['w', 'i', 'n'] .platform (by decide) (by decide)).trans ?_
    cases pressed <;> simp [Modifiers.press]
  | other => cases pressed <;> simp [TargetOs.platformPrefix]

end Printed

/-- The modifiers that are printed. -/
def Modifiers.printed (target : TargetOs) (modifiers : Modifiers) : Modifiers :=
  { modifiers with platform := modifiers.platform && decide (target ≠ .other) }

namespace Keystroke

variable {keystroke : Keystroke}

theorem parseComponents_unparseKey :
    parseComponents target source ((unparseKey target modifiers key).splitOn '-')
        ⟨.none, none, none⟩
      = parseComponents target source (key.splitOn '-')
        ⟨modifiers.printed target, none, none⟩ := by
  refine (parseComponents_piece ['f', 'n'] .function (by decide) (by decide)).trans ?_
  refine (parseComponents_piece ['c', 't', 'r', 'l'] .control (by decide) (by decide)).trans ?_
  refine (parseComponents_piece ['a', 'l', 't'] .alt (by decide) (by decide)).trans ?_
  refine parseComponents_platform.trans ?_
  refine (parseComponents_piece ['s', 'h', 'i', 'f', 't'] .shift (by decide) (by decide)).trans ?_
  obtain ⟨control, alt, shift, platform, function⟩ := modifiers
  cases control <;> cases alt <;> cases shift <;> cases function <;>
    simp [Modifiers.press, Modifiers.none, Modifiers.printed]

theorem parseComponents_form (h : Form modifiers key)
    (hlast : key = ['-'] → source.getLast? = some '-') :
    ∃ parsing, parseComponents target source (key.splitOn '-') ⟨modifiers, none, none⟩
        = .ok parsing ∧
      parsing.takeKey = (some (key.map Char.toLower),
        if isUpperLetter key then { modifiers with shift := true } else modifiers) ∧
      parsing.keyChar = none := by
  cases h with
  | dash =>
    refine ⟨⟨modifiers, some ['-'], none⟩, ?_, rfl, rfl⟩
    have hsplit : ['-'].splitOn '-' = [[], []] := by decide
    have hnone : modifierOf [] = none := by decide
    rw [hsplit, parseComponents.eq_def]
    simp [hnone, hlast rfl]
  | key hdash hkey =>
    rw [List.splitOn_eq_singleton hdash, parseComponents_last hkey]
    exact ⟨_, rfl, rfl, rfl⟩
  | shift hshift =>
    have hname : modifierOf ['s', 'h', 'i', 'f', 't'] = some .shift := by decide
    rw [List.splitOn_eq_singleton (by decide), parseComponents_modifier hname]
    refine ⟨_, rfl, ?_, rfl⟩
    obtain ⟨control, alt, shift, platform, function⟩ := modifiers
    obtain rfl : shift = false := hshift
    rfl
  | alt hshift hcontrol halt =>
    have hname : modifierOf ['a', 'l', 't'] = some .alt := by decide
    rw [List.splitOn_eq_singleton (by decide), parseComponents_modifier hname]
    refine ⟨_, rfl, ?_, rfl⟩
    obtain ⟨control, alt, shift, platform, function⟩ := modifiers
    obtain rfl : shift = false := hshift
    obtain rfl : control = false := hcontrol
    obtain rfl : alt = false := halt
    rfl

theorem form_printed (h : Form modifiers key) : Form (modifiers.printed target) key := by
  cases h with
  | dash => exact .dash
  | key hdash hkey => exact .key hdash hkey
  | shift hshift => exact .shift hshift
  | alt hshift hcontrol halt => exact .alt hshift hcontrol halt

theorem getLast_unparseKey : (unparseKey target modifiers ['-']).getLast? = some '-' := by
  simp [unparseKey, ← List.append_assoc]

/-- **What a printed keystroke is read as**: the key is in lower case, the shift modifier is set for
one upper case letter, and the platform modifier is not if it has no name. -/
theorem parse_unparse (h : Form keystroke.modifiers keystroke.key.toList) :
    parse target (keystroke.unparse target)
      = .ok ⟨if isUpperLetter keystroke.key.toList
            then { keystroke.modifiers.printed target with shift := true }
            else keystroke.modifiers.printed target,
          String.ofList (keystroke.key.toList.map Char.toLower), none⟩ := by
  have hform : Form (keystroke.modifiers.printed target) keystroke.key.toList := form_printed h
  have hlast : keystroke.key.toList = ['-'] →
      (keystroke.unparse target).getLast? = some '-' := by
    intro hdash
    rw [unparse, hdash]
    exact getLast_unparseKey
  obtain ⟨parsing, hparsing, htaken, hchar⟩ := parseComponents_form hform hlast
  rw [parse_eq_ok]
  refine ⟨parsing, _, ?_, htaken, rfl, by rw [hchar]; rfl⟩
  rw [← hparsing]
  exact parseComponents_unparseKey

/-- A keystroke is read back if its key is in lower case and its platform modifier has a name. -/
theorem roundTrips_iff_lower (h : Form keystroke.modifiers keystroke.key.toList) :
    keystroke.RoundTrips target ↔ keystroke.key.toList.any Char.isUpper = false ∧
      (keystroke.modifiers.platform = true → target ≠ .other) := by
  rw [RoundTrips, parse_unparse h]
  simp only [Except.ok.injEq, exists_eq_left']
  rw [← map_toLower_eq_iff, ← String.toList_inj, String.toList_ofList, and_comm]
  refine and_congr_right ?_
  intro hlower
  have hnot : isUpperLetter keystroke.key.toList = false := by
    rw [Bool.eq_false_iff]
    intro hletter
    have hcased := any_of_isUpperLetter hletter
    rw [map_toLower_eq_iff.mp hlower] at hcased
    cases hcased
  rw [hnot]
  obtain ⟨⟨control, alt, shift, platform, function⟩, key, keyChar⟩ := keystroke
  cases platform <;> simp [Modifiers.printed]

theorem cased_takeKey (h : self.takeKey = (some key, modifiers)) :
    Cased self.key ↔ key.any Char.isUpper = true := by
  rw [Parsing.takeKey] at h
  cases hkey : self.key with
  | some text =>
    rw [hkey] at h
    simp only [Prod.mk.injEq, Option.some.injEq] at h
    simp [Cased, h.1]
  | none =>
    rw [hkey] at h
    dsimp only at h
    have hlower : key.any Char.isUpper = false := by
      split_ifs at h <;>
        simp only [Prod.mk.injEq, Option.some.injEq, reduceCtorEq, false_and] at h <;>
        obtain ⟨rfl, -⟩ := h <;> decide
    simp [Cased, hlower]

theorem platform_takeKey (h : self.takeKey = (some key, modifiers)) :
    modifiers.platform = true ↔ self.modifiers.platform = true ∧ self.Keyed := by
  obtain ⟨⟨control, alt, shift, platform, function⟩, text, keyChar⟩ := self
  rw [Parsing.takeKey] at h
  cases text with
  | some text =>
    simp only [Prod.mk.injEq] at h
    simp [← h.2, Parsing.Keyed]
  | none =>
    dsimp only at h
    split_ifs at h <;> simp only [Prod.mk.injEq, reduceCtorEq, false_and] at h <;>
      obtain ⟨-, rfl⟩ := h <;> simp_all [Parsing.Keyed]

theorem keepsCase_iff (h : parse target source = .ok keystroke) :
    keystroke.key.toList.any Char.isUpper = true ↔ KeepsCase source := by
  obtain ⟨parsing, key, hparsing, htaken, hkey, -⟩ := parse_eq_ok.mp h
  rw [hkey, String.toList_ofList, ← cased_takeKey htaken, cased_iff hparsing, KeepsCase]
  simp [Cased]

theorem losesPlatform_iff (h : parse target source = .ok keystroke) :
    (keystroke.modifiers.platform = true ∧ target = .other) ↔ LosesPlatform target source := by
  rw [LosesPlatform, and_comm]
  refine and_congr_right ?_
  intro htarget
  obtain ⟨parsing, key, hparsing, htaken, -, -⟩ := parse_eq_ok.mp h
  rw [platform_takeKey htaken, platform_iff htarget hparsing, keyed_iff htarget hparsing]
  simp [Parsing.Keyed, Modifiers.none]

/-- **Which keystrokes are read back**: those of the texts whose last key has no upper case letter
with a character behind it, on a target that has a name for the platform modifier.  Among these,
the printed text tells the keystrokes apart, and the keystroke that is typed matches the one that
is saved. -/
theorem roundTrips_iff (target : TargetOs) (source : List Char) (keystroke : Keystroke)
    (h : parse target source = .ok keystroke) :
    (keystroke.RoundTrips target ↔ ¬ (KeepsCase source ∨ LosesPlatform target source)) ∧
      (keystroke.RoundTrips target → ∀ other : Keystroke, other.RoundTrips target →
        other.unparse target = keystroke.unparse target →
          other.modifiers = keystroke.modifiers ∧ other.key = keystroke.key) ∧
      (keystroke.RoundTrips target → ∀ saved,
        parse target (keystroke.unparse target) = .ok saved →
          keystroke.shouldMatch ⟨saved⟩ = true) := by
  refine ⟨?_, ?_, ?_⟩
  · rw [roundTrips_iff_lower (form_of_parse h), ← losesPlatform_iff h, ← keepsCase_iff h,
      Bool.eq_false_iff, not_or, not_and]
  · rintro ⟨read, hread, hmodifiers, hkey⟩ other ⟨read', hread', hmodifiers', hkey'⟩ hprinted
    rw [hprinted, hread] at hread'
    obtain rfl := Except.ok.inj hread'
    exact ⟨hmodifiers'.symm.trans hmodifiers, hkey'.symm.trans hkey⟩
  · rintro ⟨read, hread, hmodifiers, hkey⟩ saved hsaved
    rw [hread] at hsaved
    obtain rfl := Except.ok.inj hsaved
    simp [shouldMatch, hmodifiers, hkey]

/-- A shifted letter is read back. -/
theorem roundTrips_shift : ∃ keystroke,
    parse .linux "ctrl-A".toList = .ok keystroke ∧ keystroke.RoundTrips .linux := by
  have hparse : parse .linux "ctrl-A".toList
      = .ok ⟨⟨true, false, true, false, false⟩, "a", none⟩ := by
    decide +kernel
  refine ⟨_, hparse, (roundTrips_iff .linux _ _ hparse).1.mpr ?_⟩
  rw [not_or, ← keepsCase_iff hparse]
  exact ⟨by decide +kernel, by simp [LosesPlatform]⟩

/-- The key of `A->b` is read back as a shifted `a`, and where the platform modifier has no name,
`cmd-a` is read back as `a`. -/
theorem not_roundTrips :
    (∃ keystroke, parse .linux "A->b".toList = .ok keystroke ∧ ¬ keystroke.RoundTrips .linux) ∧
      ∃ keystroke, parse .other "cmd-a".toList = .ok keystroke ∧
        ¬ keystroke.RoundTrips .other := by
  have hcased : parse .linux "A->b".toList = .ok ⟨.none, "A", some "b"⟩ := by decide +kernel
  have hplatform : parse .other "cmd-a".toList
      = .ok ⟨⟨false, false, false, true, false⟩, "a", none⟩ := by
    decide +kernel
  refine ⟨⟨_, hcased, ?_⟩, ⟨_, hplatform, ?_⟩⟩
  · rw [roundTrips_iff_lower (form_of_parse hcased)]
    decide +kernel
  · rw [roundTrips_iff_lower (form_of_parse hplatform)]
    decide +kernel

end Keystroke

end Zui.Keys
