/-
Relative paths.

A `RelPath` wraps a text, and its unchecked constructor is used wherever a part of a path or
two paths together are taken to be a path again.  `RelPath.new` is the only function that
looks at all of a text: it strips "./" from its start and separators from its end, refuses
what is then absolute, and resolves the components that are left if one of them needs it.

Design notes:

* a text is the list of its characters, and offsets count characters;
* `RelPath` and `RelPathBuf` differ in who owns the text, so one type stands for both; what
  changes a `RelPathBuf` returns the changed one;
* a `Path` of the standard library is the text it is made of, since it is valid unicode;
* the errors carry what their messages print;
* `PathBuf::set_extension` of the standard library works on one component, as documented:
  it keeps what is in front of the last dot, and appends a non-empty extension.
-/
import Zui.Library.Resolution
import Zui.Library.Separated

namespace Zui.Path

/-- A string. -/
abbrev Text : Type := List Char

/-- `PathStyle`. -/
inductive PathStyle
  | unix
  | windows
  deriving DecidableEq, Repr

/-- `PathStyle::separators_ch`. -/
def PathStyle.separatorsCh : PathStyle → List Char
  | unix => ['/']
  | windows => ['\\', '/']

/-- `RelPath`. -/
@[ext] structure RelPath where
  text : Text
  deriving DecidableEq, Repr

/-- `RelPathBuf`. -/
abbrev RelPathBuf : Type := RelPath

/-- `Cow`: whether a path shares the text it comes from. -/
inductive Cow
  | borrowed (path : RelPath)
  | owned (path : RelPathBuf)
  deriving DecidableEq, Repr

/-- `Cow::into_owned`. -/
def Cow.intoOwned : Cow → RelPathBuf
  | borrowed path => path
  | owned path => path

/-- The errors of the functions that check a text. -/
inductive PathError
  /-- "absolute path not allowed: {path:?}" -/
  | absolutePathNotAllowed (path : Text)
  /-- "path is not relative: {result:?}" -/
  | pathIsNotRelative (result : RelPath)
  /-- "invalid relative path {path:?}" -/
  | invalidRelativePath (path : Text)
  /-- "invalid relative path component: {component:?}" -/
  | invalidRelativePathComponent (component : Text)
  deriving DecidableEq, Repr

/-- `StripPrefixError`. -/
inductive StripPrefixError
  | mk
  deriving DecidableEq, Repr

/-- `SEPARATOR`. -/
def separator : Char := '/'

/-- A letter, a colon and a separator: the last test of `is_absolute`. -/
def startsWithDrive : Text → Bool
  | c :: ':' :: path => c.isAlpha && (['/'].isPrefixOf path || ['\\'].isPrefixOf path)
  | _ => false

/-- `is_absolute`. -/
def isAbsolute (pathLike : Text) (pathStyle : PathStyle) : Bool :=
  ['/'].isPrefixOf pathLike ||
    pathStyle == .windows && (['\\'].isPrefixOf pathLike || startsWithDrive pathLike)

/-! ### Components -/

/-- `RelPathComponents`: the text that is left. -/
structure RelPathComponents where
  text : Text

namespace RelPathComponents

/-- `RelPathComponents::rest`. -/
def rest (self : RelPathComponents) : RelPath :=
  ⟨self.text⟩

/-- `RelPathComponents::next`. -/
def next (self : RelPathComponents) : Option Text × RelPathComponents :=
  match self.text.idxOf? separator with
  | some sepIx => (some (self.text.take sepIx), ⟨(self.text.drop sepIx).drop 1⟩)
  | none => if self.text = [] then (none, self) else (some self.text, ⟨[]⟩)

/-- `RelPathComponents::next_back`. -/
def nextBack (self : RelPathComponents) : Option Text × RelPathComponents :=
  match lastIdxOf? separator self.text with
  | some sepIx => (some ((self.text.drop sepIx).drop 1), ⟨self.text.take sepIx⟩)
  | none => if self.text = [] then (none, self) else (some self.text, ⟨[]⟩)

/-- The first `n` components that `next` gives. -/
def collectUpTo : ℕ → RelPathComponents → List Text
  | 0, _ => []
  | n + 1, self =>
    match self.next with
    | (none, _) => []
    | (some component, self) => component :: collectUpTo n self

/-- All components: each of them but the last one takes a separator off the text. -/
def collect (self : RelPathComponents) : List Text :=
  collectUpTo (self.text.length + 1) self

/-- `Iterator::cmp`, for at most `n` components: the first ones that differ decide. -/
def cmpUpTo : ℕ → RelPathComponents → RelPathComponents → Ordering
  | 0, _, _ => .eq
  | n + 1, self, other =>
    match self.next, other.next with
    | (none, _), (none, _) => .eq
    | (none, _), (some _, _) => .lt
    | (some _, _), (none, _) => .gt
    | (some component, self), (some component', other) =>
      (compareOfLessAndEq component component').then (cmpUpTo n self other)

/-- `Iterator::cmp`. -/
def cmp (self other : RelPathComponents) : Ordering :=
  cmpUpTo (self.text.length + 1) self other

end RelPathComponents

/-! ### Ancestors -/

/-- `RelPathAncestors`. -/
structure RelPathAncestors where
  full : Text
  front : ℕ
  back : ℕ
  done : Bool

namespace RelPathAncestors

/-- `RelPathAncestors::next`. -/
def next (self : RelPathAncestors) : Option RelPath × RelPathAncestors :=
  if self.done then (none, self)
  else
    let result := self.full.take self.front
    if self.front = self.back then (some ⟨result⟩, { self with done := true })
    else (some ⟨result⟩, { self with front := (lastIdxOf? separator result).getD 0 })

/-- Where `RelPathAncestors::next_back` goes on to look for a separator. -/
def searchStart (self : RelPathAncestors) : ℕ :=
  if self.back = 0 then 0 else self.back + 1

/-- `RelPathAncestors::next_back`. -/
def nextBack (self : RelPathAncestors) : Option RelPath × RelPathAncestors :=
  if self.done then (none, self)
  else
    let result := self.full.take self.back
    if self.front = self.back then (some ⟨result⟩, { self with done := true })
    else
      match (self.full.drop self.searchStart).idxOf? separator with
      | some sepIx => (some ⟨result⟩, { self with back := self.searchStart + sepIx })
      | none => (some ⟨result⟩, { self with back := self.full.length })

end RelPathAncestors

/-! ### File names of the standard library -/

/-- `Path::file_stem` of a file name: what is in front of its last dot. -/
def fileStem (filename : Text) : Text :=
  match lastIdxOf? '.' filename with
  | some 0 => filename
  | some ix => filename.take ix
  | none => filename

/-- `PathBuf::set_extension` of a path with one component. -/
def withExtension (filename extension : Text) : Text :=
  if filename = [] ∨ filename = ['.'] ∨ filename = ['.', '.'] then filename
  else if extension = [] then fileStem filename
  else fileStem filename ++ '.' :: extension

namespace RelPath

/-- `RelPath::empty` and `RelPathBuf::new`. -/
def empty : RelPath :=
  ⟨[]⟩

/-- `RelPath::is_empty`. -/
def isEmpty (self : RelPath) : Bool :=
  self.text.isEmpty

/-- `RelPath::components`. -/
def components (self : RelPath) : RelPathComponents :=
  ⟨self.text⟩

/-- `RelPath::cmp`. -/
def cmp (self other : RelPath) : Ordering :=
  self.components.cmp other.components

/-! ### Changing a path -/

/-- `RelPathBuf::pop`. -/
def pop (self : RelPathBuf) : Bool × RelPathBuf :=
  match lastIdxOf? separator self.text with
  | some ix => (true, ⟨self.text.take ix⟩)
  | none => if self.isEmpty then (false, self) else (true, ⟨[]⟩)

/-- `RelPathBuf::push`. -/
def push (self : RelPathBuf) (path : RelPath) : RelPathBuf :=
  if path.isEmpty then self
  else if self.isEmpty then ⟨self.text ++ path.text⟩
  else ⟨self.text ++ separator :: path.text⟩

/-- `RelPathBuf::push_component`. -/
def pushComponent (self : RelPathBuf) (component : Text) : Except PathError RelPathBuf :=
  if component ≠ [] ∧ '/' ∉ component ∧ component ≠ ['.'] ∧ component ≠ ['.', '.'] then
    if self.isEmpty then .ok ⟨self.text ++ component⟩
    else .ok ⟨self.text ++ separator :: component⟩
  else .error (.invalidRelativePathComponent component)

/-- `RelPath::join`. -/
def join (self other : RelPath) : RelPathBuf :=
  if self.isEmpty then other
  else if other.isEmpty then self
  else ⟨self.text ++ separator :: other.text⟩

/-- `RelPath::file_name`. -/
def fileName (self : RelPath) : Option Text :=
  self.components.nextBack.1

/-- `RelPathBuf::set_extension`. -/
def setExtension (self : RelPathBuf) (extension : Text) : Bool × RelPathBuf :=
  match self.fileName with
  | some filename => (true, self.pop.2.push ⟨withExtension filename extension⟩)
  | none => (false, self)

/-! ### Parts of a path -/

/-- `RelPath::parent`. -/
def parent (self : RelPath) : Option RelPath :=
  match self.components.nextBack with
  | (some _, components) => some components.rest
  | (none, _) => none

/-- `RelPath::strip_prefix`. -/
def stripPrefix (self other : RelPath) : Except StripPrefixError RelPath :=
  if other.isEmpty then .ok self
  else
    match self.text.dropPrefix? other.text with
    | some ('/' :: suffix) => .ok ⟨suffix⟩
    | some [] => .ok empty
    | _ => .error .mk

/-- `RelPath::starts_with`. -/
def startsWith (self other : RelPath) : Bool :=
  (self.stripPrefix other).isOk

/-- `RelPath::ends_with`. -/
def endsWith (self other : RelPath) : Bool :=
  if other.isEmpty then true
  else
    match self.text.dropSuffix? other.text with
    | some suffix => suffix.getLast? == some '/' || suffix.isEmpty
    | none => false

/-- `RelPath::len`. -/
def len (self : RelPath) : ℕ :=
  if self.text.isEmpty then 0 else self.text.count '/' + 1

/-- The loop of `RelPath::last_n_components`, which leaves where there is no component. -/
def skip : ℕ → RelPathComponents → Option RelPathComponents
  | 0, components => some components
  | n + 1, components =>
    match components.next with
    | (some _, components) => skip n components
    | (none, _) => none

/-- `RelPath::last_n_components`. -/
def lastNComponents (self : RelPath) (count : ℕ) : Option RelPath :=
  if count ≤ self.len then (skip (self.len - count) self.components).map (·.rest) else none

/-- `RelPath::ancestors`. -/
def ancestors (self : RelPath) : RelPathAncestors :=
  ⟨self.text, self.text.length, 0, false⟩

/-! ### Reading a text -/

/-- The prefixes that `RelPath::new` strips, as many as there are. -/
def prefixes : PathStyle → List Text
  | .unix => [['.', '/']]
  | .windows => [['.', '/'], ['.', '\\']]

/-- The suffixes that `RelPath::new` strips. -/
def suffixes : PathStyle → List Char
  | .unix => ['/']
  | .windows => ['/', '\\']

/-- The loop over the prefixes, each of which has two characters. -/
def stripPrefixes (pathStyle : PathStyle) : Text → Text
  | c :: d :: path =>
    if (prefixes pathStyle).any (·.isPrefixOf (c :: d :: path)) then
      stripPrefixes pathStyle path
    else c :: d :: path
  | path => path

/-- The loop over the suffixes, on the reversed text.  It leaves the last character. -/
def stripReversed (pathStyle : PathStyle) : Text → Text
  | c :: d :: path =>
    if c ∈ suffixes pathStyle then stripReversed pathStyle (d :: path) else c :: d :: path
  | path => path

/-- The loop over the suffixes. -/
def stripSuffixes (pathStyle : PathStyle) (path : Text) : Text :=
  (stripReversed pathStyle path.reverse).reverse

/-- `str::replace` of one character by another one. -/
def replace (c d : Char) (text : Text) : Text :=
  text.map fun x => if x = c then d else x

/-- One component in the loop that normalizes; nothing where the path climbs too far. -/
def normalizeStep (normalized : RelPathBuf) (component : Text) : Option RelPathBuf :=
  if component = [] then some normalized
  else if component = ['.'] then some normalized
  else if component = ['.', '.'] then
    match normalized.pop with
    | (true, normalized) => some normalized
    | (false, _) => none
  else some (normalized.push ⟨component⟩)

/-- `RelPath::new`. -/
def new (path : Text) (pathStyle : PathStyle) : Except PathError Cow :=
  let path := stripSuffixes pathStyle (stripPrefixes pathStyle path)
  if isAbsolute path pathStyle then .error (.absolutePathNotAllowed path)
  else
    let result : Cow :=
      if pathStyle = .windows ∧ '\\' ∈ path then .owned ⟨replace '\\' '/' path⟩
      else .borrowed ⟨path⟩
    if result.intoOwned.components.collect.any
        fun component => component == [] || component == ['.'] || component == ['.', '.'] then
      match result.intoOwned.components.collect.foldlM normalizeStep empty with
      | some normalized => .ok (.owned normalized)
      | none => .error (.pathIsNotRelative result.intoOwned)
    else .ok result

/-- `RelPath::from_unix_str`. -/
def fromUnixStr (path : Text) : Except PathError RelPath := do
  match ← new path .unix with
  | .borrowed path => .ok path
  | .owned _ => .error (.invalidRelativePath path)

/-- `RelPath::display`. -/
def display (self : RelPath) : PathStyle → Text
  | .unix => self.text
  | .windows => if '/' ∈ self.text then replace '/' '\\' self.text else self.text

end RelPath

end Zui.Path
