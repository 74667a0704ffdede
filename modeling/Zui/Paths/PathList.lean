/-
Lists of paths, and subtree grants.

A `PathList` holds its paths in their order, and for each the place that it was given at.
`serialize` writes both lists with separators between the entries, so what `deserialize` reads
depends on whether a path contains the separator itself.

* `orderedPaths_new` — the paths come back in the order they were given in;
* `deserialize_serialize` — a list survives if no path contains a newline;
* `wellFormed_deserialize` — whatever is read, the paths are in order;
* `survives_iff` — all of this, and that the newlines are the only obstacle.

A grant covers a path and what lies below it.  `insertSubtree` keeps the list of grants
minimal, so that it is a list of incomparable paths whose upper set is what has been granted
(`subtrees_spec`).
-/
import Zui.Library.Antichain
import Zui.Library.Separated
import Zui.Library.Merge
import Zui.Library.Text
import Zui.Paths.Std

namespace Zui.Paths

open Zui.Path (Text)

/-- `PathList`. -/
structure PathList where
  paths : List PathBuf
  order : List ℕ
  deriving DecidableEq, Repr

/-- `SerializedPathList`. -/
structure SerializedPathList where
  paths : Text
  order : Text

namespace PathList

/-- `PathList::new`.  On Unix `SanitizedPath::new` gives back its argument. -/
def new (paths : List PathBuf) : PathList :=
  let indexedPaths := sortBy (fun a b => a.1.cmp b.1) paths.zipIdx
  { paths := indexedPaths.map Prod.fst, order := indexedPaths.map Prod.snd }

/-- `ordered_paths`. -/
def orderedPaths (self : PathList) : List PathBuf :=
  (sortBy (compareOn Prod.fst) (self.order.zip self.paths)).map Prod.snd

/-- The paths that `deserialize` reads. -/
def readPaths (serialized : SerializedPathList) : List PathBuf :=
  if serialized.paths = [] then [] else (serialized.paths.splitOn '\n').map PathBuf.mk

/-- The places that `deserialize` reads.  What is no number is left out. -/
def readOrder (serialized : SerializedPathList) : List ℕ :=
  (serialized.order.splitOn ',').filterMap (parseUnsigned usizeMax)

/-- `deserialize`. -/
def deserialize (serialized : SerializedPathList) : PathList :=
  let paths := readPaths serialized
  let order := readOrder serialized
  if !isSorted PathBuf.cmp paths || order.length != paths.length then
    { paths := sortBy PathBuf.cmp paths, order := List.range paths.length }
  else { paths := paths, order := order }

/-- What a pass of the loops of `serialize` does to the text. -/
def push (delimiter : Char) (text item : Text) : Text :=
  (if text = [] then text else text ++ [delimiter]) ++ item

/-- `serialize`. -/
def serialize (self : PathList) : SerializedPathList :=
  { paths := (self.paths.map PathBuf.text).foldl (push '\n') []
    order := (self.order.map display).foldl (push ',') [] }

/-! ### The order of the paths -/

instance : Std.TransCmp Component.cmp :=
  inferInstanceAs (Std.TransCmp (compareLex (compareOn Component.rank) (compareOn Component.name)))

instance : Std.TransCmp PathBuf.cmp := by
  have h : Std.TransCmp (List.compareLex Component.cmp) := inferInstance
  exact { eq_swap := h.eq_swap, isLE_trans := h.isLE_trans }

/-- The paths are in order, and there is a place for each. -/
structure WellFormed (list : PathList) : Prop where
  sorted : list.paths.Pairwise fun a b => (a.cmp b).isLE
  length : list.order.length = list.paths.length

theorem orderedPaths_perm {self : PathList} (h : self.order.length = self.paths.length) :
    self.orderedPaths.Perm self.paths := by
  have hperm := (sortBy_perm (compareOn Prod.fst) (self.order.zip self.paths)).map Prod.snd
  rwa [List.map_snd_zip h.ge] at hperm

section New

variable {paths : List PathBuf}

theorem paths_new_perm : (new paths).paths.Perm paths := by
  have hperm := (sortBy_perm (fun a b => a.1.cmp b.1) paths.zipIdx).map Prod.fst
  rwa [List.zipIdx_map_fst] at hperm

theorem order_new_perm : (new paths).order.Perm (List.range' 0 paths.length) := by
  have hperm := (sortBy_perm (fun a b => a.1.cmp b.1) paths.zipIdx).map Prod.snd
  rwa [List.zipIdx_map_snd] at hperm

theorem wellFormed_new : (new paths).WellFormed := by
  have hcmp : Std.TransCmp fun a b : PathBuf × ℕ => a.1.cmp b.1 :=
    { eq_swap := Std.OrientedCmp.eq_swap, isLE_trans := Std.TransCmp.isLE_trans }
  refine ⟨List.pairwise_map.mpr (pairwise_sortBy _), ?_⟩
  rw [paths_new_perm.length_eq, order_new_perm.length_eq, List.length_range']

/-- The paths come back in the order that they were given in. -/
theorem orderedPaths_new : (new paths).orderedPaths = paths := by
  have hperm : ((new paths).order.zip (new paths).paths).Perm (paths.zipIdx.map Prod.swap) := by
    rw [new, List.zip_map']
    exact (sortBy_perm _ _).map Prod.swap
  have hplaces : (paths.zipIdx.map Prod.swap).Pairwise fun a b => compareOn Prod.fst a b = .lt := by
    have hrange : (paths.zipIdx.map Prod.snd).Pairwise (· < ·) := by
      rw [List.zipIdx_map_snd]
      exact List.pairwise_lt_range'
    rw [List.pairwise_map] at hrange ⊢
    exact hrange.imp Nat.compare_eq_lt.mpr
  rw [orderedPaths, sortBy_eq_of_perm hperm hplaces, List.map_map]
  exact List.zipIdx_map_fst 0 paths

end New

/-! ### Texts -/

theorem foldl_push (delimiter : Char) (items : List Text) : ∀ {text : Text}, text ≠ [] →
    items.foldl (push delimiter) text = [delimiter].intercalate (text :: items) := by
  induction items with
  | nil =>
    intro text _
    exact List.intercalate_singleton.symm
  | cons item items ih =>
    intro text htext
    have hpush : push delimiter text item = text ++ [delimiter] ++ item := by
      rw [push, if_neg htext]
    rw [List.foldl_cons, hpush, ih (by simp), List.intercalate_cons_cons]
    cases items with
    | nil => simp
    | cons next items => simp

theorem foldl_push_nil {delimiter : Char} {items : List Text} (h : ∀ item ∈ items, item ≠ []) :
    items.foldl (push delimiter) [] = [delimiter].intercalate items := by
  cases items with
  | nil => rfl
  | cons item items => exact foldl_push delimiter items (h item List.mem_cons_self)

theorem splitOn_foldl_push {delimiter : Char} {items : List Text} (hitems : items ≠ [])
    (h : ∀ item ∈ items, item ≠ [] ∧ delimiter ∉ item) :
    (items.foldl (push delimiter) []).splitOn delimiter = items := by
  rw [foldl_push_nil fun item hitem => (h item hitem).1]
  exact List.splitOn_intercalate delimiter (fun item hitem => (h item hitem).2) hitems

theorem readOrder_serialize {self : PathList} (h : ∀ i ∈ self.order, i ≤ usizeMax) :
    readOrder self.serialize = self.order := by
  show ((((self.order.map display).foldl (push ',') []).splitOn ',').filterMap
    (parseUnsigned usizeMax)) = self.order
  by_cases hnil : self.order = []
  · rw [hnil]
    rfl
  · rw [splitOn_foldl_push (by simpa using hnil), List.filterMap_map]
    · have hread : ∀ i ∈ self.order, (parseUnsigned usizeMax ∘ display) i = some i := fun i hi =>
        parseUnsigned_display (h i hi)
      rw [List.filterMap_congr hread, List.filterMap_some]
    · intro item hitem
      obtain ⟨i, -, rfl⟩ := List.mem_map.mp hitem
      exact ⟨display_ne_nil, not_mem_display rfl⟩

theorem readPaths_serialize {self : PathList}
    (h : ∀ path ∈ self.paths, path.text ≠ [] ∧ '\n' ∉ path.text) :
    readPaths self.serialize = self.paths := by
  have htexts : ∀ text ∈ self.paths.map PathBuf.text, text ≠ [] ∧ '\n' ∉ text := by
    intro text htext
    obtain ⟨path, hpath, rfl⟩ := List.mem_map.mp htext
    exact h path hpath
  rw [readPaths, show self.serialize.paths = (self.paths.map PathBuf.text).foldl (push '\n') []
    from rfl]
  by_cases hnil : self.paths = []
  · rw [hnil]
    rfl
  · have hmap : self.paths.map PathBuf.text ≠ [] := by simpa using hnil
    rw [if_neg, splitOn_foldl_push hmap htexts, List.map_map]
    · exact List.map_id self.paths
    · rw [foldl_push_nil fun text htext => (htexts text htext).1,
        intercalate_eq_nil fun text htext => (htexts text htext).1]
      exact hmap

/-- What is read is kept if the paths are in order and there is a place for each. -/
theorem deserialize_kept {serialized : SerializedPathList}
    (hsorted : (readPaths serialized).Pairwise fun a b => (a.cmp b).isLE)
    (hlength : (readOrder serialized).length = (readPaths serialized).length) :
    deserialize serialized = ⟨readPaths serialized, readOrder serialized⟩ := by
  refine if_neg ?_
  rw [isSorted_of_pairwise hsorted, hlength]
  simp

/-- A list of paths without newlines survives. -/
theorem deserialize_serialize {self : PathList} (hself : self.WellFormed)
    (horder : ∀ i ∈ self.order, i ≤ usizeMax)
    (hpaths : ∀ path ∈ self.paths, path.text ≠ [] ∧ '\n' ∉ path.text) :
    deserialize self.serialize = self := by
  have hpaths := readPaths_serialize hpaths
  have horder := readOrder_serialize horder
  rw [deserialize_kept, hpaths, horder]
  · rw [hpaths]
    exact hself.sorted
  · rw [hpaths, horder]
    exact hself.length

/-- Whatever is read, the paths are in order. -/
theorem wellFormed_deserialize (serialized : SerializedPathList) :
    (deserialize serialized).WellFormed := by
  unfold deserialize
  simp only
  split
  · exact ⟨pairwise_sortBy _, by rw [length_sortBy, List.length_range]⟩
  · rename_i hkept
    rw [Bool.or_eq_true, not_or, Bool.not_eq_true', Bool.not_eq_false, isSorted_iff, bne_iff_ne,
      ne_eq, not_not] at hkept
    exact ⟨hkept.1, hkept.2⟩

theorem mem_readPaths {serialized : SerializedPathList} {path : PathBuf}
    (h : path ∈ (deserialize serialized).paths) : path ∈ readPaths serialized := by
  unfold deserialize at h
  simp only at h
  split at h
  · exact mem_sortBy.mp h
  · exact h

theorem newline_free {serialized : SerializedPathList} :
    ∀ path ∈ (deserialize serialized).paths, '\n' ∉ path.text := by
  intro path hpath hnewline
  have hread := mem_readPaths hpath
  rw [readPaths] at hread
  split at hread
  · exact List.not_mem_nil hread
  · obtain ⟨piece, hpiece, rfl⟩ := List.mem_map.mp hread
    rw [List.splitOn_eq_splitOnP] at hpiece
    simpa using separator_free piece hpiece '\n' hnewline

/-- A list of paths survives: its paths are the same, in both orders. -/
def Survives (paths : List PathBuf) : Prop :=
  (deserialize (new paths).serialize).paths = (new paths).paths ∧
    (deserialize (new paths).serialize).orderedPaths = (new paths).orderedPaths ∧
    (new paths).orderedPaths = paths ∧
    ∀ serialized, ((deserialize serialized).paths.Pairwise fun a b => (a.cmp b).isLE) ∧
      (deserialize serialized).orderedPaths.Perm (deserialize serialized).paths

/-- **Serialized lists of paths.**  A list survives unless a path has a newline in it. -/
theorem survives_iff (paths : List PathBuf) (habsolute : ∀ path ∈ paths, path.isAbsolute)
    (hlength : paths.length ≤ usizeMax) :
    Survives paths ↔ ∀ path ∈ paths, '\n' ∉ path.text := by
  constructor
  · rintro ⟨hpaths, -, -, -⟩ path hpath
    exact newline_free path (hpaths ▸ paths_new_perm.mem_iff.mpr hpath)
  · intro hnewline
    have hsurvives : deserialize (new paths).serialize = new paths := by
      refine deserialize_serialize wellFormed_new (fun i hi => ?_) fun path hpath => ?_
      · rw [order_new_perm.mem_iff, List.mem_range'_1] at hi
        omega
      · have hmem := paths_new_perm.mem_iff.mp hpath
        refine ⟨fun hnil => ?_, hnewline path hmem⟩
        have hroot := habsolute path hmem
        rw [PathBuf.isAbsolute, hnil] at hroot
        exact Bool.false_ne_true hroot
    rw [Survives, hsurvives]
    exact ⟨rfl, rfl, orderedPaths_new, fun serialized =>
      ⟨(wellFormed_deserialize serialized).sorted,
        orderedPaths_perm (wellFormed_deserialize serialized).length⟩⟩

/-- A path with a newline comes back as two paths. -/
theorem newline_splits : ¬ Survives [⟨['/', 'a', '\n', 'b']⟩] := by
  rintro ⟨hpaths, -⟩
  have hkept : (new [⟨['/', 'a', '\n', 'b']⟩]).paths = [⟨['/', 'a', '\n', 'b']⟩] := rfl
  rw [hkept] at hpaths
  exact newline_free _ (hpaths ▸ List.mem_singleton_self _) (by decide)

theorem survives_iff_two :
    Survives [⟨['/', 'b']⟩, ⟨['/', 'a']⟩] ↔
      ∀ path ∈ [PathBuf.mk ['/', 'b'], ⟨['/', 'a']⟩], '\n' ∉ path.text :=
  survives_iff _ (by decide) (by simp [usizeMax])

end PathList

/-! ### Subtree grants -/

/-- `insert_subtree`. -/
def insertSubtree (subtrees : List PathBuf) (path : PathBuf) : List PathBuf :=
  if subtrees.any fun existing => path.startsWith existing then subtrees
  else (subtrees.filter fun existing => !existing.startsWith path) ++ [path]

/-- `path_within_subtree`. -/
def pathWithinSubtree (path : PathBuf) (subtrees : List PathBuf) : Bool :=
  subtrees.any fun granted => path.startsWith granted

theorem insertSubtree_eq : insertSubtree = insertMinimal := by
  funext subtrees path
  have hle : ∀ a b : PathBuf, decide (a ≤ b) = b.startsWith a := fun a b =>
    Bool.eq_iff_iff.mpr (decide_eq_true_iff.trans PathBuf.startsWith_iff.symm)
  rw [insertSubtree, insertMinimal]
  simp only [hle]

theorem pathWithinSubtree_iff {path : PathBuf} {subtrees : List PathBuf} :
    pathWithinSubtree path subtrees = true ↔ path ∈ covered subtrees := by
  rw [pathWithinSubtree, List.any_eq_true, mem_covered]
  simp only [PathBuf.startsWith_iff]

/-- **Subtree grants.**  After any insertions no grant lies in another one, and the paths in a
grant are those in a path that was inserted. -/
theorem subtrees_spec (inserted : List PathBuf) :
    (inserted.foldl insertSubtree []).Pairwise (fun granted other =>
      ¬ granted.components <+: other.components ∧ ¬ other.components <+: granted.components) ∧
    ∀ path, pathWithinSubtree path (inserted.foldl insertSubtree []) = true ↔
      ∃ granted ∈ inserted, granted.components <+: path.components := by
  rw [insertSubtree_eq]
  refine ⟨incomparable_foldl inserted List.Pairwise.nil, fun path => ?_⟩
  rw [pathWithinSubtree_iff, mem_covered_foldl, mem_covered]
  simp only [List.not_mem_nil, false_and, exists_false, false_or]
  rfl

end Zui.Paths
