/-
The order of the tab stops.

A run of operations inserts focus handles, each under a `TabStopOrder`: the path of the groups
that are open at its insertion and its own tab index, and its place in the run (`inserted`).

Main definitions:

* `inOrder` — the inserted handles by their order: the paths lexicographically, and handles of
  one path as they were inserted;
* `tabOrder` — those of them that are tab stops.

Main statements:

* `inserted_snoc` — what one more operation inserts;
* `inserted_history` — a handle is in the history at its insertion index;
* `inOrder_strict` — no two inserted handles have the same order.
-/
import Zui.SumTree.Sorted
import Zui.TabStop.Basic

namespace Zui

namespace TabStop

/-! ### The keys -/

theorem TabStopOrder.lt_iff {a b : TabStopOrder} :
    a < b ↔ a.path < b.path ∨ a.path = b.path ∧ a.nodeInsertionIndex < b.nodeInsertionIndex :=
  Prod.Lex.toLex_lt_toLex

instance : LawfulSummary TabStopOrderNodeSummary where
  zero_add _ := TabStopOrderNodeSummary.ext rfl rfl (Nat.zero_add _)
  add_assoc _ _ _ := TabStopOrderNodeSummary.ext rfl rfl (Nat.add_assoc _ _ _)

instance : LawfulDimension TabStopOrder TabStopOrderNodeSummary where
  add_zero := rfl
  add_add _ _ := rfl

instance : LastKey TabStopNode TabStopOrderNodeSummary TabStopOrder where
  addSummary_eq _ _ := rfl

theorem zero_lt_key {node : TabStopNode} (h : node.path ≠ []) :
    (Dimension.zero TabStopOrderNodeSummary : TabStopOrder) < KeyedItem.key node := by
  rw [TabStopOrder.lt_iff]
  obtain ⟨i, path, hpath⟩ := List.exists_cons_of_ne_nil h
  refine Or.inl ?_
  show [] < node.path
  rw [hpath]
  exact List.nil_lt_cons i path

/-! ### What a run inserts -/

/-- The path of the groups that are open behind some operations. -/
def openPath : TabStopPath → List TabStopOperation → TabStopPath
  | path, [] => path
  | path, .insert _ :: operations => openPath path operations
  | path, .group tabIndex :: operations => openPath (path ++ [tabIndex]) operations
  | path, .groupEnd :: operations => openPath path.dropLast operations

/-- The handles that some operations insert behind `n` others, in the groups of a path. -/
def insertedFrom : TabStopPath → ℕ → List TabStopOperation → List (FocusHandle × TabStopOrder)
  | _, _, [] => []
  | path, n, .insert focusHandle :: operations =>
    (focusHandle, ⟨path ++ [focusHandle.tabIndex], n⟩) :: insertedFrom path (n + 1) operations
  | path, n, .group tabIndex :: operations =>
    insertedFrom (path ++ [tabIndex]) (n + 1) operations
  | path, n, .groupEnd :: operations => insertedFrom path.dropLast (n + 1) operations

/-- The handles that a run inserts. -/
def inserted (operations : List TabStopOperation) : List (FocusHandle × TabStopOrder) :=
  insertedFrom [] 0 operations

/-- The handles that a run inserts, in order. -/
def inOrder (operations : List TabStopOperation) : List (FocusHandle × TabStopOrder) :=
  (inserted operations).insertionSort fun a b => a.2 ≤ b.2

/-- The handles that are tab stops. -/
def tabStops (entries : List (FocusHandle × TabStopOrder)) : List FocusHandle :=
  (entries.filter fun entry => entry.1.tabStop).map Prod.fst

/-- The tab stops that a run inserts, in order. -/
def tabOrder (operations : List TabStopOperation) : List FocusHandle :=
  tabStops (inOrder operations)

/-- The node of an inserted handle. -/
def node (entry : FocusHandle × TabStopOrder) : TabStopNode :=
  ⟨entry.2.path, entry.2.nodeInsertionIndex, entry.1.tabStop⟩

@[simp] theorem tabStop_node (entry : FocusHandle × TabStopOrder) :
    (node entry).tabStop = entry.1.tabStop := rfl

section Runs

variable {path : TabStopPath} {n : ℕ} {operations : List TabStopOperation}
  {entry : FocusHandle × TabStopOrder}

theorem openPath_append (path : TabStopPath) (operations more : List TabStopOperation) :
    openPath path (operations ++ more) = openPath (openPath path operations) more := by
  induction operations generalizing path with
  | nil => rfl
  | cons operation operations ih => cases operation <;> exact ih _

theorem insertedFrom_append (path : TabStopPath) (n : ℕ)
    (operations more : List TabStopOperation) :
    insertedFrom path n (operations ++ more) = insertedFrom path n operations ++
      insertedFrom (openPath path operations) (n + operations.length) more := by
  induction operations generalizing path n with
  | nil => rfl
  | cons operation operations ih =>
    cases operation <;>
      simp [insertedFrom, openPath, ih, Nat.add_comm, Nat.add_left_comm]

/-- What one more operation inserts. -/
theorem inserted_snoc (operations : List TabStopOperation) (operation : TabStopOperation) :
    inserted (operations ++ [operation]) = inserted operations ++
      insertedFrom (openPath [] operations) operations.length [operation] := by
  rw [inserted, insertedFrom_append, Nat.zero_add]
  rfl

/-- What an insertion behind some operations inserts. -/
def newEntry (operations : List TabStopOperation) (focusHandle : FocusHandle) :
    FocusHandle × TabStopOrder :=
  (focusHandle, ⟨openPath [] operations ++ [focusHandle.tabIndex], operations.length⟩)

theorem inserted_insert (operations : List TabStopOperation) (focusHandle : FocusHandle) :
    inserted (operations ++ [.insert focusHandle])
      = inserted operations ++ [newEntry operations focusHandle] :=
  inserted_snoc operations (.insert focusHandle)

theorem zero_lt_newEntry (operations : List TabStopOperation) (focusHandle : FocusHandle) :
    (Dimension.zero TabStopOrderNodeSummary : TabStopOrder)
      < KeyedItem.key (node (newEntry operations focusHandle)) :=
  zero_lt_key (by simp [node, newEntry])

theorem path_ne_nil (h : entry ∈ insertedFrom path n operations) : entry.2.path ≠ [] := by
  induction operations generalizing path n with
  | nil => exact absurd h List.not_mem_nil
  | cons operation operations ih =>
    cases operation with
    | insert focusHandle =>
      rcases List.mem_cons.mp h with rfl | h
      · simp
      · exact ih h
    | group tabIndex => exact ih h
    | groupEnd => exact ih h

theorem insertedFrom_history (h : entry ∈ insertedFrom path n operations) :
    n ≤ entry.2.nodeInsertionIndex ∧
      operations[entry.2.nodeInsertionIndex - n]? = some (.insert entry.1) := by
  induction operations generalizing path n with
  | nil => exact absurd h List.not_mem_nil
  | cons operation operations ih =>
    have hlater : ∀ {path}, entry ∈ insertedFrom path (n + 1) operations →
        n ≤ entry.2.nodeInsertionIndex ∧
          (operation :: operations)[entry.2.nodeInsertionIndex - n]? = some (.insert entry.1) := by
      intro path h
      obtain ⟨hle, hget⟩ := ih h
      refine ⟨by omega, ?_⟩
      rwa [show entry.2.nodeInsertionIndex - n = entry.2.nodeInsertionIndex - (n + 1) + 1 by omega,
        List.getElem?_cons_succ]
    cases operation with
    | insert focusHandle =>
      rcases List.mem_cons.mp h with rfl | h
      · simp
      · exact hlater h
    | group tabIndex => exact hlater h
    | groupEnd => exact hlater h

theorem inserted_history (h : entry ∈ inserted operations) :
    operations[entry.2.nodeInsertionIndex]? = some (.insert entry.1) := by
  simpa using (insertedFrom_history h).2

theorem inserted_index_lt (h : entry ∈ inserted operations) :
    entry.2.nodeInsertionIndex < operations.length :=
  (List.getElem?_eq_some_iff.mp (inserted_history h)).1

theorem inserted_pairwise (operations : List TabStopOperation) :
    (inserted operations).Pairwise fun a b => a.2.nodeInsertionIndex < b.2.nodeInsertionIndex := by
  induction operations using List.reverseRecOn with
  | nil => exact List.Pairwise.nil
  | append_singleton operations operation ih =>
    rw [inserted_snoc]
    refine List.pairwise_append.mpr ⟨ih, ?_, fun a ha b hb => ?_⟩
    · cases operation <;> simp [insertedFrom]
    · exact Nat.lt_of_lt_of_le (inserted_index_lt ha) (insertedFrom_history hb).1

end Runs

/-! ### The inserted handles in order -/

variable {operations : List TabStopOperation}

theorem inOrder_perm (operations : List TabStopOperation) :
    (inOrder operations).Perm (inserted operations) :=
  List.perm_insertionSort _ _

theorem mem_inOrder {entry : FocusHandle × TabStopOrder} :
    entry ∈ inOrder operations ↔ entry ∈ inserted operations :=
  (inOrder_perm operations).mem_iff

/-- No two inserted handles have the same order. -/
theorem inOrder_strict (operations : List TabStopOperation) :
    (inOrder operations).Pairwise fun a b => a.2 < b.2 := by
  have hle : (inOrder operations).Pairwise fun a b => a.2 ≤ b.2 := by
    have htotal : Std.Total fun a b : FocusHandle × TabStopOrder => a.2 ≤ b.2 :=
      ⟨fun a b => le_total a.2 b.2⟩
    have htrans : IsTrans (FocusHandle × TabStopOrder) fun a b => a.2 ≤ b.2 :=
      ⟨fun a b c => le_trans⟩
    exact List.pairwise_insertionSort _ _
  have hne : (inOrder operations).Pairwise fun a b => a.2 ≠ b.2 := by
    refine (inOrder_perm operations).symm.pairwise ?_ fun hab hba => hab hba.symm
    exact (inserted_pairwise operations).imp fun hlt heq =>
      Nat.ne_of_lt hlt (congrArg TabStopOrder.nodeInsertionIndex heq)
  exact hle.imp₂ (fun _ _ hle hne => lt_of_le_of_ne hle hne) hne

theorem head?_tabStops (entries : List (FocusHandle × TabStopOrder)) :
    (tabStops entries).head? = (entries.find? fun entry => entry.1.tabStop).map Prod.fst := by
  rw [tabStops, List.head?_map, List.head?_filter]

theorem reverse_tabStops (entries : List (FocusHandle × TabStopOrder)) :
    (tabStops entries).reverse = tabStops entries.reverse := by
  rw [tabStops, tabStops, List.filter_reverse, List.map_reverse]

theorem getLast?_tabStops (entries : List (FocusHandle × TabStopOrder)) :
    (tabStops entries).getLast?
      = (entries.reverse.find? fun entry => entry.1.tabStop).map Prod.fst := by
  rw [← List.head?_reverse, reverse_tabStops, head?_tabStops]

theorem head?_tabOrder (operations : List TabStopOperation) : (tabOrder operations).head?
    = ((inOrder operations).find? fun entry => entry.1.tabStop).map Prod.fst :=
  head?_tabStops _

theorem getLast?_tabOrder (operations : List TabStopOperation) : (tabOrder operations).getLast?
    = ((inOrder operations).reverse.find? fun entry => entry.1.tabStop).map Prod.fst :=
  getLast?_tabStops _

theorem tabOrder_split {pre post : List FocusHandle} {focusHandle : FocusHandle}
    (h : tabOrder operations = pre ++ focusHandle :: post) :
    ∃ before entry behind, inOrder operations = before ++ entry :: behind ∧
      entry.1 = focusHandle ∧ tabStops before = pre ∧ tabStops behind = post := by
  rw [tabOrder, tabStops] at h
  obtain ⟨front, back, hfilter, hfront, hback⟩ := List.map_eq_append_iff.mp h
  obtain ⟨entry, rest, rfl, hentry, hrest⟩ := List.map_eq_cons_iff.mp hback
  obtain ⟨l₁, l₂, hsplit, hl₁, hl₂⟩ := List.filter_eq_append_iff.mp hfilter
  obtain ⟨skipped, behind, rfl, hskipped, -, hbehind⟩ := List.filter_eq_cons_iff.mp hl₂
  refine ⟨l₁ ++ skipped, entry, behind, by rw [hsplit, List.append_assoc], hentry, ?_, ?_⟩
  · rw [tabStops, List.filter_append, List.filter_eq_nil_iff.mpr hskipped, List.append_nil, hl₁]
    exact hfront
  · rw [tabStops, hbehind]
    exact hrest

end TabStop

end Zui
