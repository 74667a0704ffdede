/-
The shortcuts that are displayed for an action.

`highestPrecedenceBindingForAction` walks the bindings of an action, in the order of the
keymap, without those that a later `NoAction` or `Unbind` hides, and asks of each whether
its own keystrokes dispatch the action.  `bindingsForInput` has other rules for what
disables a binding: it looks at the depths of the contexts, and only a `NoAction` of the
user disables something.

* `head?_bindingsForInput` — the first binding of an input is the one that wins it;
* `exists_wins_iff` — an action that some input dispatches wins the keystrokes of one of
  its own bindings;
* `shortcut_fires` — what is displayed is the last of the bindings for the action, and its
  keystrokes dispatch the action;
* `displays_iff` — something is displayed for the actions that some input dispatches,
  unless an action is withheld: every binding of it that would do is hidden.
-/
import Zui.Keys.Pending
import Zui.Keys.Superset

namespace Zui.Keys

/-! ### The keymap with its indices -/

/-- `disabled_binding_matches_context`. -/
def disabledBindingMatchesContext (disabledBinding binding : KeyBinding) : Bool :=
  match disabledBinding.contextPredicate, binding.contextPredicate with
  | none, _ => true
  | some _, none => false
  | some disabledPredicate, some predicate => disabledPredicate.isSuperset predicate

/-- The type of an action. -/
inductive ActionId
  | noAction
  | unbind
  | named (name : String)
  deriving DecidableEq, Repr

/-- `type_id`. -/
def Action.typeId : Action → ActionId
  | noAction => .noAction
  | unbind _ => .unbind
  | named name _ => .named name

/-- The action disables other bindings. -/
def KeyBinding.disables (self : KeyBinding) : Bool :=
  self.action.isNoAction || self.action.isUnbind

/-- The action has the type, and does not disable other bindings. -/
def KeyBinding.hasType (self : KeyBinding) (actionId : ActionId) : Bool :=
  !self.disables && self.action.typeId = actionId

/-- The indices of the bindings that the test picks out. -/
def indicesOf (test : KeyBinding → Bool) (bindings : List KeyBinding) : List ℕ :=
  (bindings.zipIdx.filter fun entry => test entry.1).map Prod.snd

theorem indicesOf_concat (test : KeyBinding → Bool) (bindings : List KeyBinding)
    (binding : KeyBinding) :
    indicesOf test (bindings ++ [binding]) =
      indicesOf test bindings ++ if test binding then [bindings.length] else [] := by
  rw [indicesOf, List.zipIdx_append, List.filter_append, List.map_append]
  by_cases h : test binding <;> simp [indicesOf, h]

theorem mem_indicesOf {test : KeyBinding → Bool} {bindings : List KeyBinding} {ix : ℕ} :
    ix ∈ indicesOf test bindings ↔ ∃ b, bindings[ix]? = some b ∧ test b = true := by
  simp [indicesOf, List.mk_mem_zipIdx_iff_getElem?]

/-- `Keymap`, with the indices that it keeps: those of the bindings of a type, and those of
the bindings that disable others. -/
structure IndexedKeymap extends Keymap where
  bindingIndicesByActionId : ActionId → List ℕ
  disabledBindingIndices : List ℕ
  byActionId : ∀ actionId, bindingIndicesByActionId actionId =
    indicesOf (fun b => b.hasType actionId) bindings
  disabled : disabledBindingIndices = indicesOf KeyBinding.disables bindings

namespace IndexedKeymap

/-- `default`. -/
def empty : IndexedKeymap where
  bindings := []
  bindingIndicesByActionId _ := []
  disabledBindingIndices := []
  byActionId _ := rfl
  disabled := rfl

/-- The body of the loop of `add_bindings`. -/
def addBinding (self : IndexedKeymap) (binding : KeyBinding) : IndexedKeymap where
  bindings := self.bindings ++ [binding]
  bindingIndicesByActionId actionId :=
    if !binding.disables && binding.action.typeId = actionId
      then self.bindingIndicesByActionId actionId ++ [self.bindings.length]
      else self.bindingIndicesByActionId actionId
  disabledBindingIndices :=
    if binding.disables then self.disabledBindingIndices ++ [self.bindings.length]
      else self.disabledBindingIndices
  byActionId actionId := by
    rw [indicesOf_concat, self.byActionId, KeyBinding.hasType]
    split <;> simp
  disabled := by
    rw [indicesOf_concat, self.disabled]
    split <;> simp

/-- `add_bindings`. -/
def addBindings (self : IndexedKeymap) (bindings : List KeyBinding) : IndexedKeymap :=
  bindings.foldl addBinding self

/-- `new`. -/
def new (bindings : List KeyBinding) : IndexedKeymap :=
  empty.addBindings bindings

end IndexedKeymap

/-- A binding that disables others hides a binding with the same keystrokes. -/
def KeyBinding.hides (self binding : KeyBinding) : Bool :=
  self.keystrokes = binding.keystrokes &&
    if self.action.isNoAction then disabledBindingMatchesContext self binding
    else self.action.isUnbind && disabledBindingMatchesContext self binding &&
      bindingIsUnbound self binding

/-- `Keymap::bindings_for_action`. -/
def IndexedKeymap.bindingsForAction (self : IndexedKeymap) (action : Action) : List KeyBinding :=
  (self.bindingIndicesByActionId action.typeId).filterMap fun ix => do
    let binding ← self.bindings[ix]?
    if binding.action ≠ action then none
    else if self.disabledBindingIndices.any fun disabledIx =>
        disabledIx > ix && (self.bindings[disabledIx]?).any fun d => d.hides binding
      then none
      else some binding

namespace DispatchTree

/-- The keystrokes of the binding, as an input. -/
def inputOf (binding : KeyBinding) : List Keystroke :=
  binding.keystrokes.map KeybindingKeystroke.inner

/-- `binding_matches_predicate_and_not_shadowed`. -/
def bindingMatchesPredicateAndNotShadowed (keymap : Keymap) (binding : KeyBinding)
    (contextStack : List KeyContext) : Bool :=
  match (keymap.bindingsForInput (inputOf binding) contextStack).1.head? with
  | some found => found.action = binding.action
  | none => false

/-- `DispatchTree::bindings_for_action`, on the keymap of the tree. -/
def bindingsForAction (keymap : IndexedKeymap) (action : Action)
    (contextStack : List KeyContext) : List KeyBinding :=
  (keymap.bindingsForAction action).filter fun binding =>
    bindingMatchesPredicateAndNotShadowed keymap.toKeymap binding contextStack

/-- `highest_precedence_binding_for_action`, on the keymap of the tree. -/
def highestPrecedenceBindingForAction (keymap : IndexedKeymap) (action : Action)
    (contextStack : List KeyContext) : Option KeyBinding :=
  (keymap.bindingsForAction action).reverse.find? fun binding =>
    bindingMatchesPredicateAndNotShadowed keymap.toKeymap binding contextStack

end DispatchTree

/-! ### The first binding of an input -/

namespace Keymap

variable {self : Keymap} {input : List Keystroke} {contextStack : List KeyContext} {m d : Match}

/-- The binding acts, and nothing of greater precedence disables it. -/
structure Stands (keymap : Keymap) (input : List Keystroke) (contextStack : List KeyContext)
    (m : Match) : Prop where
  candidate : keymap.Candidate input contextStack false m
  acts : m.Acts
  free : ∀ d, keymap.Candidate input contextStack false d → d.Precedes m → ¬ d.Disables m

/-- The binding stands, and takes precedence over all others that stand. -/
structure Wins (keymap : Keymap) (input : List Keystroke) (contextStack : List KeyContext)
    (m : Match) : Prop extends Stands keymap input contextStack m where
  first : ∀ m', Stands keymap input contextStack m' → m.Precedes m'

theorem mem_collected : m ∈ collectBindings (self.sortedMatches input contextStack) [] ↔
    self.Stands input contextStack m := by
  rw [mem_collectBindings, survives_sortedMatches]
  exact ⟨fun ⟨hcand, hacts, hfree⟩ => ⟨hcand, hacts, hfree⟩,
    fun ⟨hcand, hacts, hfree⟩ => ⟨hcand, hacts, hfree⟩⟩

theorem collectBindings_sublist (ms : List Match) (unbound : List KeyBinding) :
    (collectBindings ms unbound).Sublist ms := by
  induction ms generalizing unbound with
  | nil => exact List.Sublist.refl _
  | cons a ms ih =>
    rw [collectBindings]
    split
    · split
      · exact List.nil_sublist _
      · exact (ih _).cons a
    · split
      · exact (ih _).cons a
      · split
        · exact (ih _).cons a
        · exact (ih _).cons_cons a

theorem collected_sorted :
    (collectBindings (self.sortedMatches input contextStack) []).Pairwise Match.Precedes :=
  sortedMatches_sorted.sublist (collectBindings_sublist _ _)

theorem Candidate.antisymm (hm : self.Candidate input contextStack false m)
    (hd : self.Candidate input contextStack false d) (h : m.Precedes d) (h' : d.Precedes m) :
    m = d := by
  refine hm.eq_of_ix hd ?_
  unfold Match.Precedes at h h'
  omega

theorem head?_collected :
    (collectBindings (self.sortedMatches input contextStack) []).head? = some m ↔
      self.Wins input contextStack m := by
  have hsorted : (collectBindings (self.sortedMatches input contextStack) []).Pairwise
    Match.Precedes := collected_sorted
  have hwins : ∀ {m}, (collectBindings (self.sortedMatches input contextStack) []).head? = some m →
      self.Wins input contextStack m := by
    intro m hhead
    obtain ⟨rest, hrest⟩ := List.head?_eq_some_iff.mp hhead
    refine ⟨mem_collected.mp (hrest ▸ List.mem_cons_self), fun m' hm' => ?_⟩
    rw [← mem_collected, hrest, List.mem_cons] at hm'
    rw [hrest] at hsorted
    rcases hm' with rfl | hm'
    · exact .inr ⟨rfl, le_rfl⟩
    · exact (List.pairwise_cons.mp hsorted).1 m' hm'
  refine ⟨hwins, fun h => ?_⟩
  obtain ⟨m', hhead⟩ := Option.isSome_iff_exists.mp
    (List.isSome_head?.mpr (List.ne_nil_of_mem (mem_collected.mpr h.toStands)))
  have h' := hwins hhead
  rw [hhead, h.candidate.antisymm h'.candidate (h.first m' h'.toStands) (h'.first m h.toStands)]

/-- The first binding of an input is the one that wins it. -/
theorem head?_bindingsForInput {binding : KeyBinding} :
    (self.bindingsForInput input contextStack).1.head? = some binding ↔
      ∃ m, self.Wins input contextStack m ∧ m.binding = binding := by
  rw [bindingsForInput, List.head?_map, Option.map_eq_some_iff]
  simp only [head?_collected]

/-- A binding that wins some input wins its own keystrokes, typed without characters. -/
theorem Wins.typedOf (h : self.Wins input contextStack m) :
    self.Wins (typedOf m.binding.keystrokes) contextStack m := by
  have hchar : ∀ t ∈ Keymap.typedOf m.binding.keystrokes, t.keyChar = none := by
    intro t ht
    obtain ⟨k, -, rfl⟩ := List.mem_map.mp ht
    rfl
  obtain ⟨front, rest, hks, htyped, hrest⟩ := matchKeystrokes_iff.mp h.candidate.keystrokes
  obtain rfl : rest = [] := by simpa using hrest
  rw [List.append_nil] at hks
  subst hks
  have hown : self.Candidate (Keymap.typedOf m.binding.keystrokes) contextStack false m :=
    ⟨h.candidate.binding, h.candidate.depth, matchKeystrokes_iff.mpr
      ⟨_, [], (List.append_nil _).symm, typed_typedOf _, rfl⟩⟩
  -- What matches the strokes of `m` matches the input as well.
  have hlift : ∀ {d}, self.Candidate (Keymap.typedOf m.binding.keystrokes) contextStack false d →
      self.Candidate input contextStack false d := by
    intro d hd
    obtain ⟨front', rest', hks', htyped', hrest'⟩ := matchKeystrokes_iff.mp hd.keystrokes
    obtain rfl : rest' = [] := by simpa using hrest'
    rw [List.append_nil] at hks'
    subst hks'
    have hstrokes : strokes d.binding.keystrokes = strokes m.binding.keystrokes :=
      (strokes_of_typed hchar htyped').trans (strokes_of_typed hchar (typed_typedOf _)).symm
    exact ⟨hd.binding, hd.depth, matchKeystrokes_iff.mpr
      ⟨_, [], (List.append_nil _).symm, typed_congr hstrokes.symm htyped, rfl⟩⟩
  refine ⟨⟨hown, h.acts, fun d hd => h.free d (hlift hd)⟩, fun m' hm' => ?_⟩
  by_contra hbehind
  have hprecedes : m'.Precedes m := by
    unfold Match.Precedes at hbehind ⊢
    omega
  -- Whatever disables `m'` for the input disables `m`, or has the strokes of `m`.
  refine hbehind (h.first m' ⟨hlift hm'.candidate, hm'.acts, fun d hd hbefore hdis => ?_⟩)
  rcases hdis with huser | hunbound
  · refine h.free d hd ?_ (.inl huser)
    unfold Match.Precedes at hbefore hprecedes ⊢
    omega
  · have hks : d.binding.keystrokes = m'.binding.keystrokes := by
      rw [bindingIsUnbound, Bool.and_eq_true, decide_eq_true_eq] at hunbound
      exact hunbound.1
    refine hm'.free d ⟨hd.binding, hd.depth, ?_⟩ hbefore (.inr hunbound)
    rw [KeyBinding.matchKeystrokes, hks]
    exact hm'.candidate.keystrokes

end Keymap

/-! ### What is displayed -/

/-- The input dispatches the action: it is that of the first binding. -/
def Keymap.Dispatches (self : Keymap) (input : List Keystroke) (contextStack : List KeyContext)
    (action : Action) : Prop :=
  (self.bindingsForInput input contextStack).1.head?.map KeyBinding.action = some action

/-- A later entry of the keymap hides the binding with the index. -/
def Keymap.Hidden (self : Keymap) (ix : ℕ) (binding : KeyBinding) : Prop :=
  ∃ disabledIx d, ix < disabledIx ∧ self.bindings[disabledIx]? = some d ∧ d.hides binding = true

section Displayed

variable {keymap : IndexedKeymap} {input : List Keystroke} {contextStack : List KeyContext}
  {action : Action} {binding : KeyBinding}

theorem Keymap.dispatches_iff {keymap : Keymap} : keymap.Dispatches input contextStack action ↔
    ∃ m, keymap.Wins input contextStack m ∧ m.binding.action = action := by
  rw [Keymap.Dispatches, Option.map_eq_some_iff]
  simp only [Keymap.head?_bindingsForInput]
  constructor
  · rintro ⟨b, ⟨m, hm, rfl⟩, haction⟩
    exact ⟨m, hm, haction⟩
  · rintro ⟨m, hm, haction⟩
    exact ⟨m.binding, ⟨m, hm, rfl⟩, haction⟩

/-- An action that some input dispatches wins the keystrokes of one of its bindings. -/
theorem Keymap.exists_wins_iff {keymap : Keymap} :
    (∃ input, keymap.Dispatches input contextStack action) ↔
      ∃ m, m.binding.action = action ∧
        keymap.Wins (Keymap.typedOf m.binding.keystrokes) contextStack m := by
  simp only [Keymap.dispatches_iff]
  constructor
  · rintro ⟨input, m, hm, haction⟩
    exact ⟨m, haction, hm.typedOf⟩
  · rintro ⟨m, haction, hm⟩
    exact ⟨_, m, hm, haction⟩

theorem KeyBinding.disables_of_hides {d : KeyBinding} (h : d.hides binding = true) :
    d.disables = true := by
  simp only [KeyBinding.hides, Bool.and_eq_true] at h
  rw [KeyBinding.disables, Bool.or_eq_true]
  by_cases hno : d.action.isNoAction = true
  · exact .inl hno
  · rw [if_neg hno, Bool.and_eq_true, Bool.and_eq_true] at h
    exact .inr h.2.1.1

theorem mem_bindingsForAction : binding ∈ keymap.bindingsForAction action ↔
    ∃ ix, keymap.bindings[ix]? = some binding ∧ binding.disables = false ∧
      binding.action = action ∧ ¬ keymap.Hidden ix binding := by
  have hhidden : ∀ ix b, (keymap.disabledBindingIndices.any fun disabledIx =>
      decide (disabledIx > ix) && (keymap.bindings[disabledIx]?).any fun d => d.hides b) = true ↔
      keymap.Hidden ix b := by
    intro ix b
    rw [List.any_eq_true, keymap.disabled]
    simp only [mem_indicesOf, Bool.and_eq_true, decide_eq_true_eq, Option.any_eq_true]
    constructor
    · rintro ⟨disabledIx, -, hlt, d, hd, hhides⟩
      exact ⟨disabledIx, d, hlt, hd, hhides⟩
    · rintro ⟨disabledIx, d, hlt, hd, hhides⟩
      exact ⟨disabledIx, ⟨d, hd, KeyBinding.disables_of_hides hhides⟩, hlt, d, hd, hhides⟩
  simp only [IndexedKeymap.bindingsForAction, List.mem_filterMap, keymap.byActionId,
    mem_indicesOf, KeyBinding.hasType, Bool.and_eq_true, Bool.not_eq_true', decide_eq_true_eq]
  constructor
  · rintro ⟨ix, ⟨b, hb, hacts, -⟩, hsome⟩
    simp only [hb, Option.bind_eq_bind, Option.bind_some] at hsome
    split at hsome
    · exact absurd hsome (by simp)
    · rename_i haction
      split at hsome
      · exact absurd hsome (by simp)
      · rename_i hany
        obtain rfl := Option.some_inj.mp hsome
        exact ⟨ix, hb, hacts, not_not.mp haction, fun h => hany ((hhidden ix b).mpr h)⟩
  · rintro ⟨ix, hb, hacts, rfl, hshown⟩
    refine ⟨ix, ⟨binding, hb, hacts, rfl⟩, ?_⟩
    simp only [hb, Option.bind_eq_bind, Option.bind_some]
    rw [if_neg (not_not.mpr rfl), if_neg (fun h => hshown ((hhidden ix binding).mp h))]

namespace DispatchTree

theorem matches_iff {keymap : Keymap} :
    bindingMatchesPredicateAndNotShadowed keymap binding contextStack = true ↔
      keymap.Dispatches (inputOf binding) contextStack binding.action := by
  rw [bindingMatchesPredicateAndNotShadowed, Keymap.Dispatches]
  cases (keymap.bindingsForInput (inputOf binding) contextStack).1.head? with
  | none => simp
  | some found => simp

theorem highest_eq_getLast? :
    highestPrecedenceBindingForAction keymap action contextStack =
      (bindingsForAction keymap action contextStack).getLast? := by
  rw [highestPrecedenceBindingForAction, bindingsForAction, ← List.head?_reverse,
    ← List.filter_reverse, List.head?_filter]

theorem mem_bindingsForAction_iff : binding ∈ bindingsForAction keymap action contextStack ↔
    ∃ ix, keymap.bindings[ix]? = some binding ∧ binding.action = action ∧
      ¬ keymap.Hidden ix binding ∧
        keymap.Dispatches (inputOf binding) contextStack action := by
  rw [bindingsForAction, List.mem_filter, mem_bindingsForAction, matches_iff]
  constructor
  · rintro ⟨⟨ix, hb, -, rfl, hshown⟩, hdispatches⟩
    exact ⟨ix, hb, rfl, hshown, hdispatches⟩
  · rintro ⟨ix, hb, rfl, hshown, hdispatches⟩
    refine ⟨⟨ix, hb, ?_, rfl, hshown⟩, hdispatches⟩
    -- The binding that is found acts, and has the same action.
    obtain ⟨m, hm, haction⟩ := Keymap.dispatches_iff.mp hdispatches
    obtain ⟨hno, hunbind⟩ := hm.acts
    rw [KeyBinding.disables, ← haction, hno, hunbind]
    rfl

/-- What is displayed is the last of the bindings for the action, and its keystrokes
dispatch the action. -/
theorem shortcut_fires (keymap : IndexedKeymap) (action : Action)
    (contextStack : List KeyContext) (binding : KeyBinding) :
    highestPrecedenceBindingForAction keymap action contextStack = some binding ↔
      keymap.Dispatches (inputOf binding) contextStack action ∧
        (bindingsForAction keymap action contextStack).getLast? = some binding := by
  rw [highest_eq_getLast?]
  refine ⟨fun h => ⟨?_, h⟩, And.right⟩
  obtain ⟨ix, -, -, -, hdispatches⟩ :=
    mem_bindingsForAction_iff.mp (List.mem_of_getLast? h)
  exact hdispatches

theorem isSome_highest : (highestPrecedenceBindingForAction keymap action contextStack).isSome ↔
    ∃ binding ix, keymap.bindings[ix]? = some binding ∧ binding.action = action ∧
      ¬ keymap.Hidden ix binding ∧
        keymap.Dispatches (inputOf binding) contextStack action := by
  rw [highest_eq_getLast?, List.getLast?_isSome]
  simp only [← mem_bindingsForAction_iff]
  exact ⟨List.exists_mem_of_ne_nil _, fun ⟨b, hb⟩ => List.ne_nil_of_mem hb⟩

end DispatchTree

end Displayed

/-- The shortcut of the action is displayed just when some input dispatches the action, and
what is displayed is the last of its bindings, with keystrokes that dispatch it. -/
structure Displays (keymap : IndexedKeymap) (action : Action) (contextStack : List KeyContext) :
    Prop where
  displayed : (DispatchTree.highestPrecedenceBindingForAction keymap action contextStack).isSome ↔
    ∃ input, keymap.Dispatches input contextStack action
  shortcut : ∀ binding,
    DispatchTree.highestPrecedenceBindingForAction keymap action contextStack = some binding ↔
      keymap.Dispatches (DispatchTree.inputOf binding) contextStack action ∧
        (DispatchTree.bindingsForAction keymap action contextStack).getLast? = some binding

/-- The shortcut of the action is withheld: one of its bindings wins its keystrokes, and a
later entry hides each of its bindings for whose keystrokes a binding of it wins. -/
structure Withheld (keymap : Keymap) (action : Action) (contextStack : List KeyContext) :
    Prop where
  wins : ∃ m : Keymap.Match, m.binding.action = action ∧
    keymap.Wins (Keymap.typedOf m.binding.keystrokes) contextStack m
  hidden : ∀ ix binding, keymap.bindings[ix]? = some binding → binding.action = action →
    (∃ m, keymap.Wins (DispatchTree.inputOf binding) contextStack m ∧
      m.binding.action = action) → keymap.Hidden ix binding

/-- **Displayed shortcuts.**  For every keymap, action and context stack, the shortcut that
is displayed is the one that fires, unless the shortcut of the action is withheld. -/
theorem displays_iff (keymap : IndexedKeymap) (action : Action)
    (contextStack : List KeyContext) :
    Displays keymap action contextStack ↔ ¬ Withheld keymap.toKeymap action contextStack := by
  constructor
  · rintro ⟨hdisplayed, -⟩ ⟨hwins, hhidden⟩
    obtain ⟨binding, ix, hb, haction, hshown, hdispatches⟩ :=
      DispatchTree.isSome_highest.mp (hdisplayed.mpr (Keymap.exists_wins_iff.mpr hwins))
    exact hshown (hhidden ix binding hb haction (Keymap.dispatches_iff.mp hdispatches))
  · intro hnot
    refine ⟨⟨fun h => ?_, fun h => ?_⟩, DispatchTree.shortcut_fires keymap action contextStack⟩
    · obtain ⟨binding, ix, -, -, -, hdispatches⟩ := DispatchTree.isSome_highest.mp h
      exact ⟨_, hdispatches⟩
    · by_contra hnone
      refine hnot ⟨Keymap.exists_wins_iff.mp h, fun ix binding hb haction hwins => ?_⟩
      by_contra hshown
      exact hnone (DispatchTree.isSome_highest.mpr
        ⟨binding, ix, hb, haction, hshown, Keymap.dispatches_iff.mpr hwins⟩)

/-- A binding, and behind it a `NoAction` that is not one of the user. -/
def disabledBase : IndexedKeymap :=
  .new [⟨.named "alpha", [⟨ctrlKey "x"⟩], none, none⟩, ⟨.noAction, [⟨ctrlKey "x"⟩], none, some 1⟩]

/-- The key dispatches the action, and no shortcut is displayed for it. -/
theorem not_displays : ¬ Displays disabledBase (.named "alpha") [] := by
  rintro ⟨hdisplayed, -⟩
  have hsome : (DispatchTree.highestPrecedenceBindingForAction disabledBase (.named "alpha")
      []).isSome = true := by
    refine hdisplayed.mpr ⟨[ctrlKey "x"], ?_⟩
    unfold Keymap.Dispatches
    decide
  exact absurd hsome (by decide)

end Zui.Keys
