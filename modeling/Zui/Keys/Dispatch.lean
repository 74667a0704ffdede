/-
Dispatching keystrokes: which of them wait, which have bindings and which are replayed.

`dispatchKey` gets the keystrokes that wait and the next one.  As long as the sequence
is neither pending nor bound, `replayPrefix` takes its longest bound prefix away, or its
first keystroke when no prefix is bound, and the rest is tried again.

* `Replayed` — the entries to replay stand for consecutive segments of the keystrokes;
* `keystrokes_accounted` — nothing is lost and nothing is duplicated.

The nodes of the tree are represented by their contexts only.
-/
import Zui.Gpui.Basic
import Zui.Keys.Pending

namespace Zui.Keys

open Zui.Gpui

/-- `DispatchNode`. -/
structure DispatchNode where
  context : Option KeyContext

/-- `DispatchTree`. -/
structure DispatchTree where
  nodes : List DispatchNode
  keymap : Keymap

/-- `Replay`. -/
structure Replay where
  keystroke : Keystroke
  bindings : List KeyBinding
  deriving DecidableEq, Repr

/-- `DispatchResult`. -/
structure DispatchResult where
  pending : List Keystroke
  pendingHasBinding : Bool
  bindings : List KeyBinding
  toReplay : List Replay
  contextStack : List KeyContext
  deriving DecidableEq, Repr

namespace DispatchTree

/-- The contexts along a dispatch path.  `node` panics at an id that is not there. -/
def contextStack (self : DispatchTree) (dispatchPath : List ℕ) : Result (List KeyContext) := do
  let nodes ← dispatchPath.mapM (index self.nodes)
  pure (nodes.filterMap DispatchNode.context)

/-- `DispatchTree::bindings_for_input`. -/
def bindingsForInput (self : DispatchTree) (input : List Keystroke) (dispatchPath : List ℕ) :
    Result (List KeyBinding × Bool × List KeyContext) := do
  let contextStack ← self.contextStack dispatchPath
  let (bindings, pending) := self.keymap.bindingsForInput input contextStack
  pure (bindings, pending, contextStack)

/-- The loop of `replay_prefix`, over the prefixes of `count` keystrokes and less: the
index of the last keystroke of the first one that has bindings, with these. -/
def boundPrefix (self : DispatchTree) (input : List Keystroke) (dispatchPath : List ℕ) :
    (count : ℕ) → Result (Option (ℕ × List KeyBinding))
  | 0 => pure none
  | last + 1 => do
    let (bindings, _, _) ← self.bindingsForInput (input.take (last + 1)) dispatchPath
    if bindings.isEmpty then self.boundPrefix input dispatchPath last
    else pure (some (last, bindings))

/-- What `replay_prefix` takes from the front of the input: the bound prefix that was
found, or the first keystroke. -/
def drain (input : List Keystroke) : Option (ℕ × List KeyBinding) →
    Result (List Keystroke × List Replay)
  | some (last, bindings) =>
    match (input.take (last + 1)).getLast? with
    | some keystroke => .ok (input.drop (last + 1), [⟨keystroke, bindings⟩])
    | none => .error .unwrapNone
  | none =>
    match input with
    | keystroke :: suffix => .ok (suffix, [⟨keystroke, []⟩])
    | [] => .error .indexOutOfBounds

/-- `replay_prefix`. -/
def replayPrefix (self : DispatchTree) (input : List Keystroke) (dispatchPath : List ℕ) :
    Result (List Keystroke × List Replay) := do
  let found ← self.boundPrefix input dispatchPath input.length
  drain input found

theorem drain_length {input suffix : List Keystroke} {found : Option (ℕ × List KeyBinding)}
    {toReplay : List Replay} (h : drain input found = .ok (suffix, toReplay)) :
    suffix.length < input.length := by
  cases input with
  | nil =>
    -- There is nothing to drain.
    cases found with
    | none => cases h
    | some last => simp [drain] at h
  | cons keystroke rest =>
    cases found with
    | none =>
      obtain ⟨rfl, -⟩ : rest = suffix ∧ [⟨keystroke, []⟩] = toReplay := by simpa [drain] using h
      simp
    | some last =>
      rw [drain] at h
      split at h
      · obtain ⟨rfl, -⟩ := Prod.mk.inj (Except.ok.inj h)
        simp only [List.length_drop, List.length_cons]
        omega
      · cases h

theorem replayPrefix_length {self : DispatchTree} {input : List Keystroke}
    {dispatchPath : List ℕ} {suffix : List Keystroke} {toReplay : List Replay}
    (h : self.replayPrefix input dispatchPath = .ok (suffix, toReplay)) :
    suffix.length < input.length := by
  obtain ⟨found, -, hdrain⟩ := bind_eq_ok.mp h
  exact drain_length hdrain

/-- `dispatch_key`. -/
def dispatchKey (self : DispatchTree) (input : List Keystroke) (keystroke : Keystroke)
    (dispatchPath : List ℕ) : Result DispatchResult := do
  let pushed := input ++ [keystroke]
  let (bindings, pending, contextStack) ← self.bindingsForInput pushed dispatchPath
  if pending then
    pure ⟨pushed, !bindings.isEmpty, [], [], contextStack⟩
  else if !bindings.isEmpty then
    pure ⟨[], false, bindings, [], contextStack⟩
  else if pushed.length = 1 then
    pure ⟨[], false, [], [], contextStack⟩
  else
    match _hreplay : self.replayPrefix pushed.dropLast dispatchPath with
    | .error e => throw e
    | .ok (suffix, toReplay) => do
      let result ← self.dispatchKey suffix keystroke dispatchPath
      pure { result with toReplay := toReplay ++ result.toReplay }
termination_by input.length
decreasing_by
  have hlt := replayPrefix_length _hreplay
  simpa [pushed] using hlt

/-- `flush_dispatch`. -/
def flushDispatch (self : DispatchTree) (input : List Keystroke) (dispatchPath : List ℕ) :
    Result (List Replay) :=
  match _hreplay : self.replayPrefix input dispatchPath with
  | .error e => throw e
  | .ok (suffix, toReplay) =>
    if suffix.isEmpty then pure toReplay
    else do
      let flushed ← self.flushDispatch suffix dispatchPath
      pure (toReplay ++ flushed)
termination_by input.length
decreasing_by exact replayPrefix_length _hreplay

/-! ### Segments -/

/-- The bindings of a segment, each of which matches the whole of it. -/
structure Handles (keymap : Keymap) (contextStack : List KeyContext) (segment : List Keystroke)
    (bindings : List KeyBinding) : Prop where
  result : (keymap.bindingsForInput segment contextStack).1 = bindings
  whole : ∀ binding ∈ bindings, binding.matchKeystrokes segment = some false
  bound : bindings ≠ []

/-- The entries stand for consecutive segments of the keystrokes: an entry with bindings
for the segment that these match, one without for a single keystroke. -/
inductive Replayed (keymap : Keymap) (contextStack : List KeyContext) :
    List Keystroke → List Replay → Prop
  | nil : Replayed keymap contextStack [] []
  | matched {segment rest : List Keystroke} {keystroke : Keystroke} {bindings : List KeyBinding}
      {replays : List Replay} (hbindings : Handles keymap contextStack segment bindings)
      (hlast : segment.getLast? = some keystroke)
      (hrest : Replayed keymap contextStack rest replays) :
      Replayed keymap contextStack (segment ++ rest) (⟨keystroke, bindings⟩ :: replays)
  | single {keystroke : Keystroke} {rest : List Keystroke} {replays : List Replay}
      (hrest : Replayed keymap contextStack rest replays) :
      Replayed keymap contextStack (keystroke :: rest) (⟨keystroke, []⟩ :: replays)

/-- What becomes of the keystrokes that are not replayed: they are pending, or handled by
the bindings, or the last keystroke alone without bindings. -/
inductive Handled (keymap : Keymap) (contextStack : List KeyContext) (keystroke : Keystroke) :
    (tail pending : List Keystroke) → (bindings : List KeyBinding) → Prop
  | pending {tail : List Keystroke} (htail : tail ≠ []) :
      Handled keymap contextStack keystroke tail tail []
  | bindings {tail : List Keystroke} {bindings : List KeyBinding} (htail : tail ≠ [])
      (hbindings : Handles keymap contextStack tail bindings) :
      Handled keymap contextStack keystroke tail [] bindings
  | unbound : Handled keymap contextStack keystroke [keystroke] [] []

variable {self : DispatchTree} {dispatchPath : List ℕ} {stack : List KeyContext}
  {input : List Keystroke}

theorem contextStack_ok (hpath : ∀ id ∈ dispatchPath, id < self.nodes.length) :
    ∃ stack, self.contextStack dispatchPath = .ok stack := by
  have hnode : ∀ id ∈ dispatchPath, ∃ node, index self.nodes id = .ok node ∧ True := by
    intro id hid
    have hlt := hpath id hid
    exact ⟨self.nodes[id], index_ok (List.getElem?_eq_getElem hlt), trivial⟩
  obtain ⟨nodes, hnodes, -⟩ := mapM_ok hnode
  exact ⟨nodes.filterMap DispatchNode.context, by rw [contextStack, hnodes]; rfl⟩

theorem bindingsForInput_ok (hstack : self.contextStack dispatchPath = .ok stack)
    (input : List Keystroke) :
    self.bindingsForInput input dispatchPath =
      .ok ((self.keymap.bindingsForInput input stack).1,
        (self.keymap.bindingsForInput input stack).2, stack) := by
  rw [bindingsForInput, hstack]
  rfl

theorem handles_of_ne_nil {keymap : Keymap} {segment : List Keystroke}
    (hne : (keymap.bindingsForInput segment stack).1 ≠ []) :
    Handles keymap stack segment (keymap.bindingsForInput segment stack).1 := by
  refine ⟨rfl, fun binding hmem => ?_, hne⟩
  obtain ⟨m, hm, rfl⟩ := List.mem_map.mp hmem
  obtain ⟨pre, post, hms, -⟩ := Keymap.mem_collectBindings.mp hm
  have hmem : m ∈ keymap.sortedMatches segment stack := by simp [hms]
  exact (Keymap.mem_sortedMatches.mp hmem).keystrokes

theorem boundPrefix_ok (hstack : self.contextStack dispatchPath = .ok stack)
    {count : ℕ} (hcount : count ≤ input.length) :
    ∃ found, self.boundPrefix input dispatchPath count = .ok found ∧
      ∀ last bindings, found = some (last, bindings) →
        last < input.length ∧ Handles self.keymap stack (input.take (last + 1)) bindings := by
  induction count with
  | zero => exact ⟨none, rfl, by simp⟩
  | succ last ih =>
    rw [boundPrefix, bindingsForInput_ok hstack, ok_bind]
    dsimp only
    by_cases hempty : (self.keymap.bindingsForInput (input.take (last + 1)) stack).1 = []
    · -- The loop goes on with a shorter prefix.
      rw [hempty]
      exact ih (by omega)
    · rw [if_neg (by simpa using hempty)]
      refine ⟨_, rfl, ?_⟩
      rintro _ _ ⟨rfl, rfl⟩
      exact ⟨by omega, handles_of_ne_nil hempty⟩

/-- One replayed entry stands for the segment in front of the suffix. -/
theorem replayPrefix_ok (hstack : self.contextStack dispatchPath = .ok stack)
    (hne : input ≠ []) :
    ∃ segment suffix entry, self.replayPrefix input dispatchPath = .ok (suffix, [entry]) ∧
      input = segment ++ suffix ∧ ∀ {rest replays}, Replayed self.keymap stack rest replays →
        Replayed self.keymap stack (segment ++ rest) (entry :: replays) := by
  obtain ⟨found, hfound, hspec⟩ := boundPrefix_ok hstack (le_refl input.length)
  cases found with
  | none =>
    obtain ⟨keystroke, suffix, rfl⟩ := List.exists_cons_of_ne_nil hne
    refine ⟨[keystroke], suffix, ⟨keystroke, []⟩, ?_, rfl, .single⟩
    rw [replayPrefix, hfound]
    rfl
  | some found =>
    obtain ⟨last, bindings⟩ := found
    obtain ⟨hlt, hhandles⟩ := hspec last bindings rfl
    have hsegment : input.take (last + 1) ≠ [] := by simpa using hne
    have hlast := List.getLast?_eq_some_getLast hsegment
    refine ⟨input.take (last + 1), input.drop (last + 1), ⟨_, bindings⟩, ?_,
      (List.take_append_drop _ _).symm, .matched hhandles hlast⟩
    rw [replayPrefix, hfound, ok_bind, drain, hlast]

/-- `dispatch_key` returns, and accounts for the pending keystrokes and the next one. -/
theorem dispatchKey_accounts (hstack : self.contextStack dispatchPath = .ok stack)
    (keystroke : Keystroke) : ∀ input : List Keystroke,
    ∃ result, self.dispatchKey input keystroke dispatchPath = .ok result ∧
      result.contextStack = stack ∧ ∃ done tail, input ++ [keystroke] = done ++ tail ∧
        Replayed self.keymap stack done result.toReplay ∧
        Handled self.keymap stack keystroke tail result.pending result.bindings := by
  -- The recursion is on the suffix that is left when a prefix was replayed.
  intro input
  induction hlen : input.length using Nat.strong_induction_on generalizing input with
  | _ n ih =>
    rw [dispatchKey, bindingsForInput_ok hstack, ok_bind]
    dsimp only
    by_cases hpending : (self.keymap.bindingsForInput (input ++ [keystroke]) stack).2 = true
    · rw [if_pos hpending]
      exact ⟨_, rfl, rfl, [], _, rfl, .nil, .pending (by simp)⟩
    rw [if_neg hpending]
    by_cases hbound : (self.keymap.bindingsForInput (input ++ [keystroke]) stack).1 = []
    case neg =>
      rw [if_pos (by simpa using hbound)]
      exact ⟨_, rfl, rfl, [], _, rfl, .nil, .bindings (by simp) (handles_of_ne_nil hbound)⟩
    rw [if_neg (by simpa using hbound)]
    by_cases hone : (input ++ [keystroke]).length = 1
    · rw [if_pos hone]
      obtain rfl : input = [] := by simpa using hone
      exact ⟨_, rfl, rfl, [], [keystroke], rfl, .nil, .unbound⟩
    rw [if_neg hone]
    have hne : (input ++ [keystroke]).dropLast ≠ [] := by
      intro hnil
      simp only [List.dropLast_concat] at hnil
      simp [hnil] at hone
    obtain ⟨segment, suffix, entry, hreplay, hinput, hsegment⟩ := replayPrefix_ok hstack hne
    have hlt : suffix.length < n := by
      have := replayPrefix_length hreplay
      simpa [hlen] using this
    obtain ⟨result, hresult, hcontext, done, tail, hsplit, hdone, htail⟩ :=
      ih _ hlt suffix rfl
    split
    case h_1 e he => rw [hreplay] at he; cases he
    case h_2 suffix' toReplay' he =>
      obtain ⟨rfl, rfl⟩ := Prod.mk.inj (Except.ok.inj (hreplay.symm.trans he))
      rw [hresult, ok_bind]
      refine ⟨_, rfl, hcontext, segment ++ done, tail, ?_, hsegment hdone, htail⟩
      rw [List.append_assoc, ← hsplit, ← List.append_assoc, ← hinput, List.dropLast_concat]

/-- `flush_dispatch` returns, and accounts for the pending keystrokes. -/
theorem flushDispatch_accounts (hstack : self.contextStack dispatchPath = .ok stack) :
    ∀ input : List Keystroke, input ≠ [] →
      ∃ replays, self.flushDispatch input dispatchPath = .ok replays ∧
        Replayed self.keymap stack input replays := by
  intro input
  induction hlen : input.length using Nat.strong_induction_on generalizing input with
  | _ n ih =>
    intro hne
    obtain ⟨segment, suffix, entry, hreplay, hinput, hsegment⟩ := replayPrefix_ok hstack hne
    rw [flushDispatch]
    split
    case h_1 e he => rw [hreplay] at he; cases he
    case h_2 suffix' toReplay' he =>
      obtain ⟨rfl, rfl⟩ := Prod.mk.inj (Except.ok.inj (hreplay.symm.trans he))
      by_cases hsuffix : suffix = []
      · subst hsuffix
        rw [hinput]
        exact ⟨_, rfl, hsegment .nil⟩
      · obtain ⟨replays, hflush, hreplayed⟩ :=
          ih _ (hlen ▸ replayPrefix_length hreplay) suffix rfl hsuffix
        rw [if_neg (by simpa using hsuffix), hflush, ok_bind, hinput]
        exact ⟨_, rfl, hsegment hreplayed⟩

end DispatchTree

/-- **Nothing is lost and nothing is duplicated.**  `dispatchKey` ends, and splits the
pending keystrokes and the next one into the segments that the entries to replay stand
for and a last one, which is pending, handled by the bindings, or the keystroke itself.
`flushDispatch` ends on pending keystrokes, and its entries stand for all of them. -/
theorem keystrokes_accounted (tree : DispatchTree) (dispatchPath : List ℕ)
    (hpath : ∀ id ∈ dispatchPath, id < tree.nodes.length) :
    ∃ stack, tree.contextStack dispatchPath = .ok stack ∧
      (∀ (input : List Keystroke) (keystroke : Keystroke),
        ∃ result, tree.dispatchKey input keystroke dispatchPath = .ok result ∧
          result.contextStack = stack ∧ ∃ done tail, input ++ [keystroke] = done ++ tail ∧
            DispatchTree.Replayed tree.keymap stack done result.toReplay ∧
            DispatchTree.Handled tree.keymap stack keystroke tail result.pending
              result.bindings) ∧
      ∀ input : List Keystroke, input ≠ [] →
        ∃ replays, tree.flushDispatch input dispatchPath = .ok replays ∧
          DispatchTree.Replayed tree.keymap stack input replays := by
  obtain ⟨stack, hstack⟩ := DispatchTree.contextStack_ok hpath
  exact ⟨stack, hstack, fun input keystroke =>
    DispatchTree.dispatchKey_accounts hstack keystroke input,
    DispatchTree.flushDispatch_accounts hstack⟩

/-- A tree with the editor alone, and the chord of `disabledChord`. -/
def editorTree : DispatchTree where
  nodes := [⟨some (namedContext "editor")⟩]
  keymap := disabledChord

/-- A pending `ctrl-x` in the editor, flushed or followed by another key. -/
theorem keystrokes_accounted_editor :
    ∃ stack, editorTree.contextStack [0] = .ok stack ∧
      (∃ result, editorTree.dispatchKey [ctrlKey "x"] (ctrlKey "y") [0] = .ok result ∧
        ∃ done tail, [ctrlKey "x", ctrlKey "y"] = done ++ tail ∧
          DispatchTree.Replayed disabledChord stack done result.toReplay) ∧
      ∃ replays, editorTree.flushDispatch [ctrlKey "x"] [0] = .ok replays ∧
        DispatchTree.Replayed disabledChord stack [ctrlKey "x"] replays := by
  obtain ⟨stack, hstack, hdispatch, hflush⟩ :=
    keystrokes_accounted editorTree [0] (by simp [editorTree])
  obtain ⟨result, hresult, -, done, tail, hsplit, hdone, -⟩ :=
    hdispatch [ctrlKey "x"] (ctrlKey "y")
  exact ⟨stack, hstack, ⟨result, hresult, done, tail, hsplit, hdone⟩,
    hflush [ctrlKey "x"] (by simp)⟩

end Zui.Keys
