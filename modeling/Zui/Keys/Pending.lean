/-
The pending flag of the keymap.

The flag and the bindings of a longer input come from two different rules about
disabled bindings.

* `pending_iff_kept` — the flag is set when a longer binding is kept: no later binding
  of the keymap with the same keystrokes disables something;
* `extends_iff_fires` — a longer input has bindings when a longer binding fires: no
  binding that takes precedence disables it.

The flag is exact when something is kept just when something fires
(`pending_exact_iff`).
-/
import Zui.Keys.Keymap

namespace Zui.Keys

namespace Keymap

variable {self : Keymap} {input : List Keystroke} {contextStack : List KeyContext}

/-- The binding is in the keymap, enabled, and matches the input. -/
structure Candidate (keymap : Keymap) (input : List Keystroke) (contextStack : List KeyContext)
    (pending : Bool) (m : Match) : Prop where
  binding : keymap.bindings[m.ix]? = some m.binding
  depth : bindingEnabled m.binding contextStack = some m.depth
  keystrokes : m.binding.matchKeystrokes input = some pending

theorem mem_candidates {m : Match} {pending : Bool} :
    (m, pending) ∈ self.candidates input contextStack ↔
      self.Candidate input contextStack pending m := by
  simp only [candidates, List.mem_filterMap, List.mem_reverse, Prod.exists]
  constructor
  · rintro ⟨binding, ix, hmem, hsome⟩
    rw [List.mk_mem_zipIdx_iff_getElem?] at hmem
    simp only [Option.bind_eq_bind, Option.bind_eq_some_iff, Option.some.injEq,
      Prod.mk.injEq] at hsome
    obtain ⟨depth, hdepth, p, hp, rfl, rfl⟩ := hsome
    exact ⟨hmem, hdepth, hp⟩
  · rintro ⟨hmem, hdepth, hp⟩
    refine ⟨m.binding, m.ix, List.mk_mem_zipIdx_iff_getElem?.mpr hmem, ?_⟩
    simp [hdepth, hp]

theorem Candidate.eq_of_ix {p q : Bool} {m m' : Match} (h : self.Candidate input contextStack p m)
    (h' : self.Candidate input contextStack q m') (hix : m.ix = m'.ix) : m = m' := by
  obtain ⟨depth, ix, binding⟩ := m
  obtain ⟨depth', ix', binding'⟩ := m'
  obtain rfl : ix = ix' := hix
  obtain rfl : binding = binding' := Option.some_inj.mp (h.binding.symm.trans h'.binding)
  obtain rfl : depth = depth' := Option.some_inj.mp (h.depth.symm.trans h'.depth)
  rfl

theorem mem_sortedMatches {m : Match} : m ∈ self.sortedMatches input contextStack ↔
    self.Candidate input contextStack false m := by
  rw [sortedMatches, List.mem_insertionSort, ← mem_candidates]
  simp

theorem mem_pendingBindings {m : Match} : m ∈ self.pendingBindings input contextStack ↔
    self.Candidate input contextStack true m := by
  rw [pendingBindings, List.mem_reverse, ← mem_candidates]
  simp

theorem candidates_sorted :
    (self.candidates input contextStack).Pairwise fun a b => b.1.ix < a.1.ix := by
  rw [candidates, List.pairwise_filterMap, List.pairwise_reverse]
  have hzip : self.bindings.zipIdx.Pairwise fun a b => a.2 < b.2 := by
    rw [← List.pairwise_map (f := Prod.snd) (R := (· < ·)), List.zipIdx_map_snd]
    exact List.pairwise_lt_range'
  refine hzip.imp ?_
  rintro ⟨a, i⟩ ⟨b, j⟩ hij ⟨m, p⟩ hm ⟨m', q⟩ hm'
  simp only [Option.bind_eq_bind, Option.bind_eq_some_iff, Option.some.injEq, Prod.mk.injEq]
    at hm hm'
  obtain ⟨_, _, _, _, rfl, _⟩ := hm
  obtain ⟨_, _, _, _, rfl, _⟩ := hm'
  exact hij

theorem pendingBindings_sorted :
    (self.pendingBindings input contextStack).Pairwise fun a b => a.ix < b.ix := by
  rw [pendingBindings, List.pairwise_reverse, List.pairwise_map]
  exact candidates_sorted.filter _

/-! ### The bindings of an input -/

/-- The binding dispatches an action. -/
def Match.Acts (m : Match) : Prop :=
  m.binding.action.isNoAction = false ∧ m.binding.action.isUnbind = false

/-- The binding `d` disables `m`. -/
def Match.Disables (d m : Match) : Prop :=
  (d.binding.action.isNoAction = true ∧ KeyBinding.isUser d.binding = true) ∨
    bindingIsUnbound d.binding m.binding = true

theorem isUnbind_of_bindingIsUnbound {d b : KeyBinding} (h : bindingIsUnbound d b = true) :
    d.action.isUnbind = true ∧ d.action.isNoAction = false := by
  rw [bindingIsUnbound, Bool.and_eq_true] at h
  obtain ⟨-, h⟩ := h
  cases hd : d.action with
  | noAction => rw [hd] at h; exact absurd h (by simp)
  | unbind name => exact ⟨rfl, rfl⟩
  | named name fields => rw [hd] at h; exact absurd h (by simp)

/-- A match acts, and neither the matches in front of it nor the bindings that were passed
before disable it. -/
def Survives (m : Match) (ms : List Match) (unbound : List KeyBinding) : Prop :=
  ∃ pre post, ms = pre ++ m :: post ∧ m.Acts ∧ (∀ d ∈ pre, ¬ d.Disables m) ∧
    ∀ d ∈ unbound, bindingIsUnbound d m.binding = false

theorem survives_cons {m a : Match} {ms : List Match} {unbound : List KeyBinding} :
    Survives m (a :: ms) unbound ↔
      (a = m ∧ m.Acts ∧ ∀ d ∈ unbound, bindingIsUnbound d m.binding = false) ∨
        (¬ a.Disables m ∧ Survives m ms unbound) := by
  constructor
  · rintro ⟨pre, post, hms, hacts, hpre, hunbound⟩
    cases pre with
    | nil => exact Or.inl ⟨(List.cons.inj hms).1, hacts, hunbound⟩
    | cons b pre =>
      obtain ⟨rfl, rfl⟩ := List.cons.inj hms
      exact Or.inr ⟨hpre a (by simp), pre, post, rfl, hacts, fun d hd => hpre d (by simp [hd]),
        hunbound⟩
  · rintro (⟨rfl, hacts, hunbound⟩ | ⟨ha, pre, post, rfl, hacts, hpre, hunbound⟩)
    · exact ⟨[], ms, rfl, hacts, by simp, hunbound⟩
    · exact ⟨a :: pre, post, rfl, hacts, List.forall_mem_cons.mpr ⟨ha, hpre⟩, hunbound⟩

theorem disables_of_unbind {a m : Match} (ha : a.binding.action.isNoAction = false) :
    a.Disables m ↔ bindingIsUnbound a.binding m.binding = true := by
  simp [Match.Disables, ha]

theorem not_disables_of_acts {a m : Match} (ha : a.Acts) : ¬ a.Disables m := by
  rintro (⟨h, -⟩ | h)
  · rw [ha.1] at h
    exact absurd h (by simp)
  · have hunbind := ha.2
    rw [(isUnbind_of_bindingIsUnbound h).1] at hunbind
    exact absurd hunbind (by simp)

/-- What the loop over the matches collects. -/
theorem mem_collectBindings {m : Match} : ∀ {ms : List Match} {unbound : List KeyBinding},
    m ∈ collectBindings ms unbound ↔ Survives m ms unbound := by
  intro ms
  induction ms with
  | nil =>
    intro unbound
    simp [collectBindings, Survives]
  | cons a ms ih =>
    intro unbound
    rw [survives_cons, collectBindings]
    by_cases hno : a.binding.action.isNoAction = true
    · -- a binding of no action is none that acts
      have hne : ¬ (a = m ∧ m.Acts ∧ ∀ d ∈ unbound, bindingIsUnbound d m.binding = false) := by
        rintro ⟨rfl, ⟨hacts, -⟩, -⟩
        rw [hno] at hacts
        exact absurd hacts (by simp)
      rw [if_pos hno, or_iff_right hne]
      by_cases huser : KeyBinding.isUser a.binding = true
      · -- A `NoAction` of the user ends the loop.
        rw [if_pos huser]
        simp [Match.Disables, hno, huser]
      · -- one that is not the user's is passed over
        rw [if_neg huser, ih]
        refine (and_iff_right ?_).symm
        rintro (⟨-, h⟩ | h)
        · exact huser h
        · rw [(isUnbind_of_bindingIsUnbound h).2] at hno
          exact absurd hno (by simp)
    · rw [if_neg hno]
      have hno : a.binding.action.isNoAction = false := by simpa using hno
      by_cases hunbind : a.binding.action.isUnbind = true
      · have hne : ¬ (a = m ∧ m.Acts ∧ ∀ d ∈ unbound, bindingIsUnbound d m.binding = false) := by
          rintro ⟨rfl, ⟨-, hacts⟩, -⟩
          rw [hunbind] at hacts
          exact absurd hacts (by simp)
        rw [if_pos hunbind, or_iff_right hne, ih, disables_of_unbind hno]
        simp only [Survives, List.forall_mem_append, List.forall_mem_singleton, Bool.not_eq_true]
        constructor
        · rintro ⟨pre, post, hms, hacts, hpre, hunbound, ha⟩
          exact ⟨ha, pre, post, hms, hacts, hpre, hunbound⟩
        · rintro ⟨ha, pre, post, hms, hacts, hpre, hunbound⟩
          exact ⟨pre, post, hms, hacts, hpre, hunbound, ha⟩
      · rw [if_neg hunbind]
        have hacts : a.Acts := ⟨hno, by simpa using hunbind⟩
        rw [and_iff_right (not_disables_of_acts hacts)]
        by_cases hany : (unbound.any fun disabled => bindingIsUnbound disabled a.binding) = true
        · -- a binding that is unbound is left out
          rw [if_pos hany, ih, or_iff_right]
          rintro ⟨rfl, -, hunbound⟩
          obtain ⟨d, hd, htrue⟩ := List.any_eq_true.mp hany
          rw [hunbound d hd] at htrue
          exact absurd htrue (by simp)
        · rw [if_neg hany, List.mem_cons, ih]
          refine or_congr_left ⟨?_, fun h => h.1.symm⟩
          rintro rfl
          refine ⟨rfl, hacts, fun d hd => ?_⟩
          by_contra h
          exact hany (List.any_eq_true.mpr ⟨d, hd, by simpa using h⟩)

theorem sortedMatches_sorted :
    (self.sortedMatches input contextStack).Pairwise Match.Precedes := by
  have htotal : Std.Total Match.Precedes := ⟨fun a b => by unfold Match.Precedes; omega⟩
  have htrans : IsTrans Match Match.Precedes :=
    ⟨fun a b c => by unfold Match.Precedes; omega⟩
  exact List.pairwise_insertionSort _ _

/-- What the loop collects of the sorted matches acts, and nothing of greater precedence
disables it. -/
theorem survives_sortedMatches {m : Match} :
    Survives m (self.sortedMatches input contextStack) [] ↔
      self.Candidate input contextStack false m ∧ m.Acts ∧
        ∀ d, self.Candidate input contextStack false d → d.Precedes m → ¬ d.Disables m := by
  have hsorted : (self.sortedMatches input contextStack).Pairwise Match.Precedes :=
    sortedMatches_sorted
  constructor
  · rintro ⟨pre, post, hms, hacts, hpre, -⟩
    have hm : m ∈ self.sortedMatches input contextStack := by simp [hms]
    refine ⟨mem_sortedMatches.mp hm, hacts, fun d hd hprec hdis => ?_⟩
    have hd' := mem_sortedMatches.mpr hd
    rw [hms] at hd' hsorted
    rcases List.mem_append.mp hd' with hin | hin
    · exact hpre d hin hdis
    · rcases List.mem_cons.mp hin with rfl | hin
      · exact not_disables_of_acts hacts hdis
      · -- A match behind `m` that precedes it as well is `m`.
        have hback := (List.pairwise_cons.mp (List.pairwise_append.mp hsorted).2.1).1 d hin
        have hix : d.ix = m.ix := by
          unfold Match.Precedes at hprec hback
          omega
        obtain rfl := hd.eq_of_ix (mem_sortedMatches.mp hm) hix
        exact not_disables_of_acts hacts hdis
  · rintro ⟨hm, hacts, hfree⟩
    obtain ⟨pre, post, hms⟩ := List.append_of_mem (mem_sortedMatches.mpr hm)
    refine ⟨pre, post, hms, hacts, fun d hd => ?_, by simp⟩
    have hd' : d ∈ self.sortedMatches input contextStack := by simp [hms, hd]
    rw [hms] at hsorted
    exact hfree d (mem_sortedMatches.mp hd')
      ((List.pairwise_append.mp hsorted).2.2 d hd m (by simp))

/-- An input has bindings when a binding acts that nothing of greater precedence
disables. -/
theorem bindings_iff :
    (self.bindingsForInput input contextStack).1 ≠ [] ↔
      ∃ m, self.Candidate input contextStack false m ∧ m.Acts ∧
        ∀ d, self.Candidate input contextStack false d → d.Precedes m → ¬ d.Disables m := by
  simp only [← survives_sortedMatches, ← mem_collectBindings, bindingsForInput, ne_eq,
    List.map_eq_nil_iff]
  exact ⟨List.exists_mem_of_ne_nil _, fun ⟨m, hm⟩ => List.ne_nil_of_mem hm⟩

/-! ### The flag -/

/-- A longer binding acts, and no later one with the same keystrokes disables
anything. -/
def Kept (keymap : Keymap) (input : List Keystroke) (contextStack : List KeyContext) : Prop :=
  ∃ m, keymap.Candidate input contextStack true m ∧ m.Acts ∧
    ∀ d, keymap.Candidate input contextStack true d → m.ix < d.ix → ¬ d.Acts →
      d.binding.keystrokes ≠ m.binding.keystrokes

/-- Among the bindings with the given keystrokes one acts, and none behind it disables
anything. -/
def LastActs (ks : List KeybindingKeystroke) (ms : List Match) : Prop :=
  ∃ pre m post, ms = pre ++ m :: post ∧ m.Acts ∧ m.binding.keystrokes = ks ∧
    ∀ d ∈ post, ¬ d.Acts → d.binding.keystrokes ≠ ks

theorem lastActs_concat {ks : List KeybindingKeystroke} {ms : List Match} {a : Match} :
    LastActs ks (ms ++ [a]) ↔ (a.Acts ∧ a.binding.keystrokes = ks) ∨
      (LastActs ks ms ∧ (¬ a.Acts → a.binding.keystrokes ≠ ks)) := by
  constructor
  · rintro ⟨pre, m, post, hms, hacts, hks, hpost⟩
    rcases List.eq_nil_or_concat post with rfl | ⟨post, b, rfl⟩
    · obtain rfl := List.singleton_inj.mp (List.append_inj' hms rfl).2
      exact Or.inl ⟨hacts, hks⟩
    · rw [List.concat_eq_append, ← List.cons_append, ← List.append_assoc] at hms
      obtain ⟨rfl, hab⟩ := List.append_inj' hms rfl
      obtain rfl := List.singleton_inj.mp hab
      exact Or.inr ⟨⟨pre, m, post, rfl, hacts, hks, fun d hd => hpost d (by simp [hd])⟩,
        hpost a (by simp)⟩
  · rintro (⟨hacts, hks⟩ | ⟨⟨pre, m, post, rfl, hacts, hks, hpost⟩, ha⟩)
    · exact ⟨ms, a, [], rfl, hacts, hks, by simp⟩
    · refine ⟨pre, m, post ++ [a], by simp, hacts, hks, fun d hd => ?_⟩
      rcases List.mem_append.mp hd with hin | hin
      · exact hpost d hin
      · rw [List.mem_singleton.mp hin]
        exact ha

/-- What the loop over the pending bindings makes of some of them. -/
theorem pendingFold_spec (ms : List Match) :
    (ms.foldl (pendingStep none) []).Nodup ∧
      ∀ ks, ks ∈ ms.foldl (pendingStep none) [] ↔ LastActs ks ms := by
  induction ms using List.reverseRecOn with
  | nil => simp [LastActs]
  | append_singleton ms a ih =>
    obtain ⟨hnodup, hmem⟩ := ih
    rw [List.foldl_append, List.foldl_cons, List.foldl_nil, pendingStep, if_neg (by simp)]
    by_cases hacts : a.Acts
    · rw [if_neg (by simp [hacts.1, hacts.2])]
      refine ⟨hnodup.insert, fun ks => ?_⟩
      rw [List.mem_insert_iff, hmem, lastActs_concat]
      simp [hacts, eq_comm]
    · have hdisables : (a.binding.action.isNoAction || a.binding.action.isUnbind) = true := by
        by_contra h
        rw [Bool.not_eq_true, Bool.or_eq_false_iff] at h
        exact hacts h
      rw [if_pos hdisables]
      refine ⟨hnodup.erase _, fun ks => ?_⟩
      rw [hnodup.mem_erase_iff, hmem, lastActs_concat]
      simp [hacts, and_comm, eq_comm]

/-- Without bindings for the input, the flag is set when a longer binding is kept. -/
theorem pending_iff_kept (hnone : (self.bindingsForInput input contextStack).1 = []) :
    (self.bindingsForInput input contextStack).2 = true ↔ Kept self input contextStack := by
  have hmatched : collectBindings (self.sortedMatches input contextStack) [] = [] := by
    simpa [bindingsForInput] using hnone
  have hflag : (self.bindingsForInput input contextStack).2 = true ↔
      ∃ ks, LastActs ks (self.pendingBindings input contextStack) := by
    simp only [← (pendingFold_spec _).2]
    rw [bindingsForInput, hmatched]
    simp only [List.head?_nil, Option.map_none, Bool.not_eq_true', List.isEmpty_eq_false_iff]
    exact ⟨List.exists_mem_of_ne_nil _, fun ⟨ks, hks⟩ => List.ne_nil_of_mem hks⟩
  rw [hflag]
  have hsorted : (self.pendingBindings input contextStack).Pairwise fun a b => a.ix < b.ix :=
    pendingBindings_sorted
  constructor
  · rintro ⟨ks, pre, m, post, hms, hacts, rfl, hpost⟩
    refine ⟨m, mem_pendingBindings.mp (by simp [hms]), hacts, fun d hd hlt hdis => ?_⟩
    have hd' := mem_pendingBindings.mpr hd
    rw [hms] at hd' hsorted
    rcases List.mem_append.mp hd' with hin | hin
    · have := (List.pairwise_append.mp hsorted).2.2 d hin m (by simp)
      omega
    · rcases List.mem_cons.mp hin with rfl | hin
      · omega
      · exact hpost d hin hdis
  · rintro ⟨m, hm, hacts, hfree⟩
    obtain ⟨pre, post, hms⟩ := List.append_of_mem (mem_pendingBindings.mpr hm)
    refine ⟨m.binding.keystrokes, pre, m, post, hms, hacts, rfl, fun d hd => ?_⟩
    have hd' : d ∈ self.pendingBindings input contextStack := by simp [hms, hd]
    rw [hms] at hsorted
    exact hfree d (mem_pendingBindings.mp hd')
      ((List.pairwise_cons.mp (List.pairwise_append.mp hsorted).2.1).1 d hd)

/-! ### Longer inputs -/

/-- The keystrokes without what matching does not look at. -/
def strokes (ks : List KeybindingKeystroke) : List (Modifiers × String) :=
  ks.map fun k => (k.inner.modifiers, k.inner.key)

/-- A longer binding acts, and nothing of greater precedence for the same strokes
disables it. -/
def Fires (keymap : Keymap) (input : List Keystroke) (contextStack : List KeyContext) : Prop :=
  ∃ m, keymap.Candidate input contextStack true m ∧ m.Acts ∧
    ∀ d, keymap.Candidate input contextStack true d →
      strokes d.binding.keystrokes = strokes m.binding.keystrokes → d.Precedes m → ¬ d.Disables m

/-- A typed sequence against the keystrokes of a binding. -/
def Typed (ks : List KeybindingKeystroke) (typed : List Keystroke) : Prop :=
  List.Forall₂ (fun k (t : Keystroke) => t.shouldMatch k = true) ks typed

theorem typed_iff {ks : List KeybindingKeystroke} {typed : List Keystroke} :
    (∃ front rest, ks = front ++ rest ∧ Typed front typed) ↔
      ¬ ks.length < typed.length ∧
        ¬ ((ks.zip typed).any fun (target, typed) => !typed.shouldMatch target) = true := by
  induction typed generalizing ks with
  | nil =>
    refine iff_of_true ⟨[], ks, rfl, .nil⟩ ?_
    simp
  | cons t typed ih =>
    cases ks with
    | nil => simp [Typed]
    | cons k ks =>
      have hcons : (∃ front rest, k :: ks = front ++ rest ∧ Typed front (t :: typed)) ↔
          t.shouldMatch k = true ∧ ∃ front rest, ks = front ++ rest ∧ Typed front typed := by
        constructor
        · rintro ⟨front, rest, hks, hfront⟩
          cases hfront with
          | cons hk hfront =>
            obtain ⟨rfl, rfl⟩ := List.cons.inj hks
            exact ⟨hk, _, rest, rfl, hfront⟩
        · rintro ⟨hk, front, rest, rfl, hfront⟩
          exact ⟨k :: front, rest, rfl, .cons hk hfront⟩
      rw [hcons, ih]
      simp only [List.length_cons, List.zip_cons_cons, List.any_cons, Bool.or_eq_true,
        Bool.not_eq_true', Nat.add_lt_add_iff_right, not_or, Bool.not_eq_false]
      exact and_left_comm

theorem matchKeystrokes_iff {b : KeyBinding} {typed : List Keystroke} {pending : Bool} :
    b.matchKeystrokes typed = some pending ↔
      ∃ front rest, b.keystrokes = front ++ rest ∧ Typed front typed ∧
        pending = !rest.isEmpty := by
  have hrest : ∀ {front rest}, b.keystrokes = front ++ rest → Typed front typed →
      decide (b.keystrokes.length > typed.length) = !rest.isEmpty := by
    intro front rest hks hfront
    have hlen := hfront.length_eq
    rw [hks, List.length_append]
    cases rest with
    | nil => simp [hlen]
    | cons k rest => simp [hlen]
  rw [KeyBinding.matchKeystrokes]
  by_cases htyped : ∃ front rest, b.keystrokes = front ++ rest ∧ Typed front typed
  · obtain ⟨hlen, hany⟩ := typed_iff.mp htyped
    obtain ⟨front, rest, hks, hfront⟩ := htyped
    rw [if_neg hlen, if_neg hany, Option.some_inj, hrest hks hfront]
    constructor
    · rintro rfl
      exact ⟨front, rest, hks, hfront, rfl⟩
    · rintro ⟨front', rest', hks', hfront', rfl⟩
      rw [← hrest hks hfront, hrest hks' hfront']
  · have hnone : ¬ ∃ front rest, b.keystrokes = front ++ rest ∧ Typed front typed ∧
        pending = !rest.isEmpty := fun ⟨front, rest, hks, hfront, _⟩ =>
          htyped ⟨front, rest, hks, hfront⟩
    rw [iff_false_right hnone]
    by_cases hlen : b.keystrokes.length < typed.length
    · simp [if_pos hlen]
    · have hany : ((b.keystrokes.zip typed).any
          fun (target, typed) => !typed.shouldMatch target) = true := by
        by_contra hany
        exact htyped (typed_iff.mpr ⟨hlen, hany⟩)
      rw [if_neg hlen, if_pos hany]
      simp

theorem shouldMatch_congr {t : Keystroke} {k k' : KeybindingKeystroke}
    (h : (k.inner.modifiers, k.inner.key) = (k'.inner.modifiers, k'.inner.key)) :
    t.shouldMatch k = t.shouldMatch k' := by
  obtain ⟨hmodifiers, hkey⟩ := Prod.mk.inj h
  simp only [Keystroke.shouldMatch, Keystroke.charMatch, hmodifiers, hkey]

theorem typed_congr {ks ks' : List KeybindingKeystroke} {typed : List Keystroke}
    (h : strokes ks = strokes ks') (ht : Typed ks typed) : Typed ks' typed := by
  induction ht generalizing ks' with
  | nil =>
    obtain rfl : ks' = [] := by simpa [strokes] using h.symm
    exact .nil
  | @cons k t ks typed hk _ ih =>
    cases ks' with
    | nil => simp [strokes] at h
    | cons k' ks' =>
      obtain ⟨hhead, htail⟩ := List.cons.inj h
      refine .cons ?_ (ih htail)
      rw [← hk]
      exact (shouldMatch_congr hhead).symm

theorem strokes_of_typed {ks : List KeybindingKeystroke} {typed : List Keystroke}
    (hchar : ∀ t ∈ typed, t.keyChar = none) (ht : Typed ks typed) :
    strokes ks = typed.map fun t => (t.modifiers, t.key) := by
  induction ht with
  | nil => rfl
  | @cons k t ks typed hk _ ih =>
    have hnone : t.charMatch k = false := by
      rw [Keystroke.charMatch, hchar t (by simp)]
      rfl
    simp only [Keystroke.shouldMatch, hnone, Bool.false_or, Bool.and_eq_true,
      decide_eq_true_eq] at hk
    rw [strokes, List.map_cons, List.map_cons, hk.1, hk.2]
    exact congrArg _ (ih fun t' ht' => hchar t' (by simp [ht']))

/-- The keystrokes of a binding, typed without characters. -/
def typedOf (ks : List KeybindingKeystroke) : List Keystroke :=
  ks.map fun k => ⟨k.inner.modifiers, k.inner.key, none⟩

theorem typed_typedOf (ks : List KeybindingKeystroke) : Typed ks (typedOf ks) := by
  induction ks with
  | nil => exact .nil
  | cons k ks ih => exact .cons (by simp [Keystroke.shouldMatch]) ih

/-- A candidate for a longer input is a pending one for the input. -/
theorem Candidate.shorten {m : Match} {ext : List Keystroke} (hext : ext ≠ [])
    (h : self.Candidate (input ++ ext) contextStack false m) :
    self.Candidate input contextStack true m := by
  obtain ⟨front, rest, hks, hfront, hrest⟩ := matchKeystrokes_iff.mp h.keystrokes
  obtain rfl : rest = [] := by simpa using hrest
  refine ⟨h.binding, h.depth, matchKeystrokes_iff.mpr
    ⟨front.take input.length, front.drop input.length, ?_, ?_, ?_⟩⟩
  · rw [List.take_append_drop, hks, List.append_nil]
  · exact List.forall₂_take_append _ _ _ hfront
  · have hlen := hfront.length_eq
    rw [List.length_append] at hlen
    have hpos := List.length_pos_iff.mpr hext
    have hne : front.drop input.length ≠ [] := by
      intro hnil
      have := List.drop_eq_nil_iff.mp hnil
      omega
    simpa using hne

/-- A pending candidate with the strokes of a candidate for a longer input is one as
well. -/
theorem Candidate.lengthen {d m : Match} {ext : List Keystroke}
    (hd : self.Candidate input contextStack true d)
    (hm : self.Candidate (input ++ ext) contextStack false m)
    (hstrokes : strokes d.binding.keystrokes = strokes m.binding.keystrokes) :
    self.Candidate (input ++ ext) contextStack false d := by
  obtain ⟨front, rest, hks, hfront, hrest⟩ := matchKeystrokes_iff.mp hm.keystrokes
  obtain rfl : rest = [] := by simpa using hrest
  rw [List.append_nil] at hks
  subst hks
  exact ⟨hd.binding, hd.depth, matchKeystrokes_iff.mpr
    ⟨d.binding.keystrokes, [], (List.append_nil _).symm, typed_congr hstrokes.symm hfront, rfl⟩⟩

/-- Without typed characters in the input, a longer input has bindings when a longer
binding fires. -/
theorem extends_iff_fires (hchar : ∀ k ∈ input, k.keyChar = none) :
    (∃ ext, ext ≠ [] ∧ (self.bindingsForInput (input ++ ext) contextStack).1 ≠ []) ↔
      Fires self input contextStack := by
  constructor
  · rintro ⟨ext, hext, hbindings⟩
    obtain ⟨m, hm, hacts, hfree⟩ := bindings_iff.mp hbindings
    exact ⟨m, hm.shorten hext, hacts, fun d hd hstrokes => hfree d (hd.lengthen hm hstrokes)⟩
  · rintro ⟨m, hm, hacts, hfree⟩
    obtain ⟨front, rest, hks, hfront, hrest⟩ := matchKeystrokes_iff.mp hm.keystrokes
    have hne : rest ≠ [] := by simpa using hrest
    have hext : typedOf rest ≠ [] := by simpa [typedOf] using hne
    have hall : ∀ t ∈ input ++ typedOf rest, t.keyChar = none := by
      intro t ht
      rcases List.mem_append.mp ht with hin | hin
      · exact hchar t hin
      · obtain ⟨k, -, rfl⟩ := List.mem_map.mp hin
        rfl
    have hfull : ∀ d, self.Candidate (input ++ typedOf rest) contextStack false d →
        strokes d.binding.keystrokes
          = (input ++ typedOf rest).map fun t => (t.modifiers, t.key) := by
      intro d hd
      obtain ⟨front', rest', hks', hfront', hrest'⟩ := matchKeystrokes_iff.mp hd.keystrokes
      obtain rfl : rest' = [] := by simpa using hrest'
      rw [hks', List.append_nil]
      exact strokes_of_typed hall hfront'
    have hm' : self.Candidate (input ++ typedOf rest) contextStack false m :=
      ⟨hm.binding, hm.depth, matchKeystrokes_iff.mpr ⟨front ++ rest, [], by simpa using hks,
        List.rel_append hfront (typed_typedOf rest), rfl⟩⟩
    refine ⟨typedOf rest, hext, bindings_iff.mpr ⟨m, hm', hacts, fun d hd => ?_⟩⟩
    exact hfree d (hd.shorten hext) ((hfull d hd).trans (hfull m hm').symm)

end Keymap

/-- **The pending flag.**  For an input without typed characters and without bindings,
the flag says whether a longer input has bindings just when the two rules about
disabled bindings agree: something is kept if and only if something fires. -/
theorem pending_exact_iff (keymap : Keymap) (input : List Keystroke)
    (contextStack : List KeyContext) (hchar : ∀ k ∈ input, k.keyChar = none)
    (hnone : (keymap.bindingsForInput input contextStack).1 = []) :
    ((keymap.bindingsForInput input contextStack).2 = true ↔
      ∃ ext, ext ≠ [] ∧ (keymap.bindingsForInput (input ++ ext) contextStack).1 ≠ []) ↔
    (keymap.Kept input contextStack ↔ keymap.Fires input contextStack) := by
  rw [Keymap.pending_iff_kept hnone, Keymap.extends_iff_fires hchar]

/-! ### A disabled chord -/

/-- A key with the control modifier. -/
def ctrlKey (key : String) : Keystroke :=
  ⟨⟨true, false, false, false, false⟩, key, none⟩

/-- A context with one identifier. -/
def namedContext (name : String) : KeyContext :=
  ⟨[⟨name, none⟩]⟩

/-- The chord `ctrl-x ctrl-0`, bound in the editor and disabled in the workspace around
it. -/
def disabledChord : Keymap where
  bindings :=
    [⟨.named "alpha", [⟨ctrlKey "x"⟩, ⟨ctrlKey "0"⟩], some (.identifier "editor"), none⟩,
     ⟨.noAction, [⟨ctrlKey "x"⟩, ⟨ctrlKey "0"⟩], some (.identifier "workspace"), none⟩]

/-- The editor takes precedence over the workspace, so the chord fires, but its first
key is not pending. -/
theorem pending_chord_cut_short :
    (disabledChord.bindingsForInput [ctrlKey "x"]
      [namedContext "workspace", namedContext "editor"]).1 = [] ∧
    ¬ ((disabledChord.bindingsForInput [ctrlKey "x"]
        [namedContext "workspace", namedContext "editor"]).2 = true ↔
      ∃ ext, ext ≠ [] ∧ (disabledChord.bindingsForInput ([ctrlKey "x"] ++ ext)
        [namedContext "workspace", namedContext "editor"]).1 ≠ []) := by
  constructor
  · decide
  · intro hexact
    have hpending : (disabledChord.bindingsForInput [ctrlKey "x"]
        [namedContext "workspace", namedContext "editor"]).2 = true :=
      hexact.mpr ⟨[ctrlKey "0"], by simp, by decide⟩
    exact absurd hpending (by decide)

/-- The chord that nothing disables. -/
theorem pending_exact_iff_editor :
    ((disabledChord.bindingsForInput [ctrlKey "x"] [namedContext "editor"]).2 = true ↔
      ∃ ext, ext ≠ [] ∧ (disabledChord.bindingsForInput ([ctrlKey "x"] ++ ext)
        [namedContext "editor"]).1 ≠ []) ↔
    (disabledChord.Kept [ctrlKey "x"] [namedContext "editor"] ↔
      disabledChord.Fires [ctrlKey "x"] [namedContext "editor"]) :=
  pending_exact_iff disabledChord [ctrlKey "x"] [namedContext "editor"]
    (by simp [ctrlKey]) (by decide)

end Zui.Keys
