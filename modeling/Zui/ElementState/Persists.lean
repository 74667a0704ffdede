/-
A state of an element persists exactly while it is used.

`Sound` ties the states in the two frames to the history of a run: what is at a key, in one
frame or the other, is what is `Kept` at it.  Each operation keeps this, and so it holds at each
moment of every run.

Main statements:

* `sound_of_reachable` — the invariant of all runs;
* `element_state_persists` — which state a closure is called with, and which states are gone;
* `withElementState_run` — a call whose closure does such operations is a run of its own.
-/
import Zui.ElementState.Basic

namespace Zui.ElementState

open Keeping

variable {GlobalElementId TypeId : Type} [DecidableEq GlobalElementId] [DecidableEq TypeId]
  {S : TypeId → Type}

/-! ### Frames -/

namespace Frame

variable {self prevFrame : Frame GlobalElementId S} {key : GlobalElementId × TypeId}

@[simp] theorem elementStates_insert (state : ElementStateBox S) :
    (self.insert key state).elementStates = Function.update self.elementStates key (some state) :=
  rfl

@[simp] theorem accessedElementStates_insert (state : ElementStateBox S) :
    (self.insert key state).accessedElementStates = self.accessedElementStates := rfl

@[simp] theorem elementStates_remove :
    (self.remove key).elementStates = Function.update self.elementStates key none := rfl

@[simp] theorem accessedElementStates_remove :
    (self.remove key).accessedElementStates = self.accessedElementStates := rfl

/-- Finishing a frame over some of its keys moves their states from the previous frame. -/
theorem foldl_finishKey (keys : List (GlobalElementId × TypeId)) :
    ∀ self prevFrame : Frame GlobalElementId S,
      (keys.foldl finishKey (self, prevFrame)).1.accessedElementStates =
          self.accessedElementStates ∧
        ∀ key, (keys.foldl finishKey (self, prevFrame)).1.elementStates key =
          if key ∈ keys then (prevFrame.elementStates key).or (self.elementStates key)
          else self.elementStates key := by
  induction keys with
  | nil => simp
  | cons moved keys ih =>
    intro self prevFrame
    rw [List.foldl_cons]
    cases hprev : prevFrame.elementStates moved with
    | none =>
      rw [finishKey, hprev]
      obtain ⟨haccessed, hstates⟩ := ih self prevFrame
      refine ⟨haccessed, ?_⟩
      intro key
      rw [hstates]
      by_cases hkey : key = moved
      · subst hkey
        simp [hprev]
      · simp [hkey]
    | some state =>
      rw [finishKey, hprev]
      obtain ⟨haccessed, hstates⟩ := ih (self.insert moved state) (prevFrame.remove moved)
      refine ⟨haccessed, ?_⟩
      intro key
      rw [hstates]
      by_cases hkey : key = moved
      · subst hkey
        simp [hprev]
      · simp [hkey]

theorem accessedElementStates_finish :
    (self.finish prevFrame).1.accessedElementStates = self.accessedElementStates :=
  (foldl_finishKey _ self prevFrame).1

theorem elementStates_finish :
    (self.finish prevFrame).1.elementStates key =
      if key ∈ self.accessedElementStates
      then (prevFrame.elementStates key).or (self.elementStates key)
      else self.elementStates key :=
  (foldl_finishKey _ self prevFrame).2 key

end Frame

/-! ### The window -/

namespace Window

variable {self : Window GlobalElementId S} {key : GlobalElementId × TypeId}

/-- The state at a key, in the next frame or the rendered one. -/
def held (self : Window GlobalElementId S) (key : GlobalElementId × TypeId) :
    Option (ElementStateBox S) :=
  (self.nextFrame.elementStates key).or (self.renderedFrame.elementStates key)

/-- No state is in both frames. -/
def Apart (self : Window GlobalElementId S) : Prop :=
  ∀ key, self.renderedFrame.elementStates key = none ∨ self.nextFrame.elementStates key = none

/-- The window without the state at a key. -/
def without (key : GlobalElementId × TypeId) (self : Window GlobalElementId S) :
    Window GlobalElementId S :=
  ⟨self.renderedFrame.remove key, self.nextFrame.remove key⟩

theorem removeState_eq (h : self.Apart) :
    self.removeState key = (self.held key, self.without key) := by
  cases hnext : self.nextFrame.elementStates key with
  | some any =>
    have hrendered : self.renderedFrame.elementStates key = none :=
      (h key).resolve_right (by simp [hnext])
    have hsame : self.renderedFrame.remove key = self.renderedFrame := by
      rw [Frame.remove, ← hrendered, Function.update_eq_self]
    rw [removeState, hnext, held, hnext, without, hsame]
    rfl
  | none =>
    have hsame : self.nextFrame.remove key = self.nextFrame := by
      rw [Frame.remove, ← hnext, Function.update_eq_self]
    rw [removeState, hnext, held, hnext, without, hsame]
    rfl

omit [DecidableEq GlobalElementId] [DecidableEq TypeId] in
theorem held_eq_some (h : self.Apart) {any : ElementStateBox S} :
    self.held key = some any ↔
      self.renderedFrame.elementStates key = some any ∨
        self.nextFrame.elementStates key = some any := by
  rw [held]
  rcases h key with hnone | hnone
  · simp [hnone]
  · simp [hnone]

omit [DecidableEq GlobalElementId] [DecidableEq TypeId] in
theorem held_eq_none :
    self.held key = none ↔ self.renderedFrame.elementStates key = none ∧
      self.nextFrame.elementStates key = none := by
  rw [held, Option.or_eq_none_iff, and_comm]

omit [DecidableEq GlobalElementId] [DecidableEq TypeId] in
@[simp] theorem held_pushAccessed (keys : List (GlobalElementId × TypeId)) :
    (self.pushAccessed keys).held key = self.held key := rfl

omit [DecidableEq GlobalElementId] [DecidableEq TypeId] in
@[simp] theorem apart_pushAccessed (keys : List (GlobalElementId × TypeId)) :
    (self.pushAccessed keys).Apart ↔ self.Apart := Iff.rfl

theorem Apart.without (h : self.Apart) : (self.without key).Apart := by
  intro key'
  by_cases hkey : key' = key
  · subst hkey
    simp [Window.without]
  · simpa [Window.without, hkey] using h key'

theorem held_without (key' : GlobalElementId × TypeId) :
    (self.without key).held key' = if key' = key then none else self.held key' := by
  by_cases hkey : key' = key
  · subst hkey
    simp [Window.without, held]
  · simp [Window.without, held, hkey]

theorem Apart.endAccess (h : self.Apart) (hkey : self.held key = none) (state : S key.2) :
    (self.endAccess key state).Apart := by
  intro key'
  by_cases heq : key' = key
  · subst heq
    exact .inl (held_eq_none.mp hkey).1
  · simpa [Window.endAccess, heq] using h key'

theorem held_endAccess (state : S key.2) (key' : GlobalElementId × TypeId) :
    (self.endAccess key state).held key' =
      if key' = key then some ⟨key.2, some state⟩ else self.held key' := by
  by_cases hkey : key' = key
  · subst hkey
    simp [Window.endAccess, held]
  · simp [Window.endAccess, held, hkey]

theorem slice_ok {α : Type} {xs : List α} {range : ℕ × ℕ}
    (h : range.1 ≤ range.2 ∧ range.2 ≤ xs.length) :
    slice xs range = .ok ((xs.take range.2).drop range.1) := by
  rw [slice, if_pos h]

theorem Apart.finishFrame : self.finishFrame.Apart := fun _ => .inr rfl

theorem held_finishFrame :
    self.finishFrame.held key = (self.nextFrame.finish self.renderedFrame).1.elementStates key := by
  simp [finishFrame, held, Frame.clear]

end Window

/-! ### The history of a log -/

variable {log : List (Event GlobalElementId S)} {key : GlobalElementId × TypeId}

omit [DecidableEq GlobalElementId] [DecidableEq TypeId] in
@[simp] theorem history_concat (event : Event GlobalElementId S) :
    history (log ++ [event]) = history log ++ event.keeping := by
  simp [history]

/-! ### The invariant -/

/-- The states of the window are those that the log keeps. -/
structure Sound (config : Config GlobalElementId S) : Prop where
  apart : config.window.Apart
  /-- A state is held outside of the calls for its key, in a box of its type. -/
  held : ∀ key, key ∉ config.stack → ∀ any, config.window.held key = some any ↔
    ∃ value, Kept (history config.log) key value ∧ any = ⟨key.2, some value⟩
  /-- A call has taken the state of its key. -/
  taken : ∀ key ∈ config.stack, config.window.held key = none
  /-- The keys that the frame uses are recorded. -/
  recorded : ∀ key, key ∈ config.window.nextFrame.accessedElementStates ↔
    UsedLast key (history config.log)
  /-- What the next frame holds is recorded in it. -/
  holdsRecorded : ∀ key, config.window.nextFrame.elementStates key ≠ none →
    key ∈ config.window.nextFrame.accessedElementStates
  /-- The calls are recorded. -/
  stackRecorded : ∀ key ∈ config.stack, key ∈ config.window.nextFrame.accessedElementStates
  nodup : config.stack.Nodup
  /-- A record is of a state that is kept, or of a call. -/
  keeps : ∀ key, key ∈ config.window.renderedFrame.accessedElementStates ∨
      key ∈ config.window.nextFrame.accessedElementStates →
    key ∉ config.stack → ∃ value, Kept (history config.log) key value

omit [DecidableEq GlobalElementId] [DecidableEq TypeId] in
theorem sound_new : Sound (Config.new : Config GlobalElementId S) where
  apart _ := .inl rfl
  held key _ any := by
    constructor
    · intro h
      exact absurd h (by simp [Config.new, Window.held, Window.new, Frame.new])
    · rintro ⟨value, hkept, -⟩
      exact absurd hkept not_kept_nil
  taken key hkey := absurd hkey List.not_mem_nil
  recorded key := by
    constructor
    · intro h
      exact absurd h List.not_mem_nil
    · intro h
      exact absurd h not_usedLast_nil
  holdsRecorded key h := absurd rfl h
  stackRecorded key hkey := absurd hkey List.not_mem_nil
  nodup := List.nodup_nil
  keeps key h := by
    rcases h with h | h
    · exact absurd h List.not_mem_nil
    · exact absurd h List.not_mem_nil

/-- Outside of the calls for a key, its state is what the log keeps. -/
theorem Sound.beginAccess {config : Config GlobalElementId S} (h : Sound config)
    (hkey : key ∉ config.stack) :
    ∃ state, config.window.beginAccess key =
        .ok (state, (config.window.pushAccessed [key]).without key) ∧
      ∀ value, state = some value ↔ Kept (history config.log) key value := by
  have happart : (config.window.pushAccessed [key]).Apart :=
    (Window.apart_pushAccessed [key]).mpr h.apart
  have hremove : (config.window.pushAccessed [key]).removeState key =
      ((config.window.pushAccessed [key]).held key,
        (config.window.pushAccessed [key]).without key) := Window.removeState_eq happart
  rw [Window.held_pushAccessed] at hremove
  cases hheld : config.window.held key with
  | none =>
    refine ⟨none, ?_, ?_⟩
    · rw [Window.beginAccess, hremove, hheld]
    · intro value
      constructor
      · intro hvalue
        cases hvalue
      · intro hkept
        have := (h.held key hkey _).mpr ⟨value, hkept, rfl⟩
        rw [hheld] at this
        cases this
  | some any =>
    obtain ⟨stored, hstored, rfl⟩ := (h.held key hkey any).mp hheld
    refine ⟨some stored, ?_, ?_⟩
    · rw [Window.beginAccess, hremove, hheld]
      simp
    · intro value
      constructor
      · rintro ⟨rfl⟩
        exact hstored
      · intro hkept
        have := (h.held key hkey _).mpr ⟨value, hkept, rfl⟩
        rw [hheld] at this
        simpa using this

theorem Sound.enter {config : Config GlobalElementId S} (h : Sound config)
    (hkey : key ∉ config.stack) (state : Option (S key.2)) :
    Sound ⟨(config.window.pushAccessed [key]).without key, key :: config.stack,
      config.log ++ [.enter key state]⟩ := by
  have hused : ∀ key', UsedLast key' (history (config.log ++ [.enter key state])) ↔
      key = key' ∨ UsedLast key' (history config.log) := by
    intro key'
    rw [history_concat]
    exact usedLast_concat (by simp)
  have hkept : ∀ key' value, Kept (history (config.log ++ [.enter key state])) key' value ↔
      Kept (history config.log) key' value := by
    intro key' value
    rw [history_concat]
    exact kept_use
  constructor
  · exact Window.Apart.without h.apart
  · intro key' hkey' any
    obtain ⟨hne, hstack⟩ : key' ≠ key ∧ key' ∉ config.stack := by simpa using hkey'
    simp only [hkept]
    rw [Window.held_without, if_neg hne]
    exact h.held key' hstack any
  · intro key' hkey'
    rw [Window.held_without]
    rcases List.mem_cons.mp hkey' with rfl | hkey'
    · simp
    · rw [Window.held_pushAccessed, h.taken key' hkey', ite_self]
  · intro key'
    rw [hused]
    show key' ∈ config.window.nextFrame.accessedElementStates ++ [key] ↔ _
    rw [List.mem_append, List.mem_singleton, h.recorded key', or_comm, eq_comm]
  · intro key' hholds
    show key' ∈ config.window.nextFrame.accessedElementStates ++ [key]
    by_cases heq : key' = key
    · simp [heq]
    · have := h.holdsRecorded key'
        (by simpa [Window.without, Window.pushAccessed, heq] using hholds)
      simp [this]
  · intro key' hkey'
    show key' ∈ config.window.nextFrame.accessedElementStates ++ [key]
    rcases List.mem_cons.mp hkey' with rfl | hkey'
    · simp
    · simp [h.stackRecorded key' hkey']
  · exact List.nodup_cons.mpr ⟨hkey, h.nodup⟩
  · intro key' hrecord hkey'
    obtain ⟨hne, hstack⟩ : key' ≠ key ∧ key' ∉ config.stack := by simpa using hkey'
    simp only [hkept]
    refine h.keeps key' ?_ hstack
    rcases hrecord with hrecord | hrecord
    · exact .inl hrecord
    · refine .inr ?_
      have hrecord' : key' ∈ config.window.nextFrame.accessedElementStates ++ [key] := hrecord
      simpa [hne] using hrecord'

theorem Sound.leave {config : Config GlobalElementId S} (h : Sound config)
    {stack : List (GlobalElementId × TypeId)} (hstack : config.stack = key :: stack)
    (state : S key.2) :
    Sound ⟨config.window.endAccess key state, stack, config.log ++ [.leave key state]⟩ := by
  have hfree := h.taken key (by simp [hstack])
  have hnodup : key ∉ stack ∧ stack.Nodup := by simpa [hstack] using h.nodup
  -- the access is over, so the key counts as used
  have hused : ∀ key', UsedLast key' (history (config.log ++ [.leave key state])) ↔
      key = key' ∨ UsedLast key' (history config.log) := by
    intro key'
    rw [history_concat]
    exact usedLast_concat (by simp)
  have hkept : ∀ key', key' ≠ key → ∀ value,
      Kept (history (config.log ++ [.leave key state])) key' value ↔
        Kept (history config.log) key' value := by
    intro key' hne value
    rw [history_concat]
    exact kept_store_of_ne hne.symm
  -- the state that the access ends with is the one that is kept
  have hself : ∀ value, Kept (history (config.log ++ [.leave key state])) key value ↔
      state = value := by
    intro value
    rw [history_concat]
    exact kept_store_self
  have hrecorded : key ∈ config.window.nextFrame.accessedElementStates :=
    h.stackRecorded key (by simp [hstack])
  constructor
  · exact Window.Apart.endAccess h.apart hfree state
  · intro key' hkey' any
    rw [Window.held_endAccess]
    by_cases heq : key' = key
    · subst heq
      simp only [hself, if_true, Option.some.injEq]
      constructor
      · rintro rfl
        exact ⟨state, rfl, rfl⟩
      · rintro ⟨value, rfl, rfl⟩
        rfl
    · simp only [hkept key' heq, if_neg heq]
      exact h.held key' (by simp [hstack, heq, hkey']) any
  · intro key' hkey'
    have hne : key' ≠ key := by
      rintro rfl
      exact hnodup.1 hkey'
    rw [Window.held_endAccess, if_neg hne]
    exact h.taken key' (by simp [hstack, hkey'])
  · intro key'
    rw [hused, ← h.recorded key']
    show key' ∈ config.window.nextFrame.accessedElementStates ↔ _
    constructor
    · exact .inr
    · rintro (rfl | hmem)
      · exact hrecorded
      · exact hmem
  · intro key' hholds
    show key' ∈ config.window.nextFrame.accessedElementStates
    by_cases heq : key' = key
    · rw [heq]
      exact hrecorded
    · exact h.holdsRecorded key' (by simpa [Window.endAccess, heq] using hholds)
  · intro key' hkey'
    exact h.stackRecorded key' (by simp [hstack, hkey'])
  · exact hnodup.2
  · intro key' hrecord hkey'
    by_cases heq : key' = key
    · subst heq
      exact ⟨state, (hself state).mpr rfl⟩
    · simp only [hkept key' heq]
      exact h.keeps key' hrecord (by simp [hstack, heq, hkey'])

omit [DecidableEq GlobalElementId] [DecidableEq TypeId] in
/-- Reusing records of the rendered frame. -/
theorem Sound.reuse {config : Config GlobalElementId S} (h : Sound config)
    {keys : List (GlobalElementId × TypeId)}
    (hkeys : ∀ key ∈ keys, key ∈ config.window.renderedFrame.accessedElementStates) :
    Sound ⟨config.window.pushAccessed keys, config.stack, config.log ++ [.reuse keys]⟩ := by
  have hused : ∀ key', UsedLast key' (history (config.log ++ [.reuse keys])) ↔
      key' ∈ keys ∨ UsedLast key' (history config.log) := by
    intro key'
    rw [history_concat]
    exact usedLast_uses
  have hkept : ∀ key' value, Kept (history (config.log ++ [.reuse keys])) key' value ↔
      Kept (history config.log) key' value := by
    intro key' value
    rw [history_concat]
    exact kept_uses
  constructor
  · exact h.apart
  · intro key' hkey' any
    simp only [hkept]
    exact h.held key' hkey' any
  · exact h.taken
  · intro key'
    rw [hused]
    show key' ∈ config.window.nextFrame.accessedElementStates ++ keys ↔ _
    rw [List.mem_append, h.recorded key', or_comm]
  · intro key' hholds
    exact List.mem_append_left _ (h.holdsRecorded key' hholds)
  · intro key' hkey'
    exact List.mem_append_left _ (h.stackRecorded key' hkey')
  · exact h.nodup
  · intro key' hrecord hkey'
    simp only [hkept]
    refine h.keeps key' ?_ hkey'
    rcases hrecord with hrecord | hrecord
    · exact .inl hrecord
    · rcases List.mem_append.mp hrecord with hrecord | hrecord
      · exact .inr hrecord
      · exact .inl (hkeys key' hrecord)

theorem Sound.finish {config : Config GlobalElementId S} (h : Sound config)
    (hstack : config.stack = []) :
    Sound { config with
      window := config.window.finishFrame
      log := config.log ++ [.finish] } := by
  have hkept : ∀ key' value, Kept (history (config.log ++ [.finish])) key' value ↔
      Kept (history config.log) key' value ∧ UsedLast key' (history config.log) := by
    intro key' value
    rw [history_concat]
    exact kept_turn
  have houtside : ∀ key', key' ∉ config.stack := by simp [hstack]
  -- A state stays exactly if its key was recorded, wherever it was.
  have hheld : ∀ key', config.window.finishFrame.held key' =
      if key' ∈ config.window.nextFrame.accessedElementStates then config.window.held key'
      else none := by
    intro key'
    rw [Window.held_finishFrame, Frame.elementStates_finish]
    split
    · rw [Window.held]
      rcases h.apart key' with hnone | hnone
      · simp [hnone]
      · simp [hnone]
    · next hrecord =>
      by_contra hholds
      exact hrecord (h.holdsRecorded key' hholds)
  constructor
  · exact Window.Apart.finishFrame
  · intro key' _ any
    simp only [hkept, hheld, ← h.recorded key']
    by_cases hrecord : key' ∈ config.window.nextFrame.accessedElementStates
    · simp only [hrecord, if_true, and_true]
      exact h.held key' (houtside key') any
    · simp [hrecord]
  · intro key' hkey'
    exact absurd hkey' (houtside key')
  · intro key'
    rw [history_concat]
    constructor
    · intro hmem
      exact absurd hmem List.not_mem_nil
    · intro hlast
      exact absurd hlast not_usedLast_turn
  · intro key' hholds
    exact absurd rfl hholds
  · intro key' hkey'
    exact absurd hkey' (houtside key')
  · exact h.nodup
  · intro key' hrecord _
    rcases hrecord with hrecord | hrecord
    · have hrecord' : key' ∈ config.window.nextFrame.accessedElementStates := by
        rw [← Frame.accessedElementStates_finish]
        exact hrecord
      obtain ⟨value, hvalue⟩ := h.keeps key' (.inr hrecord') (houtside key')
      exact ⟨value, (hkept key' value).mpr ⟨hvalue, (h.recorded key').mp hrecord'⟩⟩
    · exact absurd hrecord List.not_mem_nil

/-! ### Runs -/

/-- Each closure in the log was called with what was kept at its key. -/
def Passed (log : List (Event GlobalElementId S)) : Prop :=
  ∀ key state, Whenever log (.enter key state) fun before =>
    ∀ value, state = some value ↔ Kept (history before) key value

omit [DecidableEq GlobalElementId] [DecidableEq TypeId] in
theorem Passed.concat {event : Event GlobalElementId S} (h : Passed log)
    (hevent : ∀ key state, event = .enter key state →
      ∀ value, state = some value ↔ Kept (history log) key value) :
    Passed (log ++ [event]) := by
  intro key state
  refine (h key state).append ?_
  intro before after hsplit
  obtain ⟨rfl, hevent', -⟩ : before = [] ∧ event = .enter key state ∧ after = [] := by
    rcases before with _ | ⟨first, before⟩
    · simpa [eq_comm] using hsplit
    · simp at hsplit
  rw [List.append_nil]
  exact hevent key state hevent'

omit [DecidableEq GlobalElementId] [DecidableEq TypeId] in
theorem Passed.other {event : Event GlobalElementId S} (h : Passed log)
    (hevent : ∀ key state, event ≠ .enter key state) : Passed (log ++ [event]) :=
  h.concat fun key state heq => absurd heq (hevent key state)

theorem step_spec {config : Config GlobalElementId S} {operation : Operation GlobalElementId S}
    (h : Sound config) (hpassed : Passed config.log) (hallows : config.Allows operation) :
    ∃ config', config.step operation = .ok config' ∧ Sound config' ∧ Passed config'.log := by
  cases operation with
  | enter key =>
    obtain ⟨state, hbegin, hstate⟩ := h.beginAccess hallows
    refine ⟨_, by rw [Config.step, hbegin]; rfl, h.enter hallows state, ?_⟩
    refine hpassed.concat ?_
    intro key' state' heq
    cases heq
    exact hstate
  | leave key state =>
    obtain ⟨stack, hstack⟩ := List.head?_eq_some_iff.mp hallows
    refine ⟨_, rfl, ?_, hpassed.other (by simp)⟩
    have htail : config.stack.tail = stack := by rw [hstack, List.tail_cons]
    rw [htail]
    exact h.leave hstack state
  | reusePrepaint range =>
    refine ⟨⟨_, config.stack, config.log ++ [config.reused range]⟩,
      by rw [Config.step, Window.reusePrepaint, Window.slice_ok hallows]; rfl, ?_,
      hpassed.other (by simp [Config.reused])⟩
    exact h.reuse fun key hkey => List.mem_of_mem_take (List.mem_of_mem_drop hkey)
  | reusePaint range =>
    refine ⟨⟨_, config.stack, config.log ++ [config.reused range]⟩,
      by rw [Config.step, Window.reusePaint, Window.slice_ok hallows]; rfl, ?_,
      hpassed.other (by simp [Config.reused])⟩
    exact h.reuse fun key hkey => List.mem_of_mem_take (List.mem_of_mem_drop hkey)
  | finish => exact ⟨_, rfl, h.finish hallows, hpassed.other (by simp)⟩

theorem sound_of_reachable {config : Config GlobalElementId S} (h : config.Reachable) :
    Sound config ∧ Passed config.log := by
  induction h with
  | refl =>
    refine ⟨sound_new, ?_⟩
    intro key state before after hsplit
    exact absurd hsplit (by simp [Config.new])
  | step operation run hallows hstep ih =>
    obtain ⟨config', hstep', hsound, hpassed⟩ := step_spec ih.1 ih.2 hallows
    rw [hstep] at hstep'
    cases hstep'
    exact ⟨hsound, hpassed⟩

/-- The state that a closure is called with is the one stored last at its key, if the key was
accessed or reused in every frame since, and otherwise there is none.  A key that a frame does not
use has no state behind it.  No state is in both frames, and a record has its state in one of them
or in the call for it.  No operation panics. -/
theorem element_state_persists {config : Config GlobalElementId S} (h : config.Reachable) :
    (∀ key state, Whenever config.log (.enter key state) fun before =>
      ∀ value, state = some value ↔ Kept (history before) key value) ∧
    (∀ config', config.Allows .finish → config.step .finish = .ok config' →
      ∀ key, ¬UsedLast key (history config.log) →
        config'.window.renderedFrame.elementStates key = none ∧
          config'.window.nextFrame.elementStates key = none) ∧
    (∀ key, config.window.renderedFrame.elementStates key = none ∨
      config.window.nextFrame.elementStates key = none) ∧
    (∀ key, key ∈ config.window.renderedFrame.accessedElementStates ∨
        key ∈ config.window.nextFrame.accessedElementStates →
      key ∈ config.stack ∨ config.window.renderedFrame.elementStates key ≠ none ∨
        config.window.nextFrame.elementStates key ≠ none) ∧
    ∀ operation, config.Allows operation → ∃ config', config.step operation = .ok config' := by
  obtain ⟨hsound, hpassed⟩ := sound_of_reachable h
  refine ⟨hpassed, ?_, hsound.apart, ?_, ?_⟩
  · intro config' hallows hstep key hunused
    cases hstep
    have hfinish := hsound.finish hallows
    rw [← Window.held_eq_none, Option.eq_none_iff_forall_ne_some]
    intro any hheld
    obtain ⟨value, hkept, -⟩ := (hfinish.held key (by
      have hstack : config.stack = [] := hallows
      simp [hstack]) any).mp hheld
    rw [history_concat] at hkept
    exact hunused (kept_turn.mp hkept).2
  · intro key hrecord
    by_cases hstack : key ∈ config.stack
    · exact .inl hstack
    · obtain ⟨value, hkept⟩ := hsound.keeps key hrecord hstack
      have hheld := (hsound.held key hstack _).mpr ⟨value, hkept, rfl⟩
      rcases (Window.held_eq_some hsound.apart).mp hheld with hholds | hholds
      · exact .inr (.inl (by simp [hholds]))
      · exact .inr (.inr (by simp [hholds]))
  · intro operation hallows
    obtain ⟨config', hstep, -⟩ := step_spec hsound hpassed hallows
    exact ⟨config', hstep⟩

/-- A state that is stored in one frame and reused in the next one is passed in the third. -/
theorem element_state_persists_reused :
    ∃ config : Config ℕ (fun _ : Unit => ℕ), config.Reachable ∧
      config.log = [.enter (0, ()) none, .leave (0, ()) 5, .finish, .reuse [(0, ())], .finish,
        .enter (0, ()) (some 5)] ∧
      ∀ value, some 5 = some value ↔
        Kept (history ([.enter (0, ()) none, .leave (0, ()) 5, .finish, .reuse [(0, ())],
          .finish] : List (Event ℕ fun _ : Unit => ℕ))) (0, ()) value := by
  have start : (Config.new : Config ℕ (fun _ : Unit => ℕ)).Reachable := .refl
  have run := ((((start.step
    (.enter (0, ())) (by simp [Config.Allows, Config.new]) rfl).step
    (.leave (0, ()) 5) rfl rfl).step .finish rfl rfl).step
    (.reusePaint (0, 1)) ⟨by decide, le_refl 1⟩ rfl).step .finish rfl rfl
  have run' := run.step (.enter (0, ())) List.not_mem_nil rfl
  exact ⟨_, run', rfl, (element_state_persists run').1 (0, ()) (some 5) _ [] rfl⟩

/-! ### Calls and ranges as parts of runs -/

namespace Config

variable {start config config' : Config GlobalElementId S}

theorem Run.trans (h : start.Run config) (h' : config.Run config') : start.Run config' := by
  induction h' with
  | refl => exact h
  | step operation _ hallows hstep ih => exact ih.step operation hallows hstep

/-- A call of `with_element_state` whose closure only does such operations, and has all its calls
return, is itself a part of a run. -/
theorem withElementState_run {R : Type} {window : Window GlobalElementId S} {result : R}
    {f : Option (S key.2) → Window GlobalElementId S →
      Result ((R × S key.2) × Window GlobalElementId S)}
    (hkey : key ∉ config.stack)
    (hf : ∀ (inner : Config GlobalElementId S) state returned window,
      inner.stack = key :: config.stack → f state inner.window = .ok (returned, window) →
        ∃ inner', inner.Run inner' ∧ inner'.window = window ∧ inner'.stack = inner.stack)
    (h : config.window.withElementState key f = .ok (result, window)) :
    ∃ config', config.Run config' ∧ config'.window = window ∧
      config'.stack = config.stack := by
  obtain ⟨⟨state, window₁⟩, hbegin, h⟩ := bind_eq_ok.mp h
  obtain ⟨⟨⟨result', state'⟩, window₂⟩, hreturned, h⟩ := bind_eq_ok.mp h
  cases h
  let inner : Config GlobalElementId S :=
    ⟨window₁, key :: config.stack, config.log ++ [.enter key state]⟩
  have hinner : config.Run inner := .step (.enter key) .refl hkey (by rw [step, hbegin]; rfl)
  obtain ⟨inner', hrun, rfl, hstack⟩ := hf inner state _ _ rfl hreturned
  have hstack' : inner'.stack = key :: config.stack := hstack
  refine ⟨_, (hinner.trans hrun).step (.leave key state') ?_ rfl, rfl, ?_⟩
  · show inner'.stack.head? = some key
    rw [hstack', List.head?_cons]
  · show inner'.stack.tail = config.stack
    rw [hstack', List.tail_cons]

end Config

theorem Window.beginAccess_accessed {self window : Window GlobalElementId S}
    {state : Option (S key.2)} (h : self.beginAccess key = .ok (state, window)) :
    window.renderedFrame.accessedElementStates = self.renderedFrame.accessedElementStates ∧
      window.nextFrame.accessedElementStates = self.nextFrame.accessedElementStates ++ [key] := by
  have hremove : ∀ {self : Window GlobalElementId S},
      (self.removeState key).2.renderedFrame.accessedElementStates =
          self.renderedFrame.accessedElementStates ∧
        (self.removeState key).2.nextFrame.accessedElementStates =
          self.nextFrame.accessedElementStates := by
    intro self
    rw [removeState]
    split
    · exact ⟨rfl, rfl⟩
    · exact ⟨rfl, rfl⟩
  have hwindow : window = ((self.pushAccessed [key]).removeState key).2 := by
    rw [beginAccess] at h
    split at h
    · next heq =>
      rw [heq]
      split at h <;> cases h
      rfl
    · next heq =>
      rw [heq]
      cases h
      rfl
  rw [hwindow]
  exact hremove

/-- While a frame is drawn, the records of the rendered one stay, and those of the next one
only become more. -/
theorem Config.Run.records {config config' : Config GlobalElementId S} (run : config.Run config') :
    ∃ events, config'.log = config.log ++ events ∧ (.finish ∉ events →
      config'.window.renderedFrame.accessedElementStates =
          config.window.renderedFrame.accessedElementStates ∧
        config.window.nextFrame.accessedElementStates <+:
          config'.window.nextFrame.accessedElementStates) := by
  induction run with
  | refl => exact ⟨[], by simp, fun _ => ⟨rfl, List.prefix_rfl⟩⟩
  | @step middle config' operation _ hallows hstep ih =>
    obtain ⟨events, hlog, hrecords⟩ := ih
    have hgrows : ∃ event : Event GlobalElementId S, config'.log = middle.log ++ [event] ∧
        (event ≠ .finish →
          config'.window.renderedFrame.accessedElementStates =
              middle.window.renderedFrame.accessedElementStates ∧
            middle.window.nextFrame.accessedElementStates <+:
              config'.window.nextFrame.accessedElementStates) := by
      cases operation with
      | enter key =>
        obtain ⟨⟨state, window⟩, hbegin, h⟩ := bind_eq_ok.mp hstep
        cases h
        obtain ⟨hrendered, hnext⟩ := Window.beginAccess_accessed hbegin
        refine ⟨_, rfl, fun _ => ⟨hrendered, ?_⟩⟩
        rw [hnext]
        exact List.prefix_append _ _
      | leave key state =>
        cases hstep
        exact ⟨_, rfl, fun _ => ⟨rfl, List.prefix_rfl⟩⟩
      | reusePrepaint range =>
        rw [Config.step, Window.reusePrepaint, Window.slice_ok hallows] at hstep
        cases hstep
        exact ⟨_, rfl, fun _ => ⟨rfl, List.prefix_append _ _⟩⟩
      | reusePaint range =>
        rw [Config.step, Window.reusePaint, Window.slice_ok hallows] at hstep
        cases hstep
        exact ⟨_, rfl, fun _ => ⟨rfl, List.prefix_append _ _⟩⟩
      | finish =>
        cases hstep
        exact ⟨.finish, rfl, fun h => absurd rfl h⟩
    obtain ⟨event, hlog', hgrows⟩ := hgrows
    refine ⟨events ++ [event], by rw [hlog', hlog, List.append_assoc], ?_⟩
    intro hfinish
    obtain ⟨hrendered, hnext⟩ := hrecords fun hmem => hfinish (by simp [hmem])
    obtain ⟨hrendered', hnext'⟩ := hgrows fun heq => hfinish (by simp [heq])
    exact ⟨hrendered'.trans hrendered, hnext.trans hnext'⟩

/-- From one moment of a frame to a later one. -/
def Config.WithinFrame (config config' : Config GlobalElementId S) : Prop :=
  config.Run config' ∧ ∃ events, config'.log = config.log ++ events ∧ .finish ∉ events

theorem Config.WithinFrame.records {config config' : Config GlobalElementId S}
    (h : config.WithinFrame config') :
    config'.window.renderedFrame.accessedElementStates =
        config.window.renderedFrame.accessedElementStates ∧
      config.window.nextFrame.accessedElementStates <+:
        config'.window.nextFrame.accessedElementStates := by
  obtain ⟨run, events, hlog, hfinish⟩ := h
  obtain ⟨events', hlog', hrecords⟩ := run.records
  rw [hlog', List.append_cancel_left_eq] at hlog
  exact hrecords (hlog ▸ hfinish)

/-- A range that is recorded while a frame is drawn may be reused at each moment of the next. -/
theorem recorded_range {first last stop finished config : Config GlobalElementId S}
    (hrange : first.WithinFrame last) (hrest : last.WithinFrame stop)
    (hfinish : stop.step .finish = .ok finished) (hnext : finished.WithinFrame config) :
    config.Allows (.reusePrepaint (first.window.accessedElementStatesIndex,
      last.window.accessedElementStatesIndex)) := by
  have hlast := hrest.records.2.length_le
  refine ⟨hrange.records.2.length_le, ?_⟩
  rw [hnext.records.1]
  cases hfinish
  show _ ≤ (stop.window.nextFrame.finish _).1.accessedElementStates.length
  rw [Frame.accessedElementStates_finish]
  exact hlast

end Zui.ElementState
