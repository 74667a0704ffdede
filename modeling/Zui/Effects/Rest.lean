/-
An app at rest.

In every run, also where a shutdown flushes in the middle of a callback, the number of updates and
the flag agree with the scopes (`Stacked`), and nothing is left over when the last update or
shutdown in progress ends (`at_rest`): the queue and the arena are empty, and every effect that was
pushed has been taken out.

* `Stacked`, `Ordered` — the scopes of any run;
* `Quiet` — the queue and the arena at the end of a flush.
-/
import Zui.Effects.Queue
import Zui.Effects.Shutdown

namespace Zui.Gpui.Effects

namespace App

variable {s s' t : App} {op : Op} {effect : Effect} {scope : Scope} {scopes : List Scope}

/-! ### The scopes of any run -/

/-- Which scopes there are, with the number of the flushes that updates have begun and the number of
the other updates. -/
inductive Stacked : List Scope → ℕ → ℕ → Prop
  | nil : Stacked [] 0 0
  | update {scope : Scope} {scopes : List Scope} {flushes updates : ℕ}
      (hscope : scope.isUpdate = true) (h : Stacked scopes flushes updates) :
      Stacked (scope :: scopes) flushes (updates + 1)
  | observers {running : Option ℕ} {callbacks : Subscribers Callback} {scopes : List Scope}
      {flushes updates : ℕ} (h : Stacked scopes flushes updates) :
      Stacked (.shutdown (.observers running callbacks) :: scopes) flushes updates
  | quitting {phase : Phase} {scopes : List Scope} {flushes updates : ℕ}
      (h : Stacked scopes flushes updates) :
      Stacked (.flush phase :: .shutdown .flush :: scopes) flushes updates
  /-- The update that flushes is the only one. -/
  | flushing {phase : Phase} {scopes : List Scope} (h : Stacked scopes 0 0) :
      Stacked (.flush phase :: scopes) 1 0

/-- What holds of the scopes in every state. -/
structure Ordered (s : App) : Prop where
  stacked : ∃ flushes updates, Stacked s.scopes flushes updates ∧
    s.flushingEffects = decide (flushes = 1) ∧ s.pendingUpdates = updates + flushes
  /-- A flush around other scopes has called code. -/
  calling : ∀ phase, Scope.flush phase ∈ s.scopes.tail → phase.running.isSome = true

namespace Stacked

variable {flushes updates : ℕ}

theorem flushes_le_one (h : Stacked scopes flushes updates) : flushes ≤ 1 := by
  induction h with
  | nil => exact Nat.zero_le 1
  | update hscope h ih => exact ih
  | observers h ih => exact ih
  | quitting h ih => exact ih
  | flushing h ih => exact Nat.le_refl 1

theorem of_update (h : Stacked (scope :: scopes) flushes updates) (hscope : scope.isUpdate = true) :
    ∃ n, updates = n + 1 ∧ Stacked scopes flushes n := by
  cases h with
  | update _ h => exact ⟨_, rfl, h⟩
  | observers h => cases hscope
  | quitting h => cases hscope
  | flushing h => cases hscope

theorem of_observers {running : Option ℕ} {callbacks : Subscribers Callback}
    (h : Stacked (.shutdown (.observers running callbacks) :: scopes) flushes updates) :
    Stacked scopes flushes updates := by
  cases h with
  | update hscope h => cases hscope
  | observers h => exact h

theorem of_flush {phase : Phase} (h : Stacked (.flush phase :: scopes) flushes updates) :
    (∃ outer, scopes = .shutdown .flush :: outer ∧ Stacked outer flushes updates) ∨
      flushes = 1 ∧ updates = 0 ∧ Stacked scopes 0 0 := by
  cases h with
  | update hscope h => cases hscope
  | quitting h => exact .inl ⟨_, rfl, h⟩
  | flushing h => exact .inr ⟨rfl, rfl, h⟩

theorem phase {phase : Phase} (h : Stacked (.flush phase :: scopes) flushes updates)
    (phase' : Phase) : Stacked (.flush phase' :: scopes) flushes updates := by
  rcases h.of_flush with ⟨outer, rfl, hrest⟩ | ⟨rfl, rfl, hrest⟩
  · exact .quitting hrest
  · exact .flushing hrest

theorem not_quitting (h : Stacked (.shutdown .flush :: scopes) flushes updates) : False := by
  cases h with
  | update hscope h => cases hscope

end Stacked

theorem ordered_init : App.init.Ordered :=
  ⟨⟨0, 0, .nil, rfl, rfl⟩, fun _ h => by cases h⟩

namespace Ordered

theorem same (h : s.Ordered) (hsame : s.SameScopes t) : t.Ordered := by
  constructor
  · rw [hsame.scopes, hsame.flushing, hsame.updates]
    exact h.stacked
  · rw [hsame.scopes]
    exact h.calling

/-- All flushes have called code where code of the user may begin an update. -/
theorem calling_of_calls (h : s.Ordered) (hcalls : s.calls = true) (phase : Phase)
    (hmem : Scope.flush phase ∈ s.scopes) : phase.running.isSome = true := by
  cases hscopes : s.scopes with
  | nil => simp [hscopes] at hmem
  | cons scope scopes =>
    rw [hscopes] at hmem
    rcases List.mem_cons.mp hmem with rfl | hmem
    · exact running_of_calls hcalls phase scopes hscopes
    · exact h.calling phase (by rw [hscopes]; exact hmem)

theorem tail_of_cons (h : s.Ordered) (hscopes : s.scopes = scope :: scopes) (phase : Phase)
    (hmem : Scope.flush phase ∈ scopes) : phase.running.isSome = true :=
  h.calling phase (by rw [hscopes]; exact hmem)

theorem startUpdate (h : s.Ordered) (hcalls : s.calls = true) (hscope : scope.isUpdate = true)
    (hsame : s.SameScopes t) : (t.startUpdate scope).Ordered := by
  obtain ⟨flushes, updates, hstacked, hflushing, hupdates⟩ := h.stacked
  constructor
  · refine ⟨flushes, updates + 1, ?_, ?_, ?_⟩
    · show Stacked (scope :: t.scopes) flushes (updates + 1)
      rw [hsame.scopes]
      exact .update hscope hstacked
    · exact hsame.flushing.trans hflushing
    · show t.pendingUpdates + 1 = updates + 1 + flushes
      rw [hsame.updates, hupdates]
      omega
  · show ∀ phase, Scope.flush phase ∈ t.scopes → phase.running.isSome = true
    rw [hsame.scopes]
    exact h.calling_of_calls hcalls

theorem finishUpdate (h : s.Ordered) (hscopes : s.scopes = scope :: scopes)
    (hscope : scope.isUpdate = true) (hsame : s.SameScopes t) :
    (t.finishUpdate scopes).Ordered := by
  obtain ⟨flushes, updates, hstacked, hflushing, hupdates⟩ := h.stacked
  rw [hscopes] at hstacked
  obtain ⟨n, rfl, hrest⟩ := hstacked.of_update hscope
  have hone := hrest.flushes_le_one
  have htail := h.tail_of_cons hscopes
  rw [App.finishUpdate, hsame.flushing, hsame.updates, hflushing, hupdates]
  split
  · -- The update is the only one that is counted.
    rename_i hcond
    have hnone : flushes ≠ 1 := by simpa using hcond.1
    obtain rfl : flushes = 0 := by omega
    obtain rfl : n = 0 := by omega
    exact ⟨⟨1, 0, .flushing hrest, rfl, rfl⟩, htail⟩
  · refine ⟨⟨flushes, n, hrest, rfl, ?_⟩, fun phase hmem => htail phase (List.mem_of_mem_tail hmem)⟩
    show n + 1 + flushes - 1 = n + flushes
    omega

theorem goesOn (h : s.Ordered) {phase : Phase} (hscopes : s.scopes = .flush phase :: scopes)
    (hgoes : s.GoesOn scopes t) : t.Ordered := by
  obtain ⟨flushes, updates, hstacked, hflushing, hupdates⟩ := h.stacked
  obtain ⟨phase', hphase'⟩ := hgoes.scopes
  rw [hscopes] at hstacked
  constructor
  · rw [hphase', hgoes.flushing, hgoes.updates]
    exact ⟨flushes, updates, hstacked.phase phase', hflushing, hupdates⟩
  · rw [hphase']
    exact h.tail_of_cons hscopes

theorem flushed (h : s.Ordered) {phase : Phase} (hscopes : s.scopes = .flush phase :: scopes) :
    (s.flushed scopes).Ordered := by
  obtain ⟨flushes, updates, hstacked, hflushing, hupdates⟩ := h.stacked
  have htail := h.tail_of_cons hscopes
  rw [hscopes] at hstacked
  rcases hstacked.of_flush with ⟨outer, rfl, hrest⟩ | ⟨rfl, rfl, hrest⟩
  · -- The flush of a shutdown leaves the counter and the flag alone.
    rw [App.flushed]
    exact ⟨⟨flushes, updates, hrest, hflushing, hupdates⟩, fun phase hmem =>
      htail phase (List.mem_cons_of_mem _ (List.mem_of_mem_tail hmem))⟩
  · -- That of an update resets both.
    rw [App.flushed]
    · refine ⟨⟨0, 0, hrest, rfl, ?_⟩, fun phase hmem => htail phase (List.mem_of_mem_tail hmem)⟩
      show s.pendingUpdates - 1 = 0
      omega
    · rintro outer rfl
      exact hrest.not_quitting

theorem shutdown (h : s.Ordered) (hcalls : s.calls = true) : s.shutdown.Ordered := by
  obtain ⟨flushes, updates, hstacked, hflushing, hupdates⟩ := h.stacked
  exact ⟨⟨flushes, updates, .observers hstacked, hflushing, hupdates⟩, h.calling_of_calls hcalls⟩

theorem nextQuit (h : s.Ordered) {callbacks : Subscribers Callback}
    (hscopes : s.scopes = .shutdown (.observers none callbacks) :: scopes) :
    (s.nextQuit scopes callbacks).Ordered := by
  obtain ⟨flushes, updates, hstacked, hflushing, hupdates⟩ := h.stacked
  have htail := h.tail_of_cons hscopes
  rw [hscopes] at hstacked
  rw [App.nextQuit]
  split
  · exact ⟨⟨flushes, updates, .observers hstacked.of_observers, hflushing, hupdates⟩, htail⟩
  · -- No observer is left, and the shutdown flushes.
    refine ⟨⟨flushes, updates, .quitting hstacked.of_observers, hflushing, hupdates⟩, ?_⟩
    intro phase hmem
    exact htail phase ((List.mem_cons.mp hmem).resolve_left (by simp))

theorem retQuit (h : s.Ordered) {id : ℕ} {callbacks : Subscribers Callback}
    (hscopes : s.scopes = .shutdown (.observers (some id) callbacks) :: scopes) :
    (s.retQuit scopes id callbacks).Ordered := by
  obtain ⟨flushes, updates, hstacked, hflushing, hupdates⟩ := h.stacked
  rw [hscopes] at hstacked
  exact ⟨⟨flushes, updates, .observers hstacked.of_observers, hflushing, hupdates⟩,
    h.tail_of_cons hscopes⟩

theorem step (h : s.Ordered) (hstep : s.step op = some s') : s'.Ordered := by
  cases step_cases hstep with
  | enter hcalls henters => exact h.startUpdate hcalls henters.isUpdate.2 henters.sameScopes
  | finish hscopes hleave =>
    obtain ⟨hsame, hscope⟩ := leave_sameScopes hleave
    exact h.finishUpdate hscopes hscope hsame
  | handles hruns hhandles => exact h.same hhandles.sameScopes
  | push hcalls hpushes =>
    exact h.same (hpushes.sameScopes.trans (pushEffect_spec _ _).sameScopes)
  | register hcalls hregisters => exact h.same (registerDeferred_sameScopes ..)
  | activate hcalls hactivates => exact h.same ⟨rfl, rfl, rfl⟩
  | unsubscribe hruns hheld => exact h.same ⟨rfl, rfl, rfl⟩
  | shutdown hcalls => exact h.shutdown hcalls
  | nextQuit hscopes => exact h.nextQuit hscopes
  | retQuit hscopes => exact h.retQuit hscopes
  | ret hscopes hret => exact h.goesOn hscopes (ret_cases hret).goesOn
  | advance hscopes hadvance =>
    rcases (advance_cases hadvance).goesOn hscopes with hgoes | ⟨rfl, -, rfl⟩
    · exact h.goesOn hscopes hgoes
    · exact h.flushed hscopes

end Ordered

theorem Reachable.ordered {allowed : App → Op → Prop} (h : Reachable allowed s) : s.Ordered := by
  induction h with
  | init => exact ordered_init
  | step _ _ hstep ih => exact ih.step hstep

/-! ### The end of a flush -/

/-- The queue is empty while the arena is cleared. -/
def Clearing (s : App) : Prop :=
  ∀ scopes, s.scopes = .flush .clear :: scopes → s.pendingEffects = []

/-- The queue is empty while the arena is cleared, and nothing is left over when all is done. -/
structure Quiet (s : App) : Prop where
  clearing : s.Clearing
  empty : s.scopes = [] → s.pendingEffects = [] ∧ s.eventArena = []

namespace Quiet

theorem same (h : s.Clearing) (hne : s.scopes ≠ []) (hscopes : t.scopes = s.scopes)
    (heffects : t.pendingEffects = s.pendingEffects) : t.Quiet := by
  constructor
  · rw [Clearing, hscopes, heffects]
    exact h
  · intro hnil
    exact absurd (hscopes.symm.trans hnil) hne

theorem of_cons (hscopes : t.scopes = scope :: scopes) (hclear : scope ≠ .flush .clear) :
    t.Quiet := by
  constructor
  · intro outer houter
    exact absurd (List.cons.inj (hscopes.symm.trans houter)).1 hclear
  · intro hnil
    rw [hscopes] at hnil
    cases hnil

theorem of_calls (hcalls : s.calls = true) (hne : s.scopes ≠ []) (hscopes : t.scopes = s.scopes) :
    t.Quiet := by
  cases hlist : s.scopes with
  | nil => exact absurd hlist hne
  | cons scope scopes =>
    refine of_cons (hscopes.trans hlist) ?_
    rintro rfl
    simp [calls, hlist, Phase.running] at hcalls

theorem of_tail (h : s.Ordered) (hscopes : s.scopes = scope :: scopes) (ht : t.scopes = scopes)
    (hne : scopes ≠ []) : t.Quiet := by
  constructor
  · intro outer houter
    have hrunning := h.tail_of_cons hscopes .clear (by rw [← ht, houter]; exact List.mem_cons_self)
    cases hrunning
  · intro hnil
    exact absurd (ht.symm.trans hnil) hne

theorem finishUpdate (h : s.Ordered) (hscopes : s.scopes = scope :: scopes)
    (hscope : scope.isUpdate = true) (hsame : s.SameScopes t) : (t.finishUpdate scopes).Quiet := by
  obtain ⟨flushes, updates, hstacked, hflushing, hupdates⟩ := h.stacked
  rw [App.finishUpdate]
  split
  · exact of_cons rfl (by rintro ⟨⟩)
  · rename_i hcond
    refine of_tail h hscopes rfl ?_
    rintro rfl
    -- The last update that ends flushes.
    rw [hscopes] at hstacked
    obtain ⟨n, rfl, hnil⟩ := hstacked.of_update hscope
    cases hnil
    exact hcond ⟨hsame.flushing.trans hflushing, hsame.updates.trans hupdates⟩

theorem endEffect (h : s.endEffect scopes effect = some t) : t.Quiet := by
  obtain ⟨entities, lost, rfl, -⟩ := endEffect_eq_some h
  exact of_cons (show _ = Scope.flush .takeDropped :: scopes from rfl) (by rintro ⟨⟩)

theorem applied (h : s.Applied scopes effect t) : t.Quiet := by
  cases h with
  | @retain effect topic subscribers moved htopic htake =>
    exact of_cons (show _ = Scope.flush (.retain effect ⟨topic, [], none, moved⟩) ::
      scopes from rfl)
      (by rintro ⟨⟩)
  | unheard htopic htake hend => exact endEffect hend
  | refreshWindows hend => exact endEffect hend
  | activate hend => exact endEffect hend
  | @deferred callback =>
    exact of_cons (show _ = Scope.flush (.deferred callback) :: scopes from rfl) (by rintro ⟨⟩)

theorem visited {pass : Frame Topic Callback} {subscriber : ℕ × Callback}
    {rest : Subscribers Callback} (h : s.Visited scopes effect pass subscriber rest t) :
    t.Quiet := by
  cases h with
  | kept => exact of_cons rfl (by rintro ⟨⟩)
  | removed => exact of_cons rfl (by rintro ⟨⟩)
  | called => exact of_cons rfl (by rintro ⟨⟩)

theorem returned {phase : Phase} {keep : Bool} (h : s.Returned scopes keep phase t) : t.Quiet := by
  cases h with
  | release => exact of_cons rfl (by rintro ⟨⟩)
  | retain => exact of_cons rfl (by rintro ⟨⟩)
  | deferred hend => exact endEffect hend

theorem flushed (h : s.Clearing) (hscopes : s.scopes = .flush .clear :: scopes)
    (harena : s.eventArena = []) : (s.flushed scopes).Quiet := by
  have heffects := h scopes hscopes
  unfold App.flushed
  split
  · exact ⟨fun _ _ => heffects, fun _ => ⟨heffects, harena⟩⟩
  · exact ⟨fun _ _ => heffects, fun _ => ⟨heffects, harena⟩⟩

theorem advanced (h : s.Clearing) {phase : Phase}
    (hscopes : s.scopes = .flush phase :: scopes) (hadvanced : s.Advanced scopes phase t) :
    t.Quiet := by
  cases hadvanced with
  | takeDropped htaken =>
    refine of_cons rfl ?_
    split <;> rintro ⟨⟩
  | releaseEnd => exact of_cons rfl (by rintro ⟨⟩)
  | release => exact of_cons rfl (by rintro ⟨⟩)
  | callRelease hnext => exact of_cons rfl (by rintro ⟨⟩)
  | dropValue hnext => exact of_cons rfl (by rintro ⟨⟩)
  | popFront heffects happly => exact applied happly
  | clear heffects => exact ⟨fun _ _ => heffects, fun hnil => by cases hnil⟩
  | visit hcurrent hrest hvisit => exact visited hvisit
  | endRetain hcurrent hrest hend => exact endEffect hend
  | clearEvent harena =>
    have heffects := h scopes hscopes
    exact ⟨fun _ _ => heffects, fun hnil => by cases hscopes.symm.trans hnil⟩
  | clearHandle harena hdrop =>
    obtain ⟨entities, -, rfl⟩ := dropHandle_eq_some hdrop
    have heffects := h scopes hscopes
    exact ⟨fun _ _ => heffects, fun hnil => by cases hscopes.symm.trans hnil⟩
  | cleared harena => exact flushed h hscopes harena

theorem step (h : s.Clearing) (hordered : s.Ordered) (hne : s.scopes ≠ [])
    (hstep : s.step op = some s') : s'.Quiet := by
  cases step_cases hstep with
  | enter hcalls henters =>
    refine of_cons rfl ?_
    rintro rfl
    cases henters
  | finish hscopes hleave =>
    obtain ⟨hsame, hscope⟩ := leave_sameScopes hleave
    exact finishUpdate hordered hscopes hscope hsame
  | handles hruns hhandles =>
    exact same h hne hhandles.sameScopes.scopes hhandles.mute.effects
  | push hcalls hpushes =>
    exact of_calls hcalls hne (hpushes.sameScopes.trans (pushEffect_spec _ _).sameScopes).scopes
  | register hcalls hregisters =>
    exact of_calls hcalls hne (registerDeferred_sameScopes ..).scopes
  | activate hcalls hactivates => exact of_calls hcalls hne rfl
  | unsubscribe hruns hheld => exact same h hne rfl rfl
  | shutdown hcalls => exact of_cons rfl (by rintro ⟨⟩)
  | nextQuit hscopes =>
    rw [App.nextQuit]
    split
    · exact of_cons rfl (by rintro ⟨⟩)
    · exact of_cons rfl (by rintro ⟨⟩)
  | retQuit hscopes => exact of_cons rfl (by rintro ⟨⟩)
  | ret hscopes hret => exact returned (ret_cases hret)
  | advance hscopes hadvance => exact advanced h hscopes (advance_cases hadvance)

end Quiet

theorem clearing_of_nil (hnil : s.scopes = []) (hstep : s.step op = some s') : s'.Clearing := by
  have hsame (t : App) (hscopes : t.scopes = s.scopes) : t.Clearing := fun scopes hclear => by
    cases (hscopes.trans hnil).symm.trans hclear
  cases step_cases hstep with
  | enter hcalls henters =>
    refine (Quiet.of_cons rfl ?_).clearing
    rintro rfl
    cases henters
  | handles hruns hhandles => exact hsame _ hhandles.sameScopes.scopes
  | push hcalls hpushes =>
    exact hsame _ (hpushes.sameScopes.trans (pushEffect_spec _ _).sameScopes).scopes
  | register hcalls hregisters => exact hsame _ (registerDeferred_sameScopes ..).scopes
  | activate hcalls hactivates => exact hsame _ rfl
  | unsubscribe hruns hheld => exact hsame _ rfl
  | shutdown hcalls => exact (Quiet.of_cons rfl (by rintro ⟨⟩)).clearing
  | finish hscopes => cases hnil.symm.trans hscopes
  | nextQuit hscopes => cases hnil.symm.trans hscopes
  | retQuit hscopes => cases hnil.symm.trans hscopes
  | ret hscopes => cases hnil.symm.trans hscopes
  | advance hscopes => cases hnil.symm.trans hscopes

theorem Reachable.clearing {allowed : App → Op → Prop} (h : Reachable allowed s) :
    s.Clearing := by
  induction h with
  | init => exact fun _ _ => rfl
  | @step s _ _ hs _ hstep ih =>
    by_cases hnil : s.scopes = []
    · exact clearing_of_nil hnil hstep
    · exact (Quiet.step ih hs.ordered hnil hstep).clearing

/-! ### Nothing in progress -/

/-- In every run, also where a shutdown flushes in a callback: when the last update or shutdown that
is in progress ends, the counter and the flag are as in the beginning, queue, arena and pending sets
are empty, and all effects that were pushed have been taken out of the queue, in their order.  What
code outside of all updates pushes waits for the next one. -/
theorem at_rest {allowed : App → Op → Prop} (h : Reachable allowed s) (hne : s.scopes ≠ [])
    (hop : allowed s op) (hstep : s.step op = some s') (hscopes : s'.scopes = []) :
    s'.pendingUpdates = 0 ∧ s'.flushingEffects = false ∧ s'.pendingEffects = [] ∧
      s'.eventArena = [] ∧ (∀ entity, s'.pendingNotifications entity = false) ∧
      (∀ globalType, s'.pendingGlobalNotifications globalType = false) ∧
      beganEffects s'.log = pushedEffects s'.log := by
  have hafter := h.step hop hstep
  obtain ⟨flushes, updates, hstacked, hflushing, hupdates⟩ := hafter.ordered.stacked
  obtain ⟨heffects, harena⟩ := (Quiet.step h.clearing h.ordered hne hstep).empty hscopes
  have hqueued := hafter.queued
  have hpending (effect : Effect) (heffect : effect.coalesces = true) : ¬ s'.Pending effect := by
    rw [hqueued.pending effect heffect, heffects]
    exact List.not_mem_nil
  rw [hscopes] at hstacked
  cases hstacked
  refine ⟨hupdates, hflushing, heffects, harena, fun entity => ?_, fun globalType => ?_, ?_⟩
  · simpa [Pending] using hpending (.notify entity) rfl
  · simpa [Pending] using hpending (.notifyGlobalObservers globalType) rfl
  · rw [hqueued.order, heffects, List.append_nil]

/-- `new_app` sets a global, and the notification waits for the first update to end.  Then a quit
observer defers two callbacks, and the first of them flushes the second one. -/
def restingOps : List Op :=
  [.notifyGlobal 0, .update, .onAppQuit, .finish, .advance, .advance, .advance, .advance, .advance,
    .shutdown, .advance, .defer 0, .defer 1, .ret true, .advance, .advance, .advance, .update,
    .finish, .advance, .advance, .ret true, .advance, .advance, .advance, .ret true, .advance,
    .advance]

theorem at_rest_reentered : ∃ s s' : App,
    App.init.run (fun _ _ => True) restingOps = some s ∧ s.step .advance = some s' ∧
      s'.scopes = [] ∧ s'.flushingEffects = false ∧
      beganEffects s'.log = [.notifyGlobalObservers 0, .defer (.user 0), .defer (.user 1)] := by
  have hrest (s s' : App) (hrun : App.init.run (fun _ _ => True) restingOps = some s)
      (hne : s.scopes ≠ []) (hstep : s.step .advance = some s') (hscopes : s'.scopes = []) :
      s'.flushingEffects = false ∧ beganEffects s'.log = pushedEffects s'.log := by
    obtain ⟨-, hflushing, -, -, -, -, hbegan⟩ :=
      at_rest (Reachable.run .init hrun) hne trivial hstep hscopes
    exact ⟨hflushing, hbegan⟩
  exact ⟨_, _, rfl, rfl, rfl, hrest _ _ rfl (List.cons_ne_nil _ _) rfl rfl⟩

end App

end Zui.Gpui.Effects
