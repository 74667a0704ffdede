/-
The scopes of an app.

Updates are counted, and only the outermost one flushes.  As long as no callback calls `shutdown`,
or begins an update while none is counted (`calm`), there is one flush at most: around it there are
quit observers, or a shutdown and the code that has called it, and while there are updates inside of
it code of the user runs that it has called (`Shape`).
-/
import Zui.Effects.Steps

namespace Zui.Gpui.Effects

namespace Scope

/-- The scope is an update. -/
def isUpdate : Scope → Bool
  | flush _ => false
  | shutdown _ => false
  | _ => true

/-- The scope is a shutdown in the loop over the quit observers. -/
def isObservers : Scope → Bool
  | shutdown (.observers _ _) => true
  | _ => false

/-- The effects that are applied in a scope. -/
def applying : Scope → List Effect
  | flush (.retain effect _) => [effect]
  | flush (.deferred callback) => [.defer (.user callback)]
  | _ => []

/-- The code that a flush has called. -/
def running : Scope → List Callee
  | flush phase => phase.running.toList
  | _ => []

end Scope

/-- The step begins an update. -/
def Op.entersUpdate : Op → Bool
  | .update => true
  | .new _ _ => true
  | .insertEntity _ => true
  | .updateEntity _ => true
  | .asMut _ => true
  | _ => false

namespace App

variable {s s' t : App} {op : Op} {effect : Effect} {scope : Scope} {scopes : List Scope}

/-! ### What a step leaves alone -/

/-- Updates and flushes are the same. -/
structure SameScopes (s t : App) : Prop where
  scopes : t.scopes = s.scopes
  flushing : t.flushingEffects = s.flushingEffects
  updates : t.pendingUpdates = s.pendingUpdates

theorem Pushed.sameScopes (h : s.Pushed effect t) : s.SameScopes t := by
  cases h with
  | coalesced => exact ⟨rfl, rfl, rfl⟩
  | pushed =>
    obtain ⟨notifications, globals, hmark⟩ := s.mark_eq true effect
    rw [pushBack, hmark]
    exact ⟨rfl, rfl, rfl⟩

theorem SameScopes.trans {u : App} (h : s.SameScopes t) (h' : t.SameScopes u) :
    s.SameScopes u where
  scopes := h'.scopes.trans h.scopes
  flushing := h'.flushing.trans h.flushing
  updates := h'.updates.trans h.updates

theorem Enters.sameScopes (h : s.Enters op scope t) : s.SameScopes t := by
  cases h with
  | update => exact ⟨rfl, rfl, rfl⟩
  | new hfree hclone =>
    obtain ⟨entities, -, rfl⟩ := cloneHandle_eq_some hclone
    exact ⟨rfl, rfl, rfl⟩
  | insertEntity => exact ⟨rfl, rfl, rfl⟩
  | updateEntity hid hlease =>
    obtain ⟨entities, -, rfl⟩ := lease_eq_some hlease
    exact ⟨rfl, rfl, rfl⟩
  | asMut hid hlease =>
    obtain ⟨entities, -, rfl⟩ := lease_eq_some hlease
    exact ⟨rfl, rfl, rfl⟩

theorem Enters.isUpdate (h : s.Enters op scope t) :
    op.entersUpdate = true ∧ scope.isUpdate = true := by
  cases h <;> exact ⟨rfl, rfl⟩

theorem leave_sameScopes (h : s.leave scope = some t) : s.SameScopes t ∧ scope.isUpdate = true := by
  cases scope with
  | update => exact ⟨Option.some.inj h ▸ ⟨rfl, rfl, rfl⟩, rfl⟩
  | new entity tid =>
    obtain rfl := Option.some.inj h
    have hpushed := (s.pushEffect_spec (.entityCreated entity tid)).sameScopes
    exact ⟨⟨hpushed.scopes, hpushed.flushing, hpushed.updates⟩, rfl⟩
  | insertEntity entity => exact ⟨Option.some.inj h ▸ ⟨rfl, rfl, rfl⟩, rfl⟩
  | updateEntity entity =>
    obtain ⟨lease, -, rfl⟩ := endLease_eq_some h
    exact ⟨⟨rfl, rfl, rfl⟩, rfl⟩
  | borrow entity =>
    obtain ⟨lease, -, rfl⟩ := endLease_eq_some h
    have hpushed :=
      (pushEffect_spec { s with log := s.log ++ [.notified entity] } (.notify entity)).sameScopes
    exact ⟨⟨hpushed.scopes, hpushed.flushing, hpushed.updates⟩, rfl⟩
  | flush phase => cases h
  | shutdown stage => cases h

theorem Handles.sameScopes (h : s.Handles op t) : s.SameScopes t := by
  cases h with
  | reserveEntity => exact ⟨rfl, rfl, rfl⟩
  | dropReservation hslot hdrop =>
    obtain ⟨entities, -, rfl⟩ := dropHandle_eq_some hdrop
    exact ⟨rfl, rfl, rfl⟩
  | clone hid hclone =>
    obtain ⟨entities, -, rfl⟩ := cloneHandle_eq_some hclone
    exact ⟨rfl, rfl, rfl⟩
  | upgrade hupgrade =>
    obtain ⟨-, rfl⟩ := upgradeHandle_eq_some hupgrade
    exact ⟨rfl, rfl, rfl⟩
  | drop howned hdrop =>
    obtain ⟨entities, -, rfl⟩ := dropHandle_eq_some hdrop
    exact ⟨rfl, rfl, rfl⟩

theorem Pushes.sameScopes (h : s.Pushes op effect t) : s.SameScopes t := by
  cases h <;> exact ⟨rfl, rfl, rfl⟩

theorem registerDeferred_sameScopes (s : App) (topic : Topic) (callback : Callback) :
    s.SameScopes (s.registerDeferred topic callback) := by
  have hpushed := ((s.register topic callback).pushEffect_spec
    (.defer (.activate topic s.subscribers.nextSubscriberId))).sameScopes
  exact ⟨hpushed.scopes, hpushed.flushing, hpushed.updates⟩

/-- The flush goes to another phase. -/
structure GoesOn (s : App) (scopes : List Scope) (t : App) : Prop where
  scopes : ∃ phase, t.scopes = .flush phase :: scopes
  flushing : t.flushingEffects = s.flushingEffects
  updates : t.pendingUpdates = s.pendingUpdates

theorem endEffect_goesOn (h : s.endEffect scopes effect = some t) : s.GoesOn scopes t := by
  obtain ⟨entities, lost, rfl, -⟩ := endEffect_eq_some h
  exact ⟨⟨_, rfl⟩, rfl, rfl⟩

theorem Applied.goesOn (h : s.Applied scopes effect t) : s.GoesOn scopes t := by
  obtain ⟨notifications, globals, hmark⟩ := s.mark_eq false effect
  cases h with
  | retain htopic htake =>
    rw [hmark]
    exact ⟨⟨_, rfl⟩, rfl, rfl⟩
  | unheard htopic htake hend =>
    rw [hmark] at hend
    have := endEffect_goesOn hend
    exact ⟨this.scopes, this.flushing, this.updates⟩
  | refreshWindows hend => exact endEffect_goesOn hend
  | activate hend =>
    have := endEffect_goesOn hend
    exact ⟨this.scopes, this.flushing, this.updates⟩
  | deferred => exact ⟨⟨_, rfl⟩, rfl, rfl⟩

/-- What the closure of `retain` does in front of the code of the user. -/
theorem answer_eq_call {callback : Callback} (h : s.answer callback effect = .call t) :
    ∃ entities, t = { s with entities := entities } := by
  have hwith : ∀ {o : Option App}, withHandle o = .call t → o = some t := by
    intro o ho
    cases o with
    | none => cases ho
    | some u => exact congrArg some (Answer.call.inj ho)
  unfold answer at h
  split at h
  · obtain ⟨-, rfl⟩ := upgradeHandle_eq_some (hwith h)
    exact ⟨_, rfl⟩
  · split at h
    · obtain ⟨-, rfl⟩ := upgradeHandle_eq_some (hwith h)
      exact ⟨_, rfl⟩
    · cases h
  · obtain ⟨entities, -, rfl⟩ := cloneHandle_eq_some (hwith h)
    exact ⟨_, rfl⟩
  · obtain rfl := Answer.call.inj h
    exact ⟨_, rfl⟩

theorem Visited.goesOn {pass : Frame Topic Callback} {subscriber : ℕ × Callback}
    {rest : Subscribers Callback} (h : s.Visited scopes effect pass subscriber rest t) :
    s.GoesOn scopes t := by
  cases h with
  | kept => exact ⟨⟨_, rfl⟩, rfl, rfl⟩
  | removed => exact ⟨⟨_, rfl⟩, rfl, rfl⟩
  | called hactive hdropped hanswer =>
    obtain ⟨entities, rfl⟩ := answer_eq_call hanswer
    exact ⟨⟨_, rfl⟩, rfl, rfl⟩

theorem Advanced.goesOn {phase : Phase} (hscopes : s.scopes = .flush phase :: scopes)
    (h : s.Advanced scopes phase t) :
    s.GoesOn scopes t ∨ phase = .clear ∧ s.eventArena = [] ∧ t = s.flushed scopes := by
  cases h with
  | takeDropped => exact .inl ⟨⟨_, rfl⟩, rfl, rfl⟩
  | releaseEnd => exact .inl ⟨⟨_, rfl⟩, rfl, rfl⟩
  | release => exact .inl ⟨⟨_, rfl⟩, rfl, rfl⟩
  | callRelease => exact .inl ⟨⟨_, rfl⟩, rfl, rfl⟩
  | dropValue => exact .inl ⟨⟨_, rfl⟩, rfl, rfl⟩
  | popFront heffects happly =>
    have := happly.goesOn
    exact .inl ⟨this.scopes, this.flushing, this.updates⟩
  | clear => exact .inl ⟨⟨_, rfl⟩, rfl, rfl⟩
  | visit hcurrent hrest hvisit => exact .inl hvisit.goesOn
  | endRetain hcurrent hrest hend =>
    have := endEffect_goesOn hend
    exact .inl ⟨this.scopes, this.flushing, this.updates⟩
  | clearEvent => exact .inl ⟨⟨_, hscopes⟩, rfl, rfl⟩
  | clearHandle harena hdrop =>
    obtain ⟨entities, -, rfl⟩ := dropHandle_eq_some hdrop
    exact .inl ⟨⟨_, hscopes⟩, rfl, rfl⟩
  | cleared harena => exact .inr ⟨rfl, harena, rfl⟩

theorem Returned.goesOn {phase : Phase} {keep : Bool} (h : s.Returned scopes keep phase t) :
    s.GoesOn scopes t := by
  cases h with
  | release => exact ⟨⟨_, rfl⟩, rfl, rfl⟩
  | retain => exact ⟨⟨_, rfl⟩, rfl, rfl⟩
  | deferred hend =>
    have := endEffect_goesOn hend
    exact ⟨this.scopes, this.flushing, this.updates⟩

/-! ### The shape of the scopes -/

/-- The code that flushes have called and that has not returned. -/
def running (s : App) : List Callee := s.scopes.flatMap Scope.running

/-- The effects that are applied. -/
def applying (s : App) : List Effect := s.scopes.flatMap Scope.applying

/-- In code that a flush has called, `shutdown` is not called, and no update begins while
`pending_updates` is zero. -/
def calm (s : App) (op : Op) : Bool :=
  s.running.isEmpty || (op ≠ .shutdown && (!op.entersUpdate || 0 < s.pendingUpdates))

/-- Which scopes there are, with the flag and the number of updates. -/
inductive Scoped : List Scope → Bool → ℕ → Prop
  | outer {scopes : List Scope}
      (houter : ∀ scope ∈ scopes, scope.isUpdate = true ∨ scope.isObservers = true) :
      Scoped scopes false (scopes.countP Scope.isUpdate)
  /-- The flush of the outermost update. -/
  | flushing {inner outer : List Scope} {phase : Phase}
      (hinner : ∀ scope ∈ inner, scope.isUpdate = true)
      (hrunning : inner ≠ [] → phase.running.isSome = true)
      (houter : ∀ scope ∈ outer, scope.isObservers = true) :
      Scoped (inner ++ .flush phase :: outer) true (inner.length + 1)
  /-- The flush of a shutdown. -/
  | quitting {inner outer : List Scope} {phase : Phase}
      (hinner : ∀ scope ∈ inner, scope.isUpdate = true)
      (hrunning : inner ≠ [] → phase.running.isSome = true)
      (houter : ∀ scope ∈ outer, scope.isUpdate = true ∨ scope.isObservers = true)
      (hupdates : inner ≠ [] → 0 < outer.countP Scope.isUpdate) :
      Scoped (inner ++ .flush phase :: .shutdown .flush :: outer) false
        (inner.length + outer.countP Scope.isUpdate)

/-- What holds of the scopes in every state of a calm run. -/
def Shape (s : App) : Prop := Scoped s.scopes s.flushingEffects s.pendingUpdates

theorem shape_init : App.init.Shape :=
  .outer (show ∀ scope ∈ ([] : List Scope), scope.isUpdate = true ∨
    scope.isObservers = true by simp)

theorem isObservers_of_countP {outer : List Scope}
    (houter : ∀ scope ∈ outer, scope.isUpdate = true ∨ scope.isObservers = true)
    (hcount : outer.countP Scope.isUpdate = 0) : ∀ scope ∈ outer, scope.isObservers = true :=
  fun scope hmem => (houter scope hmem).resolve_left (List.countP_eq_zero.mp hcount scope hmem)

theorem countP_of_isObservers {outer : List Scope}
    (houter : ∀ scope ∈ outer, scope.isObservers = true) : outer.countP Scope.isUpdate = 0 := by
  refine List.countP_eq_zero.mpr fun scope hmem hupdate => ?_
  have hobservers := houter scope hmem
  cases scope <;> first | cases hobservers | cases hupdate

theorem running_of_outer {outer : List Scope}
    (houter : ∀ scope ∈ outer, scope.isUpdate = true ∨ scope.isObservers = true) :
    outer.flatMap Scope.running = [] := by
  refine List.flatMap_eq_nil_iff.mpr fun scope hmem => ?_
  have hscope := houter scope hmem
  cases scope <;> first | rfl | simp [Scope.isUpdate, Scope.isObservers] at hscope

theorem isUpdate_or_isObservers {outer : List Scope}
    (houter : ∀ scope ∈ outer, scope.isObservers = true) :
    ∀ scope ∈ outer, scope.isUpdate = true ∨ scope.isObservers = true :=
  fun scope hmem => .inr (houter scope hmem)

namespace Scoped

variable {phase : Phase} {flushing : Bool} {updates : ℕ}

theorem of_flush (h : Scoped (.flush phase :: scopes) flushing updates) :
    (flushing = true ∧ updates = 1 ∧ ∀ scope ∈ scopes, scope.isObservers = true) ∨
      (flushing = false ∧ ∃ outer, scopes = .shutdown .flush :: outer ∧
        (∀ scope ∈ outer, scope.isUpdate = true ∨ scope.isObservers = true) ∧
        updates = outer.countP Scope.isUpdate) := by
  generalize hlist : Scope.flush phase :: scopes = list at h
  cases h with
  | outer houter =>
    have hflush := houter (.flush phase) (hlist ▸ List.mem_cons_self)
    simp [Scope.isUpdate, Scope.isObservers] at hflush
  | @flushing inner outer phase' hinner hrunning houter =>
    cases inner with
    | nil =>
      obtain ⟨-, rfl⟩ := List.cons.inj hlist
      exact .inl ⟨rfl, rfl, houter⟩
    | cons scope inner =>
      obtain ⟨rfl, -⟩ := List.cons.inj hlist
      exact absurd (hinner _ List.mem_cons_self) (by simp [Scope.isUpdate])
  | @quitting inner outer phase' hinner hrunning houter hupdates =>
    cases inner with
    | nil =>
      obtain ⟨-, rfl⟩ := List.cons.inj hlist
      exact .inr ⟨rfl, outer, rfl, houter, by simp⟩
    | cons scope inner =>
      obtain ⟨rfl, -⟩ := List.cons.inj hlist
      exact absurd (hinner _ List.mem_cons_self) (by simp [Scope.isUpdate])

/-- The scopes around a shutdown in the loop over the quit observers. -/
theorem of_observers {running : Option ℕ} {callbacks : Subscribers Callback}
    (h : Scoped (.shutdown (.observers running callbacks) :: scopes) flushing updates) :
    flushing = false ∧ (∀ scope ∈ scopes, scope.isUpdate = true ∨ scope.isObservers = true) ∧
      updates = scopes.countP Scope.isUpdate := by
  generalize hlist : Scope.shutdown (.observers running callbacks) :: scopes = list at h
  cases h with
  | outer houter =>
    subst hlist
    refine ⟨rfl, (List.forall_mem_cons.mp houter).2, ?_⟩
    rw [List.countP_cons_of_neg (by simp [Scope.isUpdate])]
  | @flushing inner outer phase' hinner hrunning houter =>
    cases inner with
    | nil => cases (List.cons.inj hlist).1
    | cons scope inner =>
      obtain ⟨rfl, -⟩ := List.cons.inj hlist
      exact absurd (hinner _ List.mem_cons_self) (by simp [Scope.isUpdate])
  | @quitting inner outer phase' hinner hrunning houter hupdates =>
    cases inner with
    | nil => cases (List.cons.inj hlist).1
    | cons scope inner =>
      obtain ⟨rfl, -⟩ := List.cons.inj hlist
      exact absurd (hinner _ List.mem_cons_self) (by simp [Scope.isUpdate])

/-- A shutdown is in the loop over the quit observers. -/
theorem observers (houter : ∀ scope ∈ scopes, scope.isUpdate = true ∨ scope.isObservers = true)
    (running : Option ℕ) (callbacks : Subscribers Callback) :
    Scoped (.shutdown (.observers running callbacks) :: scopes) false
      (scopes.countP Scope.isUpdate) := by
  have houter' : ∀ scope ∈ .shutdown (.observers running callbacks) :: scopes,
      scope.isUpdate = true ∨ scope.isObservers = true :=
    List.forall_mem_cons.mpr ⟨.inr rfl, houter⟩
  have hscoped := Scoped.outer houter'
  rwa [List.countP_cons_of_neg (by simp [Scope.isUpdate])] at hscoped

theorem of_running (h : Scoped scopes flushing updates)
    (hflush : ∀ phase outer, scopes = .flush phase :: outer → phase.running.isSome = true)
    (hrunning : scopes.flatMap Scope.running = []) :
    flushing = false ∧ (∀ scope ∈ scopes, scope.isUpdate = true ∨ scope.isObservers = true) ∧
      updates = scopes.countP Scope.isUpdate := by
  -- A flush among the scopes has called code.
  have hnone {inner outer : List Scope} {phase : Phase}
      (hinner : inner ≠ [] → phase.running.isSome = true)
      (hscopes : scopes = inner ++ .flush phase :: outer) : False := by
    have hsome : phase.running.isSome = true := by
      cases inner with
      | nil => exact hflush phase outer hscopes
      | cons scope inner => exact hinner (List.cons_ne_nil _ _)
    have hempty := List.flatMap_eq_nil_iff.mp hrunning (.flush phase) (by simp [hscopes])
    rw [Scope.running, Option.toList_eq_nil_iff] at hempty
    simp [hempty] at hsome
  cases h with
  | outer houter => exact ⟨rfl, houter, rfl⟩
  | flushing hinner hcalled houter => exact (hnone hcalled rfl).elim
  | quitting hinner hcalled houter hupdates => exact (hnone hcalled rfl).elim

theorem cons (h : Scoped scopes flushing updates) (hscope : scope.isUpdate = true)
    (hflush : ∀ phase outer, scopes = .flush phase :: outer → phase.running.isSome = true)
    (hcalm : scopes.flatMap Scope.running = [] ∨ 0 < updates) :
    Scoped (scope :: scopes) flushing (updates + 1) := by
  rcases hcalm with hrunning | hpos
  · obtain ⟨rfl, houter, rfl⟩ := h.of_running hflush hrunning
    rw [← List.countP_cons_of_pos hscope]
    exact .outer (List.forall_mem_cons.mpr ⟨.inl hscope, houter⟩)
  cases h with
  | outer houter =>
    rw [← List.countP_cons_of_pos hscope]
    exact .outer (List.forall_mem_cons.mpr ⟨.inl hscope, houter⟩)
  | @flushing inner outer phase hinner hrunning houter =>
    have hinner' : ∀ scope' ∈ scope :: inner, scope'.isUpdate = true :=
      List.forall_mem_cons.mpr ⟨hscope, hinner⟩
    refine .flushing hinner' (fun _ => ?_) houter
    cases inner with
    | nil => exact hflush phase outer rfl
    | cons scope' inner => exact hrunning (List.cons_ne_nil _ _)
  | @quitting inner outer phase hinner hrunning houter hupdates =>
    rw [Nat.add_right_comm]
    have hinner' : ∀ scope' ∈ scope :: inner, scope'.isUpdate = true :=
      List.forall_mem_cons.mpr ⟨hscope, hinner⟩
    refine .quitting hinner' (fun _ => ?_) houter (fun _ => ?_)
    · cases inner with
      | nil => exact hflush phase _ rfl
      | cons scope' inner => exact hrunning (List.cons_ne_nil _ _)
    · cases inner with
      | nil => simpa using hpos
      | cons scope' inner => exact hupdates (List.cons_ne_nil _ _)

theorem tail (h : Scoped (scope :: scopes) flushing updates) (hscope : scope.isUpdate = true) :
    Scoped scopes flushing (updates - 1) ∧
      (flushing = false → updates = 1 → ∀ scope ∈ scopes, scope.isObservers = true) := by
  generalize hlist : scope :: scopes = list at h
  cases h with
  | outer houter =>
    subst hlist
    obtain ⟨-, houter⟩ := List.forall_mem_cons.mp houter
    rw [List.countP_cons_of_pos hscope]
    refine ⟨.outer houter, fun _ hone => isObservers_of_countP houter ?_⟩
    omega
  | @flushing inner outer phase hinner hrunning houter =>
    cases inner with
    | nil =>
      obtain ⟨rfl, -⟩ := List.cons.inj hlist
      cases hscope
    | cons scope' inner =>
      obtain ⟨-, rfl⟩ := List.cons.inj hlist
      exact ⟨.flushing (List.forall_mem_cons.mp hinner).2
        (fun _ => hrunning (List.cons_ne_nil _ _)) houter, fun h => by cases h⟩
  | @quitting inner outer phase hinner hrunning houter hupdates =>
    cases inner with
    | nil =>
      obtain ⟨rfl, -⟩ := List.cons.inj hlist
      cases hscope
    | cons scope' inner =>
      obtain ⟨-, rfl⟩ := List.cons.inj hlist
      have hpos := hupdates (List.cons_ne_nil _ _)
      rw [List.length_cons, Nat.add_right_comm, Nat.add_sub_cancel]
      refine ⟨.quitting (List.forall_mem_cons.mp hinner).2
        (fun _ => hrunning (List.cons_ne_nil _ _)) houter (fun _ => hpos), fun _ hone => ?_⟩
      omega

end Scoped

/-! ### A step -/

theorem Shape.same (h : s.Shape) (hsame : s.SameScopes t) : t.Shape := by
  rw [Shape, hsame.scopes, hsame.flushing, hsame.updates]
  exact h

theorem running_of_calls (h : s.calls = true) (phase : Phase) (outer : List Scope)
    (hscopes : s.scopes = .flush phase :: outer) : phase.running.isSome = true := by
  simpa [calls, hscopes] using h

theorem Shape.goesOn (h : s.Shape) {phase : Phase} (hscopes : s.scopes = .flush phase :: scopes)
    (hgoes : s.GoesOn scopes t) : t.Shape := by
  rw [Shape, hscopes] at h
  obtain ⟨phase', hphase'⟩ := hgoes.scopes
  rw [Shape, hphase', hgoes.flushing, hgoes.updates]
  have hempty : ∀ scope ∈ ([] : List Scope), scope.isUpdate = true := by simp
  rcases h.of_flush with ⟨hflushing, hupdates, houter⟩ | ⟨hflushing, outer, rfl, houter, hupdates⟩
  · rw [hflushing, hupdates]
    exact .flushing hempty (by simp) houter
  · rw [hflushing, hupdates, ← Nat.zero_add (outer.countP Scope.isUpdate)]
    exact .quitting hempty (by simp) houter (by simp)

theorem Shape.finishUpdate (h : s.Shape) (hscopes : s.scopes = scope :: scopes)
    (hscope : scope.isUpdate = true) (hsame : s.SameScopes t) : (t.finishUpdate scopes).Shape := by
  rw [Shape, hscopes] at h
  obtain ⟨htail, hlast⟩ := h.tail hscope
  rw [App.finishUpdate, hsame.flushing, hsame.updates]
  split
  · rename_i hcond
    show Scoped (.flush .takeDropped :: scopes) true s.pendingUpdates
    rw [hcond.2]
    exact .flushing (show ∀ scope ∈ ([] : List Scope), scope.isUpdate = true by simp) (by simp)
      (hlast hcond.1 hcond.2)
  · exact htail

theorem Shape.flushed (h : s.Shape) {phase : Phase} (hscopes : s.scopes = .flush phase :: scopes) :
    (s.flushed scopes).Shape := by
  rw [Shape, hscopes] at h
  rcases h.of_flush with ⟨-, hupdates, houter⟩ | ⟨hflushing, outer, rfl, houter, hupdates⟩
  · have hscoped : Scoped scopes false (s.pendingUpdates - 1) := by
      rw [hupdates, Nat.sub_self, ← countP_of_isObservers houter]
      exact .outer (isUpdate_or_isObservers houter)
    rw [App.flushed]
    · exact hscoped
    · -- The flush of an update is not the one of a shutdown.
      rintro outer rfl
      exact absurd (houter _ List.mem_cons_self) (by simp [Scope.isObservers])
  · rw [App.flushed, Shape]
    show Scoped outer s.flushingEffects s.pendingUpdates
    rw [hflushing, hupdates]
    exact .outer houter

theorem Shape.shutdown (h : s.Shape) (hcalls : s.calls = true) (hrunning : s.running = []) :
    s.shutdown.Shape := by
  obtain ⟨hflushing, houter, hupdates⟩ := Scoped.of_running h (running_of_calls hcalls) hrunning
  show Scoped (.shutdown (.observers none _) :: s.scopes) s.flushingEffects s.pendingUpdates
  rw [hflushing, hupdates]
  exact .observers houter _ _

theorem Shape.nextQuit (h : s.Shape) {callbacks : Subscribers Callback}
    (hscopes : s.scopes = .shutdown (.observers none callbacks) :: scopes) :
    (s.nextQuit scopes callbacks).Shape := by
  rw [Shape, hscopes] at h
  obtain ⟨hflushing, houter, hupdates⟩ := h.of_observers
  rw [App.nextQuit]
  split
  · rename_i subscriber rest hnext
    show Scoped (.shutdown (.observers (some subscriber.1) rest) :: scopes) s.flushingEffects
      s.pendingUpdates
    rw [hflushing, hupdates]
    exact .observers houter _ _
  · show Scoped (.flush .takeDropped :: .shutdown .flush :: scopes) s.flushingEffects
      s.pendingUpdates
    rw [hflushing, hupdates, ← Nat.zero_add (scopes.countP Scope.isUpdate)]
    exact .quitting (show ∀ scope ∈ ([] : List Scope), scope.isUpdate = true by simp) (by simp)
      houter (by simp)

theorem Shape.retQuit (h : s.Shape) {id : ℕ} {callbacks : Subscribers Callback}
    (hscopes : s.scopes = .shutdown (.observers (some id) callbacks) :: scopes) :
    (s.retQuit scopes id callbacks).Shape := by
  rw [Shape, hscopes] at h
  obtain ⟨hflushing, houter, hupdates⟩ := h.of_observers
  show Scoped (.shutdown (.observers none callbacks) :: scopes) s.flushingEffects s.pendingUpdates
  rw [hflushing, hupdates]
  exact .observers houter _ _

theorem Shape.step (h : s.Shape) (hcalm : s.calm op = true) (hstep : s.step op = some s') :
    s'.Shape := by
  cases step_cases hstep with
  | enter hcalls henters =>
    obtain ⟨henter, hscope⟩ := henters.isUpdate
    have hsame := henters.sameScopes
    have hcond : s.running = [] ∨ 0 < s.pendingUpdates := by
      rw [calm, henter] at hcalm
      simp only [Bool.or_eq_true, List.isEmpty_iff, Bool.and_eq_true, Bool.not_true,
        Bool.false_eq_true, false_or, decide_eq_true_eq] at hcalm
      exact hcalm.imp_right And.right
    rw [Shape, App.startUpdate, hsame.scopes, hsame.flushing, hsame.updates]
    exact Scoped.cons h hscope (running_of_calls hcalls) hcond
  | finish hscopes hleave =>
    obtain ⟨hsame, hscope⟩ := leave_sameScopes hleave
    exact h.finishUpdate hscopes hscope hsame
  | handles hruns hhandles => exact h.same hhandles.sameScopes
  | push hcalls hpushes =>
    exact h.same (hpushes.sameScopes.trans (pushEffect_spec _ _).sameScopes)
  | register hcalls hregisters => exact h.same (registerDeferred_sameScopes ..)
  | activate hcalls hactivates => exact h.same ⟨rfl, rfl, rfl⟩
  | unsubscribe hruns hheld => exact h.same ⟨rfl, rfl, rfl⟩
  | shutdown hcalls =>
    refine h.shutdown hcalls ?_
    simpa [calm] using hcalm
  | nextQuit hscopes => exact h.nextQuit hscopes
  | retQuit hscopes => exact h.retQuit hscopes
  | ret hscopes hret => exact h.goesOn hscopes (ret_cases hret).goesOn
  | advance hscopes hadvance =>
    rcases (advance_cases hadvance).goesOn hscopes with hgoes | ⟨rfl, -, rfl⟩
    · exact h.goesOn hscopes hgoes
    · exact h.flushed hscopes

theorem Reachable.shape (h : Reachable (fun s op => s.calm op = true) s) : s.Shape := by
  induction h with
  | init => exact shape_init
  | step _ hop hstep ih => exact ih.step hop hstep

end App

end Zui.Gpui.Effects
