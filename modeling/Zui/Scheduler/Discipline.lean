/-
The discipline of the scheduler.

A runnable of a session is inserted behind all queued ones of the session, wherever else that
may be, and a step only takes the first of a session.  So each session is a lane of the queue
that is first in, first out, and what has been scheduled is what was started and what is still
queued.

Main statements:

* `stepFiltered_run`, `stepFiltered_idle` — what a step that runs a runnable has chosen, and when
  there was nothing to choose;
* `Holds.act` — an operation keeps the invariant;
* `scheduler_discipline` — the discipline in every state of every run.
-/
import Zui.Library.Loop
import Zui.Scheduler.Basic

namespace Zui.Scheduler

/-- A runnable that a step may run. -/
def Eligible (backgroundOnly : Bool) (blockedSessions : List SessionId)
    (runnable : ScheduledRunnable) : Prop :=
  ∀ sessionId, runnable.sessionId = some sessionId →
    backgroundOnly = false ∧ sessionId ∉ blockedSessions

/-! ### One step -/

section Candidates

variable {backgroundOnly : Bool} {blockedSessions : List SessionId}

/-- A candidate is eligible, and the first one of its session. -/
theorem of_mem_candidateIndices {runnables : List ScheduledRunnable} :
    ∀ {start : ℕ} {seen : List SessionId} {ix : ℕ},
      ix ∈ candidateIndices backgroundOnly blockedSessions start seen runnables →
        ∃ before runnable after, runnables = before ++ runnable :: after ∧
          ix = start + before.length ∧ Eligible backgroundOnly blockedSessions runnable ∧
          ∀ sessionId, runnable.sessionId = some sessionId →
            sessionId ∉ seen ∧ ∀ other ∈ before, ¬ ofSession sessionId other = true := by
  induction runnables with
  | nil =>
    intro start seen ix h
    cases h
  | cons runnable runnables ih =>
    intro start seen ix h
    -- the candidate is behind this runnable, of which no session is looked for any more
    have skip : ∀ {seen' : List SessionId},
        ix ∈ candidateIndices backgroundOnly blockedSessions (start + 1) seen' runnables →
        seen ⊆ seen' →
        (∀ sessionId, runnable.sessionId = some sessionId → sessionId ∉ seen' →
          backgroundOnly = true ∨ sessionId ∈ blockedSessions) →
        ∃ before chosen after, runnable :: runnables = before ++ chosen :: after ∧
          ix = start + before.length ∧ Eligible backgroundOnly blockedSessions chosen ∧
          ∀ sessionId, chosen.sessionId = some sessionId →
            sessionId ∉ seen ∧ ∀ other ∈ before, ¬ ofSession sessionId other = true := by
      intro seen' hmem hsub hpassed
      obtain ⟨before, chosen, after, rfl, rfl, heligible, hfirst⟩ := ih hmem
      refine ⟨runnable :: before, chosen, after, rfl, by rw [List.length_cons]; omega,
        heligible, ?_⟩
      intro sessionId hsession
      obtain ⟨hseen, hbefore⟩ := hfirst sessionId hsession
      refine ⟨fun hin => hseen (hsub hin), ?_⟩
      intro other hother hof
      rcases List.mem_cons.mp hother with rfl | hother
      · rw [ofSession, beq_iff_eq] at hof
        obtain ⟨hbackground, hblocked⟩ := heligible sessionId hsession
        rcases hpassed sessionId hof hseen with hb | hb
        · rw [hbackground] at hb
          cases hb
        · exact hblocked hb
      · exact hbefore other hother hof
    rw [candidateIndices] at h
    cases hsession : runnable.sessionId with
    | none =>
      rw [hsession] at h
      rcases List.mem_cons.mp h with rfl | h
      · refine ⟨[], runnable, runnables, rfl, rfl, ?_, ?_⟩
        · intro sessionId hs
          rw [hsession] at hs
          cases hs
        · intro sessionId hs
          rw [hsession] at hs
          cases hs
      · refine skip h (List.Subset.refl _) ?_
        intro sessionId hs
        rw [hsession] at hs
        cases hs
    | some sessionId =>
      simp only [hsession] at h
      split_ifs at h with hbackground hblocked hseen
      · refine skip h (List.Subset.refl _) ?_
        intro _ _ _
        exact .inl hbackground
      · refine skip h (List.Subset.refl _) ?_
        intro sessionId' hs _
        rw [hsession] at hs
        exact .inr (Option.some.inj hs ▸ hblocked)
      · refine skip h (List.Subset.refl _) ?_
        intro sessionId' hs hnot
        rw [hsession] at hs
        exact absurd (Option.some.inj hs ▸ hseen) hnot
      · rcases List.mem_cons.mp h with rfl | h
        · refine ⟨[], runnable, runnables, rfl, rfl, ?_, ?_⟩
          · intro sessionId' hs
            rw [hsession] at hs
            rw [← Option.some.inj hs]
            exact ⟨by simpa using hbackground, hblocked⟩
          · intro sessionId' hs
            rw [hsession] at hs
            rw [← Option.some.inj hs]
            exact ⟨hseen, by simp⟩
        · refine skip h (List.subset_cons_self _ _) ?_
          intro sessionId' hs hnot
          rw [hsession] at hs
          exact absurd (by rw [Option.some.inj hs]; simp) hnot

theorem candidateIndices_eq_nil {runnables : List ScheduledRunnable} :
    ∀ {start : ℕ} {seen : List SessionId},
      candidateIndices backgroundOnly blockedSessions start seen runnables = [] →
        ∀ runnable ∈ runnables, Eligible backgroundOnly blockedSessions runnable →
          ∃ sessionId ∈ seen, runnable.sessionId = some sessionId := by
  induction runnables with
  | nil =>
    intro start seen _ runnable hmem
    cases hmem
  | cons first runnables ih =>
    intro start seen h runnable hmem heligible
    rw [candidateIndices] at h
    cases hsession : first.sessionId with
    | none =>
      rw [hsession] at h
      cases h
    | some sessionId =>
      simp only [hsession] at h
      rcases List.mem_cons.mp hmem with rfl | hmem
      · obtain ⟨hbackground, hblocked⟩ := heligible sessionId hsession
        split_ifs at h with hb hseen
        · rw [hbackground] at hb
          cases hb
        · exact ⟨sessionId, hseen, hsession⟩
      · split_ifs at h
        · exact ih h runnable hmem heligible
        · exact ih h runnable hmem heligible
        · exact ih h runnable hmem heligible

end Candidates

theorem selectFrom_lt {weights : List ℕ} : ∀ {i target : ℕ}, target < weights.sum →
    selectFrom i target weights < i + weights.length := by
  induction weights with
  | nil =>
    intro i target h
    exact absurd h (Nat.not_lt_zero _)
  | cons weight weights ih =>
    intro i target h
    rw [selectFrom, List.length_cons]
    rw [List.sum_cons] at h
    split_ifs with hlt
    · omega
    · have hrest : target - weight < weights.sum := by omega
      have := ih (i := i + 1) hrest
      omega

theorem randomRange_ok {low high draw n : ℕ} (h : randomRange low high draw = .ok n) :
    low ≤ n ∧ n < high := by
  rw [randomRange] at h
  split_ifs at h with hrange
  rw [← Except.ok.inj h]
  exact hrange

namespace TestScheduler

variable {self next : TestScheduler} {backgroundOnly : Bool} {draw : ℕ}

theorem select_lt {candidates : List ℕ} {selectedIdx : ℕ} (hne : candidates ≠ [])
    (h : self.select candidates draw = .ok selectedIdx) : selectedIdx < candidates.length := by
  unfold select at h
  dsimp only at h
  split_ifs at h
  · exact (randomRange_ok h).2
  · obtain ⟨target, htarget, hselected⟩ := bind_eq_ok.mp h
    rw [← Except.ok.inj hselected]
    have hlt : selectFrom 0 target _ < 0 + _ := selectFrom_lt (randomRange_ok htarget).2
    simpa using hlt
  · rw [← Except.ok.inj h]
    exact List.length_pos_iff.mpr hne

/-- A candidate that is selected is an eligible runnable, the first one of its session. -/
theorem selected_spec {selectedIdx : ℕ}
    (hlt : selectedIdx <
      (candidateIndices backgroundOnly self.blockedSessions 0 [] self.runnables).length) :
    ∃ before runnable after, self.runnables = before ++ runnable :: after ∧
      (candidateIndices backgroundOnly self.blockedSessions 0 [] self.runnables).getD selectedIdx 0
        = before.length ∧
      Eligible backgroundOnly self.blockedSessions runnable ∧
      ∀ sessionId, runnable.sessionId = some sessionId →
        ∀ other ∈ before, ¬ ofSession sessionId other = true := by
  rw [List.getD_eq_getElem _ _ hlt]
  obtain ⟨before, runnable, after, hsplit, hix, heligible, hfirst⟩ :=
    of_mem_candidateIndices (List.getElem_mem hlt)
  exact ⟨before, runnable, after, hsplit, by rw [hix, Nat.zero_add], heligible,
    fun sessionId hsession => (hfirst sessionId hsession).2⟩

/-- **A step that runs a runnable** takes an eligible one, and the first of its session. -/
theorem stepFiltered_run {runnable : ScheduledRunnable}
    (h : self.stepFiltered backgroundOnly draw = .ok (.run runnable next)) :
    ∃ before after, self.runnables = before ++ runnable :: after ∧
      next = { self with
        runnables := self.runnables.eraseIdx before.length
        isMainThread := runnable.sessionId.isSome } ∧
      Eligible backgroundOnly self.blockedSessions runnable ∧
      ∀ sessionId, runnable.sessionId = some sessionId →
        ∀ other ∈ before, ¬ ofSession sessionId other = true := by
  unfold stepFiltered at h
  dsimp only at h
  split_ifs at h with helapsed hnone
  · cases h
  · cases h
  · obtain ⟨selectedIdx, hselect, h⟩ := bind_eq_ok.mp h
    obtain ⟨before, chosen, after, hsplit, hix, heligible, hfirst⟩ :=
      selected_spec (select_lt hnone hselect)
    rw [hix, hsplit, List.getElem?_append_right (le_refl _), Nat.sub_self] at h
    obtain ⟨rfl, hnext⟩ := Stepped.run.inj (Except.ok.inj h)
    refine ⟨before, after, hsplit, ?_, heligible, hfirst⟩
    rw [← hnext, hsplit]

/-- **A step that does nothing** has found neither a timer nor a runnable. -/
theorem stepFiltered_idle (hsorted : self.timers.Pairwise (·.expiration ≤ ·.expiration))
    (h : self.stepFiltered backgroundOnly draw = .ok .idle) :
    (∀ timer ∈ self.timers, ¬ self.expired timer = true) ∧
      ∀ runnable ∈ self.runnables, ¬ Eligible backgroundOnly self.blockedSessions runnable := by
  unfold stepFiltered at h
  dsimp only at h
  split_ifs at h with helapsed hnone
  · cases h
  · refine ⟨?_, ?_⟩
    · -- the timers are sorted, so that the first one expires first
      intro timer hmem hexpired
      cases htimers : self.timers with
      | nil =>
        rw [htimers] at hmem
        cases hmem
      | cons first timers =>
        rw [htimers] at hmem hsorted helapsed
        have hfirst : self.expired first = true := by
          rw [expired, decide_eq_true_eq] at hexpired ⊢
          rcases List.mem_cons.mp hmem with rfl | hmem
          · exact hexpired
          · exact le_trans ((List.pairwise_cons.mp hsorted).1 timer hmem) hexpired
        rw [List.takeWhile_cons_of_pos hfirst] at helapsed
        simp at helapsed
    · intro runnable hmem heligible
      obtain ⟨sessionId, hseen, -⟩ := candidateIndices_eq_nil hnone runnable hmem heligible
      cases hseen
  · obtain ⟨selectedIdx, hselect, h⟩ := bind_eq_ok.mp h
    obtain ⟨before, chosen, after, hsplit, hix, -⟩ := selected_spec (select_lt hnone hselect)
    rw [hix, hsplit, List.getElem?_append_right (le_refl _), Nat.sub_self] at h
    cases h

theorem stepFiltered_elapsed {timers : List ScheduledTimer}
    (h : self.stepFiltered backgroundOnly draw = .ok (.elapsed timers next)) :
    ∃ n, next = { self with timers := self.timers.drop n } := by
  unfold stepFiltered at h
  dsimp only at h
  split_ifs at h with helapsed hnone
  · exact ⟨_, (Stepped.elapsed.inj (Except.ok.inj h)).2.symm⟩
  · cases h
  · obtain ⟨selectedIdx, hselect, h⟩ := bind_eq_ok.mp h
    obtain ⟨before, chosen, after, hsplit, hix, -⟩ := selected_spec (select_lt hnone hselect)
    rw [hix, hsplit, List.getElem?_append_right (le_refl _), Nat.sub_self] at h
    cases h

theorem insertionIx_ok {startIx ix : ℕ} (hstart : startIx ≤ self.runnables.length)
    (h : self.insertionIx startIx draw = .ok ix) : startIx ≤ ix ∧ ix ≤ self.runnables.length := by
  rw [insertionIx] at h
  split_ifs at h
  · obtain ⟨hlow, hhigh⟩ := randomRange_ok h
    omega
  · rw [← Except.ok.inj h]
    exact ⟨hstart, le_refl _⟩

theorem scheduleLocal_ok {sessionId : SessionId} {runnable : ℕ}
    (h : self.scheduleLocal sessionId runnable draw = .ok next) :
    ∃ ix, behindLast (ofSession sessionId) self.runnables ≤ ix ∧ ix ≤ self.runnables.length ∧
      next = self.insert ix ⟨some sessionId, .medium, runnable⟩ := by
  obtain ⟨ix, hix, h⟩ := bind_eq_ok.mp h
  obtain ⟨hlow, hhigh⟩ := insertionIx_ok behindLast_le hix
  exact ⟨ix, hlow, hhigh, (Except.ok.inj h).symm⟩

theorem scheduleBackground_ok {runnable : ℕ} {priority : PriorityQueue.Priority}
    (h : self.scheduleBackgroundWithPriority runnable priority draw = .ok next) :
    ∃ ix, ix ≤ self.runnables.length ∧ next = self.insert ix ⟨none, priority, runnable⟩ := by
  obtain ⟨ix, hix, h⟩ := bind_eq_ok.mp h
  exact ⟨ix, (insertionIx_ok (Nat.zero_le _) hix).2, (Except.ok.inj h).symm⟩

theorem timer_sorted {duration notify : ℕ} :
    (self.timer duration notify).timers.Pairwise (·.expiration ≤ ·.expiration) := by
  refine (List.pairwise_mergeSort ?_ ?_ _).imp fun hle => of_decide_eq_true hle
  · intro timer timer' timer'' h h'
    rw [decide_eq_true_eq] at h h' ⊢
    exact le_trans h h'
  · intro timer timer'
    rw [Bool.or_eq_true, decide_eq_true_eq, decide_eq_true_eq]
    exact le_total _ _

end TestScheduler

/-! ### The invariant -/

/-- The runnables that were scheduled. -/
def scheduled (log : List Event) : List ScheduledRunnable :=
  log.filterMap fun event =>
    match event with
    | .scheduled runnable => some runnable
    | .started _ _ _ => none

/-- The runnables that were started. -/
def started (log : List Event) : List ScheduledRunnable :=
  log.filterMap fun event =>
    match event with
    | .scheduled _ => none
    | .started runnable _ _ => some runnable

/-- The sessions of the calls of `block` that have not returned, the outermost first. -/
def blockedBy (frames : List Frame) : List SessionId :=
  frames.reverse.flatMap fun frame =>
    match frame with
    | .blocking sessionId => sessionId.toList
    | _ => []

/-- The invariant of a run. -/
structure Holds (config : Config) : Prop where
  /-- Nothing is run twice, and nothing is lost. -/
  accounted : (scheduled config.log).Perm (started config.log ++ config.scheduler.runnables)
  numbers : (scheduled config.log).map ScheduledRunnable.runnable = List.range config.nextRunnable
  /-- Each session is first in, first out. -/
  order : ∀ sessionId, (scheduled config.log).filter (ofSession sessionId)
    = (started config.log).filter (ofSession sessionId)
      ++ config.scheduler.runnables.filter (ofSession sessionId)
  eligible : ∀ runnable backgroundOnly blockedSessions,
    .started runnable backgroundOnly blockedSessions ∈ config.log →
      Eligible backgroundOnly blockedSessions runnable
  blocked : config.scheduler.blockedSessions = blockedBy config.frames
  timers : config.scheduler.timers.Pairwise (·.expiration ≤ ·.expiration)

@[simp] theorem scheduled_concat {log : List Event} {runnable : ScheduledRunnable} :
    scheduled (log ++ [.scheduled runnable]) = scheduled log ++ [runnable] := by
  simp [scheduled]

@[simp] theorem scheduled_concat_started {log : List Event} {runnable : ScheduledRunnable}
    {backgroundOnly : Bool} {blockedSessions : List SessionId} :
    scheduled (log ++ [.started runnable backgroundOnly blockedSessions]) = scheduled log := by
  simp [scheduled]

@[simp] theorem started_concat {log : List Event} {runnable : ScheduledRunnable}
    {backgroundOnly : Bool} {blockedSessions : List SessionId} :
    started (log ++ [.started runnable backgroundOnly blockedSessions])
      = started log ++ [runnable] := by
  simp [started]

@[simp] theorem started_concat_scheduled {log : List Event} {runnable : ScheduledRunnable} :
    started (log ++ [.scheduled runnable]) = started log := by
  simp [started]

theorem blockedBy_cons {frame : Frame} {frames : List Frame} :
    blockedBy (frame :: frames) = blockedBy frames ++ blockedBy [frame] := by
  simp [blockedBy]

theorem blockedBy_unblocking {frame : Frame} {frames : List Frame}
    (h : ∀ sessionId, frame ≠ .blocking sessionId) :
    blockedBy (frame :: frames) = blockedBy frames := by
  rw [blockedBy_cons]
  cases frame with
  | blocking sessionId => exact absurd rfl (h sessionId)
  | waking timers => exact List.append_nil _
  | running runnable wasMainThread => exact List.append_nil _

theorem ofSession_iff {sessionId : SessionId} {runnable : ScheduledRunnable} :
    ofSession sessionId runnable = true ↔ runnable.sessionId = some sessionId := by
  rw [ofSession, beq_iff_eq]

namespace Holds

variable {config : Config}

/-- **Scheduling** a runnable: behind the last one of its session, if it has one. -/
theorem schedule (h : Holds config) {runnable : ScheduledRunnable} {ix : ℕ}
    (hnumber : runnable.runnable = config.nextRunnable)
    (hle : ix ≤ config.scheduler.runnables.length)
    (hlast : ∀ sessionId, runnable.sessionId = some sessionId →
      behindLast (ofSession sessionId) config.scheduler.runnables ≤ ix) :
    Holds (config.schedule runnable (config.scheduler.insert ix runnable)) where
  accounted := by
    show (scheduled (config.log ++ [.scheduled runnable])).Perm
      (started (config.log ++ [.scheduled runnable])
        ++ config.scheduler.runnables.insertIdx ix runnable)
    rw [scheduled_concat, started_concat_scheduled]
    refine ((List.perm_append_singleton _ _).trans (h.accounted.cons runnable)).trans ?_
    refine List.perm_middle.symm.trans ?_
    exact (List.perm_insertIdx _ _ hle).symm.append_left _
  numbers := by
    show (scheduled (config.log ++ [.scheduled runnable])).map _
      = List.range (config.nextRunnable + 1)
    rw [scheduled_concat, List.map_append, h.numbers, List.range_succ, List.map_singleton, hnumber]
  order := by
    intro sessionId
    show (scheduled (config.log ++ [.scheduled runnable])).filter _
      = (started (config.log ++ [.scheduled runnable])).filter _
        ++ (config.scheduler.runnables.insertIdx ix runnable).filter _
    rw [scheduled_concat, started_concat_scheduled, List.filter_append, h.order]
    by_cases hof : ofSession sessionId runnable = true
    · rw [filter_insertIdx hof hle (hlast sessionId (ofSession_iff.mp hof)), List.append_assoc,
        List.filter_cons_of_pos hof]
      rfl
    · rw [filter_insertIdx_of_not hof hle, List.filter_cons_of_neg hof]
      exact List.append_nil _
  eligible := by
    intro other backgroundOnly blockedSessions hmem
    rcases List.mem_append.mp hmem with hmem | hmem
    · exact h.eligible other backgroundOnly blockedSessions hmem
    · rw [List.mem_singleton] at hmem
      cases hmem
  blocked := h.blocked
  timers := h.timers

/-- **Running** a runnable: the first one of its session, if it has one. -/
theorem run (h : Holds config) {runnable : ScheduledRunnable}
    {before after : List ScheduledRunnable}
    {backgroundOnly isMainThread wasMainThread : Bool}
    (hsplit : config.scheduler.runnables = before ++ runnable :: after)
    (heligible : Eligible backgroundOnly config.scheduler.blockedSessions runnable)
    (hfirst : ∀ sessionId, runnable.sessionId = some sessionId →
      ∀ other ∈ before, ¬ ofSession sessionId other = true) :
    Holds { config with
      scheduler := { config.scheduler with
        runnables := config.scheduler.runnables.eraseIdx before.length
        isMainThread := isMainThread }
      frames := .running runnable wasMainThread :: config.frames
      log := config.log ++
        [.started runnable backgroundOnly config.scheduler.blockedSessions] } where
  accounted := by
    show (scheduled (config.log ++ [_])).Perm
      (started (config.log ++ [_]) ++ config.scheduler.runnables.eraseIdx before.length)
    rw [scheduled_concat_started, started_concat, hsplit, eraseIdx_append_cons]
    have haccounted := h.accounted
    rw [hsplit] at haccounted
    refine haccounted.trans ?_
    rw [List.append_assoc]
    exact List.perm_middle.append_left _
  numbers := by
    show (scheduled (config.log ++ [_])).map _ = _
    rw [scheduled_concat_started]
    exact h.numbers
  order := by
    intro sessionId
    show (scheduled (config.log ++ [_])).filter _
      = (started (config.log ++ [_])).filter _
        ++ (config.scheduler.runnables.eraseIdx before.length).filter _
    rw [scheduled_concat_started, started_concat, h.order, List.filter_append, hsplit]
    by_cases hof : ofSession sessionId runnable = true
    · rw [filter_eraseIdx hof (hfirst sessionId (ofSession_iff.mp hof)),
        List.filter_cons_of_pos hof, List.append_assoc]
      rfl
    · rw [filter_eraseIdx_of_not hof, List.filter_cons_of_neg hof, List.filter_nil,
        List.append_nil]
  eligible := by
    intro other background blockedSessions hmem
    rcases List.mem_append.mp hmem with hmem | hmem
    · exact h.eligible other background blockedSessions hmem
    · rw [List.mem_singleton] at hmem
      obtain ⟨rfl, rfl, rfl⟩ := Event.started.inj hmem
      exact heligible
  blocked := h.blocked.trans (blockedBy_unblocking (by simp)).symm
  timers := h.timers

/-- What changes neither the queue nor the log. -/
theorem of_same (h : Holds config) {config' : Config}
    (hrunnables : config'.scheduler.runnables = config.scheduler.runnables)
    (hnumber : config'.nextRunnable = config.nextRunnable) (hlog : config'.log = config.log)
    (hblocked : config'.scheduler.blockedSessions = blockedBy config'.frames)
    (htimers : config'.scheduler.timers.Pairwise (·.expiration ≤ ·.expiration)) :
    Holds config' where
  accounted := by
    rw [hlog, hrunnables]
    exact h.accounted
  numbers := by
    rw [hlog, hnumber]
    exact h.numbers
  order := by
    rw [hlog, hrunnables]
    exact h.order
  eligible := by
    rw [hlog]
    exact h.eligible
  blocked := hblocked
  timers := htimers

theorem start {randomizeOrder : Bool} : Holds (.start randomizeOrder) where
  accounted := List.Perm.refl _
  numbers := rfl
  order := fun _ => rfl
  eligible := by
    intro runnable backgroundOnly blockedSessions hmem
    cases hmem
  blocked := rfl
  timers := List.Pairwise.nil

/-- A step that is called. -/
theorem step (h : Holds config) {config' : Config} {backgroundOnly : Bool} {draw : ℕ}
    (hstep : config.step backgroundOnly draw = .ok config') : Holds config' := by
  obtain ⟨stepped, hstepped, hstep⟩ := bind_eq_ok.mp hstep
  cases stepped with
  | elapsed timers scheduler =>
    obtain ⟨n, rfl⟩ := TestScheduler.stepFiltered_elapsed hstepped
    rw [← Except.ok.inj hstep]
    exact h.of_same rfl rfl rfl (h.blocked.trans (blockedBy_unblocking (by simp)).symm)
      (h.timers.drop)
  | run runnable scheduler =>
    obtain ⟨before, after, hsplit, rfl, heligible, hfirst⟩ :=
      TestScheduler.stepFiltered_run hstepped
    rw [← Except.ok.inj hstep]
    exact h.run hsplit heligible hfirst
  | idle =>
    rw [← Except.ok.inj hstep]
    exact h

/-- **An operation** keeps the invariant. -/
theorem act (h : Holds config) {config' : Config} {action : Action}
    (hact : config.act action = some config') : Holds config' := by
  cases action with
  | scheduleLocal sessionId draw =>
    rw [Config.act] at hact
    split at hact
    · rename_i scheduler hschedule
      obtain ⟨ix, hlast, hle, rfl⟩ := TestScheduler.scheduleLocal_ok hschedule
      rw [← Option.some.inj hact]
      refine h.schedule rfl hle fun sessionId' hs => ?_
      rwa [← Option.some.inj hs]
    · cases hact
  | scheduleBackgroundWithPriority priority draw =>
    rw [Config.act] at hact
    split at hact
    · rename_i scheduler hschedule
      obtain ⟨ix, hle, rfl⟩ := TestScheduler.scheduleBackground_ok hschedule
      rw [← Option.some.inj hact]
      refine h.schedule rfl hle fun sessionId hs => ?_
      cases hs
    · cases hact
  | timer duration notify =>
    rw [← Option.some.inj hact]
    exact h.of_same rfl rfl rfl h.blocked TestScheduler.timer_sorted
  | advance duration =>
    rw [← Option.some.inj hact]
    exact h.of_same rfl rfl rfl h.blocked h.timers
  -- a session more is blocked, at the end
  | block sessionId =>
    rw [← Option.some.inj hact]
    refine h.of_same rfl rfl rfl ?_ h.timers
    show config.scheduler.blockedSessions ++ sessionId.toList = _
    rw [h.blocked, blockedBy_cons]
    simp [blockedBy]
  | unblock =>
    rw [Config.act] at hact
    split at hact
    · rename_i sessionId frames hframes
      rw [← Option.some.inj hact]
      -- the session of the innermost `block` is the last one
      have hblocked := h.blocked
      rw [hframes, blockedBy_cons] at hblocked
      cases sessionId with
      | none =>
        refine h.of_same rfl rfl rfl ?_ h.timers
        show config.scheduler.blockedSessions = blockedBy frames
        rw [hblocked]
        exact List.append_nil _
      | some sessionId =>
        refine h.of_same rfl rfl rfl ?_ h.timers
        show config.scheduler.blockedSessions.dropLast = blockedBy frames
        rw [hblocked]
        exact List.dropLast_concat
    · cases hact
  | step backgroundOnly draw =>
    rw [Config.act] at hact
    split at hact
    · rename_i config'' hstep
      rw [← Option.some.inj hact]
      exact h.step hstep
    · cases hact
  -- what ends was not blocking: a task, or the timers that were moved on
  | finish =>
    rw [Config.act] at hact
    split at hact
    · rename_i timers frames hframes
      rw [← Option.some.inj hact]
      refine h.of_same rfl rfl rfl ?_ h.timers
      rw [h.blocked, hframes]
      exact blockedBy_unblocking (by simp)
    · rename_i runnable wasMainThread frames hframes
      rw [← Option.some.inj hact]
      refine h.of_same rfl rfl rfl ?_ h.timers
      show config.scheduler.blockedSessions = blockedBy frames
      rw [h.blocked, hframes]
      exact blockedBy_unblocking (by simp)
    · cases hact

end Holds

theorem reachable_of_run {randomizeOrder : Bool} {actions : List Action} :
    ∀ {config config' : Config}, config.Reachable randomizeOrder →
      actions.foldlM Config.act config = some config' → config'.Reachable randomizeOrder := by
  induction actions with
  | nil =>
    intro config config' h hrun
    rwa [← Option.some.inj hrun]
  | cons action actions ih =>
    intro config config' h hrun
    rw [List.foldlM_cons] at hrun
    obtain ⟨next, hnext, hrest⟩ := Option.bind_eq_some_iff.mp hrun
    exact ih (.act h hnext) hrest

theorem holds_of_reachable {randomizeOrder : Bool} {config : Config}
    (h : config.Reachable randomizeOrder) : Holds config := by
  induction h with
  | start => exact Holds.start
  | act _ hact ih => exact ih.act hact

/-! ### The discipline -/

/-- What the scheduler promises about the log, and about the next step. -/
structure Discipline (config : Config) : Prop where
  /-- Every runnable is run at most once. -/
  once : (started config.log).Nodup
  /-- Every runnable that was scheduled was started or is queued. -/
  kept : (scheduled config.log).Perm (started config.log ++ config.scheduler.runnables)
  /-- The runnables of a session were started in the order in which they were scheduled. -/
  order : ∀ sessionId, (started config.log).filter (ofSession sessionId)
    <+: (scheduled config.log).filter (ofSession sessionId)
  /-- The sessions that are blocked are those that a call of `block` waits for. -/
  blocked : config.scheduler.blockedSessions = blockedBy config.frames
  /-- None of them ran, nor a foreground task where only the background may run. -/
  eligible : ∀ runnable backgroundOnly blockedSessions,
    .started runnable backgroundOnly blockedSessions ∈ config.log →
      Eligible backgroundOnly blockedSessions runnable
  /-- A step that returns `false` has nothing to do. -/
  idle : ∀ backgroundOnly draw,
    config.scheduler.stepFiltered backgroundOnly draw = .ok .idle →
      (∀ timer ∈ config.scheduler.timers, ¬ config.scheduler.expired timer = true) ∧
        ∀ runnable ∈ config.scheduler.runnables,
          ¬ Eligible backgroundOnly config.scheduler.blockedSessions runnable

/-- **The discipline** holds in every state of every run, in both modes. -/
theorem scheduler_discipline {randomizeOrder : Bool} {config : Config}
    (h : config.Reachable randomizeOrder) : Discipline config := by
  have hholds := holds_of_reachable h
  refine ⟨?_, hholds.accounted, ?_, hholds.blocked, hholds.eligible, ?_⟩
  · -- the numbers of all scheduled runnables differ
    have hnodup : (scheduled config.log).Nodup := by
      refine List.Nodup.of_map ScheduledRunnable.runnable ?_
      rw [hholds.numbers]
      exact List.nodup_range
    exact (List.nodup_append.mp (hholds.accounted.nodup_iff.mp hnodup)).1
  · intro sessionId
    exact ⟨_, (hholds.order sessionId).symm⟩
  · intro backgroundOnly draw hidle
    exact TestScheduler.stepFiltered_idle hholds.timers hidle

/-- Two tasks of a session that is blocked for a while, and one of the background, which is
drawn from both places where it may stand. -/
def sample : List Action :=
  [.scheduleLocal 0 0, .scheduleLocal 0 1, .scheduleBackgroundWithPriority .low 1,
    .block (some 0), .step false 9, .scheduleLocal 1 1, .finish, .unblock, .step false 7, .finish]

theorem scheduler_discipline_sample :
    ∃ config, sample.foldlM Config.act (.start true) = some config ∧ Discipline config := by
  have hruns : (sample.foldlM Config.act (.start true)).isSome = true := by decide +kernel
  obtain ⟨config, hrun⟩ := Option.isSome_iff_exists.mp hruns
  exact ⟨config, hrun, scheduler_discipline (reachable_of_run .start hrun)⟩

end Zui.Scheduler
