/-
The clock of the scheduler for tests.

`advance_clock` steps until there is nothing to do, moves the clock to the first timer and starts
again, as long as there is a timer that expires before the end.  A timer that has expired is
dropped by the next step, so that none is pending when the clock moves on, and a timer that is
created meanwhile is sorted in before it does.

Design notes:

* what the tasks do is up to `Tasks`: while a call of a step has not returned, they choose the
  next operation, and may look at everything, but do not move the clock;
* instants and durations have no bound; where a sum of them overflows in the source, it panics,
  and nothing returns;
* a loop of the source ends if it does with some fuel;
* the log is what the statements are about; no operation reads it.

Main statements:

* `Ticks.act`, `Ticks.advance` — what an operation of the tasks and a move of the clock keep;
* `advanceClock_ends` — the loop ends if each run of it does;
* `advanceClock_never_skips` — what fires, and when.
-/
import Zui.Scheduler.Discipline

namespace Zui.Scheduler

/-- An operation that moves the clock. -/
def Action.advances : Action → Bool
  | .advance _ => true
  | _ => false

/-- What becomes of the timers and the clock. -/
inductive TimerEvent
  | created (timer : ScheduledTimer) (now : ℕ)
  | fired (timer : ScheduledTimer) (now : ℕ)
  | advanced (now : ℕ)
  deriving DecidableEq, Repr

/-- The clock at an event. -/
def TimerEvent.now : TimerEvent → ℕ
  | created _ now => now
  | fired _ now => now
  | advanced now => now

/-- What an operation does to the timers and the clock. -/
def timerEvents (config : Config) : Action → List TimerEvent
  | .timer duration notify =>
    [.created ⟨config.scheduler.now + duration, notify⟩ config.scheduler.now]
  | .advance duration => [.advanced (config.scheduler.now + duration)]
  | .step backgroundOnly draw =>
    match config.scheduler.stepFiltered backgroundOnly draw with
    | .ok (.elapsed timers _) => timers.map fun timer => .fired timer config.scheduler.now
    | _ => []
  | _ => []

/-- The tasks: what they do next, while a call of a step has not returned, and the random number
of the next step. -/
structure Tasks (ω : Type) where
  next : ω → Config → { action : Action // action.advances = false } × ω
  draw : ω → Config → ℕ × ω

/-- Why `advance_clock` does not return. -/
inductive Failure
  /-- It would go on. -/
  | outOfFuel
  /-- A task does what it cannot do, or panics. -/
  | failed
  deriving DecidableEq, Repr

/-- The scheduler and its tasks in the middle of `advance_clock`. -/
structure Advancing (ω : Type) where
  config : Config
  world : ω
  log : List TimerEvent

variable {ω : Type}

/-- An operation. -/
def Advancing.act (self : Advancing ω) (action : Action) (world : ω) :
    Except Failure (Advancing ω) :=
  match self.config.act action with
  | some config => .ok ⟨config, world, self.log ++ timerEvents self.config action⟩
  | none => .error .failed

namespace Tasks

variable (tasks : Tasks ω)

/-- What `run` does next: the tasks go on until the call of a step has returned, which is followed
by another one unless it was `false`. -/
def runPass (depth : ℕ) (self : Advancing ω) :
    Except Failure (Pass (Advancing ω) (Advancing ω)) :=
  if depth < self.config.frames.length then do
    let (action, world) := tasks.next self.world self.config
    return .next (← self.act action.val world)
  else do
    let (draw, world) := tasks.draw self.world self.config
    let next ← self.act (.step false draw) world
    return if depth < next.config.frames.length then .next next else .done next

/-- `run`. -/
def run (fuel depth : ℕ) (self : Advancing ω) : Except Failure (Advancing ω) :=
  loop .outOfFuel (tasks.runPass depth) fuel self

/-- The loop of `advance_clock`. -/
def advancePass (fuel depth nextNow : ℕ) (self : Advancing ω) :
    Except Failure (Pass (Advancing ω) (Advancing ω)) := do
  let self ← tasks.run fuel depth self
  match self.config.scheduler.timers.head? with
  | some timer =>
    if timer.expiration ≤ nextNow then
      return .next
        (← self.act (.advance (timer.expiration - self.config.scheduler.now)) self.world)
    else return .done self
  | none => return .done self

/-- `advance_clock`. -/
def advanceClock (fuel duration : ℕ) (self : Advancing ω) : Except Failure (Advancing ω) := do
  let start := self.config.scheduler.now
  let nextNow := start + duration
  let self ← loop .outOfFuel (tasks.advancePass fuel self.config.frames.length nextNow) fuel self
  self.act (.advance (nextNow - self.config.scheduler.now)) self.world

/-- The states in which the loop of `advance_clock` comes to its next pass. -/
inductive Reaches (depth nextNow : ℕ) (start : Advancing ω) : Advancing ω → Prop
  | start : Reaches depth nextNow start start
  | next {self next : Advancing ω} {fuel : ℕ} (h : Reaches depth nextNow start self)
      (hpass : tasks.advancePass fuel depth nextNow self = .ok (.next next)) :
      Reaches depth nextNow start next

/-- The tasks terminate: each run of `advance_clock` ends. -/
def Terminates (duration : ℕ) (start : Advancing ω) : Prop :=
  ∀ self, tasks.Reaches start.config.frames.length (start.config.scheduler.now + duration)
      start self →
    ∃ fuel final, tasks.run fuel start.config.frames.length self = .ok final

end Tasks

/-! ### What is promised -/

/-- The timers that were created, with the time. -/
def created (log : List TimerEvent) : List (ScheduledTimer × ℕ) :=
  log.filterMap fun event =>
    match event with
    | .created timer now => some (timer, now)
    | _ => none

/-- The timers that fired, with the time. -/
def fired (log : List TimerEvent) : List (ScheduledTimer × ℕ) :=
  log.filterMap fun event =>
    match event with
    | .fired timer now => some (timer, now)
    | _ => none

/-- The timers that a call finds, with the time of the call, and those that are created meanwhile,
with that time. -/
def known (scheduler : TestScheduler) (log : List TimerEvent) : List (ScheduledTimer × ℕ) :=
  (scheduler.timers.map fun timer => (timer, scheduler.now)) ++ created log

/-- What becomes of the timers while the clock is advanced by a duration. -/
structure NeverSkips (scheduler : TestScheduler) (duration : ℕ) (log : List TimerEvent)
    (final : TestScheduler) : Prop where
  /-- Each timer that expires before the end, and no other, fires, as soon as it has expired and
  is there. -/
  fires : ∃ timers : List (ScheduledTimer × ℕ),
    timers.Perm ((known scheduler log).filter fun timer =>
      timer.1.expiration ≤ scheduler.now + duration) ∧
    fired log = timers.map fun timer => (timer.1, max timer.1.expiration timer.2)
  pending : final.timers.Perm (((known scheduler log).filter fun timer =>
    scheduler.now + duration < timer.1.expiration).map Prod.fst)
  ordered : (fired log).Pairwise fun timer timer' => timer.1.expiration ≤ timer'.1.expiration
  /-- The clock never moves backwards. -/
  forwards : (scheduler.now :: (log.map TimerEvent.now ++ [final.now])).Pairwise (· ≤ ·)
  ends : final.now = scheduler.now + duration

/-! ### What an operation does -/

/-- What an operation of the tasks can do to the timers. -/
inductive Touches (scheduler : TestScheduler) : List TimerEvent → TestScheduler → Prop
  | nothing {next : TestScheduler} (hnow : next.now = scheduler.now)
      (htimers : next.timers = scheduler.timers) : Touches scheduler [] next
  | create {next : TestScheduler} {duration notify : ℕ} (hnow : next.now = scheduler.now)
      (htimers : next.timers = (scheduler.timer duration notify).timers) :
      Touches scheduler [.created ⟨scheduler.now + duration, notify⟩ scheduler.now] next
  | fire {next : TestScheduler} {elapsed : List ScheduledTimer}
      (hnow : next.now = scheduler.now) (htimers : scheduler.timers = elapsed ++ next.timers)
      (helapsed : ∀ timer ∈ elapsed, timer.expiration ≤ scheduler.now) :
      Touches scheduler (elapsed.map fun timer => .fired timer scheduler.now) next

section Touching

variable {config config' : Config} {action : Action}

/-- A step that drops timers drops the expired ones at the front. -/
theorem elapsed_spec {scheduler next : TestScheduler} {backgroundOnly : Bool} {draw : ℕ}
    {elapsed : List ScheduledTimer}
    (h : scheduler.stepFiltered backgroundOnly draw = .ok (.elapsed elapsed next)) :
    next.now = scheduler.now ∧ scheduler.timers = elapsed ++ next.timers ∧
      ∀ timer ∈ elapsed, timer.expiration ≤ scheduler.now := by
  unfold TestScheduler.stepFiltered at h
  dsimp only at h
  split_ifs at h with helapsed hnone
  · obtain ⟨rfl, rfl⟩ := Stepped.elapsed.inj (Except.ok.inj h)
    refine ⟨rfl, (List.take_append_drop _ _).symm, ?_⟩
    intro timer hmem
    rw [← List.prefix_iff_eq_take.mp (List.takeWhile_prefix _)] at hmem
    have hexpired : scheduler.expired timer = true := List.mem_takeWhile_imp hmem
    exact of_decide_eq_true hexpired
  · cases h
  · obtain ⟨selectedIdx, hselect, h⟩ := bind_eq_ok.mp h
    generalize scheduler.runnables[(candidateIndices backgroundOnly scheduler.blockedSessions 0 []
      scheduler.runnables).getD selectedIdx 0]? = chosen at h
    cases chosen <;> cases h

/-- **What an operation of the tasks does to the timers.** -/
theorem touches_of_act (htask : action.advances = false) (h : config.act action = some config') :
    Touches config.scheduler (timerEvents config action) config'.scheduler := by
  cases action with
  | scheduleLocal sessionId draw =>
    rw [Config.act] at h
    cases hschedule : config.scheduler.scheduleLocal sessionId config.nextRunnable draw with
    | error error => rw [hschedule] at h; cases h
    | ok scheduler =>
      rw [hschedule] at h
      obtain ⟨ix, -, -, rfl⟩ := TestScheduler.scheduleLocal_ok hschedule
      obtain rfl := Option.some.inj h
      exact .nothing rfl rfl
  | scheduleBackgroundWithPriority priority draw =>
    rw [Config.act] at h
    cases hschedule : config.scheduler.scheduleBackgroundWithPriority config.nextRunnable priority
      draw with
    | error error => rw [hschedule] at h; cases h
    | ok scheduler =>
      rw [hschedule] at h
      obtain ⟨ix, -, rfl⟩ := TestScheduler.scheduleBackground_ok hschedule
      obtain rfl := Option.some.inj h
      exact .nothing rfl rfl
  | timer duration notify =>
    obtain rfl := Option.some.inj h
    exact .create rfl rfl
  | advance duration => cases htask
  | block sessionId =>
    obtain rfl := Option.some.inj h
    exact .nothing rfl rfl
  | unblock =>
    rw [Config.act] at h
    split at h
    · rename_i sessionId frames hframes
      obtain rfl := Option.some.inj h
      refine .nothing ?_ ?_ <;> cases sessionId <;> rfl
    · cases h
  | step backgroundOnly draw =>
    rw [Config.act, Config.step] at h
    rw [timerEvents]
    cases hstep : config.scheduler.stepFiltered backgroundOnly draw with
    | error error => rw [hstep] at h; cases h
    | ok stepped =>
      rw [hstep] at h
      cases stepped with
      | elapsed timers scheduler =>
        obtain rfl := Option.some.inj h
        obtain ⟨hnow, htimers, helapsed⟩ := elapsed_spec hstep
        exact .fire hnow htimers helapsed
      | run runnable scheduler =>
        obtain rfl := Option.some.inj h
        obtain ⟨before, after, -, rfl, -⟩ := TestScheduler.stepFiltered_run hstep
        exact .nothing rfl rfl
      | idle =>
        obtain rfl := Option.some.inj h
        exact .nothing rfl rfl
  | finish =>
    rw [Config.act] at h
    split at h
    · obtain rfl := Option.some.inj h
      exact .nothing rfl rfl
    · obtain rfl := Option.some.inj h
      exact .nothing rfl rfl
    · cases h

end Touching

/-! ### The invariant -/

theorem created_append (log events : List TimerEvent) :
    created (log ++ events) = created log ++ created events :=
  List.filterMap_append

theorem fired_append (log events : List TimerEvent) :
    fired (log ++ events) = fired log ++ fired events :=
  List.filterMap_append

theorem created_fire (elapsed : List ScheduledTimer) (now : ℕ) :
    created (elapsed.map fun timer => .fired timer now) = [] := by
  simp [created]

theorem fired_fire (elapsed : List ScheduledTimer) (now : ℕ) :
    fired (elapsed.map fun timer => .fired timer now) = elapsed.map fun timer => (timer, now) := by
  simp [fired]

/-- The invariant of `advance_clock`, called in `origin`, which ends at `nextNow`. -/
structure Ticks (origin : TestScheduler) (nextNow : ℕ) (scheduler : TestScheduler)
    (log : List TimerEvent) : Prop where
  sorted : scheduler.timers.Pairwise (·.expiration ≤ ·.expiration)
  since : origin.now ≤ scheduler.now
  before : scheduler.now ≤ nextNow
  accounted : ((known origin log).map Prod.fst).Perm ((fired log).map Prod.fst ++ scheduler.timers)
  /-- No timer is created that has expired before. -/
  creations : ∀ timer ∈ created log, origin.now ≤ timer.2 ∧ timer.2 ≤ timer.1.expiration
  /-- Timers fire when they expire, or at once. -/
  firings : ∀ timer ∈ fired log,
    timer.2 = max timer.1.expiration origin.now ∧ timer.1.expiration ≤ scheduler.now
  /-- The clock does not pass a timer that is pending. -/
  due : ∀ timer ∈ scheduler.timers, scheduler.now ≤ max timer.expiration origin.now
  ordered : (fired log).Pairwise fun timer timer' => timer.1.expiration ≤ timer'.1.expiration
  earlier : ∀ timer ∈ fired log, ∀ timer' ∈ scheduler.timers,
    timer.1.expiration ≤ timer'.expiration
  forwards : (origin.now :: (log.map TimerEvent.now ++ [scheduler.now])).Pairwise (· ≤ ·)

namespace Ticks

variable {origin scheduler next : TestScheduler} {nextNow : ℕ} {log events : List TimerEvent}

/-- Before anything happens. -/
theorem start (hsorted : origin.timers.Pairwise (·.expiration ≤ ·.expiration))
    (hle : origin.now ≤ nextNow) : Ticks origin nextNow origin [] where
  sorted := hsorted
  since := le_refl _
  before := hle
  accounted := by simp [known, created, fired, Function.comp_def]
  creations := by simp [created]
  firings := by simp [fired]
  due := by simp
  ordered := by simp [fired]
  earlier := by simp [fired]
  forwards := by simp

theorem forwards_append (h : Ticks origin nextNow scheduler log)
    (hevents : ∀ event ∈ events, event.now = next.now) (hnow : scheduler.now ≤ next.now) :
    (origin.now :: ((log ++ events).map TimerEvent.now ++ [next.now])).Pairwise (· ≤ ·) := by
  have hforwards : ((origin.now :: log.map TimerEvent.now) ++ [scheduler.now]).Pairwise (· ≤ ·) :=
    h.forwards
  obtain ⟨hlog, -, hlast⟩ := List.pairwise_append.mp hforwards
  have hsplit : origin.now :: ((log ++ events).map TimerEvent.now ++ [next.now])
      = (origin.now :: log.map TimerEvent.now) ++ (events.map TimerEvent.now ++ [next.now]) := by
    simp
  have hnew : ∀ now ∈ events.map TimerEvent.now ++ [next.now], now = next.now := by
    intro now hmem
    rcases List.mem_append.mp hmem with hmem | hmem
    · obtain ⟨event, hevent, rfl⟩ := List.mem_map.mp hmem
      exact hevents event hevent
    · simpa using hmem
  rw [hsplit, List.pairwise_append]
  refine ⟨hlog, List.Pairwise.imp_of_mem (R := Eq) ?_ ?_, ?_⟩
  · rintro now now' - - rfl
    exact le_refl _
  · refine List.pairwise_of_forall_mem_list ?_
    intro now hmem now' hmem'
    rw [hnew now hmem, hnew now' hmem']
  · intro now hmem now' hmem'
    rw [hnew now' hmem']
    exact le_trans (hlast now hmem _ (List.mem_singleton.mpr rfl)) hnow

theorem touch (h : Ticks origin nextNow scheduler log)
    (htouches : Touches scheduler events next) :
    Ticks origin nextNow next (log ++ events) := by
  cases htouches with
  | nothing hnow htimers =>
    have hforwards := h.forwards
    rw [← hnow] at hforwards
    rw [List.append_nil]
    exact {
      sorted := htimers ▸ h.sorted
      since := hnow ▸ h.since
      before := hnow ▸ h.before
      accounted := htimers ▸ h.accounted
      creations := h.creations
      firings := hnow ▸ h.firings
      due := by rw [hnow, htimers]; exact h.due
      ordered := h.ordered
      earlier := htimers ▸ h.earlier
      forwards := hforwards }
  | @create _ duration notify hnow htimers =>
    -- the new timer is sorted in; those that were there stay
    have hmem : ∀ timer, timer ∈ next.timers ↔
        timer ∈ scheduler.timers ∨ timer = ⟨scheduler.now + duration, notify⟩ := by
      intro timer
      rw [htimers, TestScheduler.timer, List.mem_mergeSort, List.mem_append, List.mem_singleton]
    have hfired : fired [TimerEvent.created ⟨scheduler.now + duration, notify⟩ scheduler.now]
        = [] := rfl
    refine ⟨?_, hnow ▸ h.since, hnow ▸ h.before, ?_, ?_, ?_, ?_, ?_, ?_, ?_⟩
    · rw [htimers]
      exact TestScheduler.timer_sorted
    · have hperm : next.timers.Perm
          (scheduler.timers ++ [⟨scheduler.now + duration, notify⟩]) := by
        rw [htimers]
        exact List.mergeSort_perm _ _
      rw [fired_append, hfired, List.append_nil, known, created_append, ← List.append_assoc,
        List.map_append]
      refine (h.accounted.append_right _).trans ?_
      rw [List.append_assoc]
      exact hperm.symm.append_left _
    · rw [created_append]
      intro timer htimer
      rcases List.mem_append.mp htimer with htimer | htimer
      · exact h.creations timer htimer
      · obtain rfl := List.mem_singleton.mp htimer
        exact ⟨h.since, Nat.le_add_right _ _⟩
    · rw [fired_append, hfired, List.append_nil, hnow]
      exact h.firings
    · intro timer htimer
      rw [hnow]
      rcases (hmem timer).mp htimer with htimer | rfl
      · exact h.due timer htimer
      · exact le_max_of_le_left (Nat.le_add_right _ _)
    · rw [fired_append, hfired, List.append_nil]
      exact h.ordered
    · rw [fired_append, hfired, List.append_nil]
      intro timer htimer timer' htimer'
      rcases (hmem timer').mp htimer' with htimer' | rfl
      · exact h.earlier timer htimer timer' htimer'
      · exact le_trans (h.firings timer htimer).2 (Nat.le_add_right _ _)
    · exact h.forwards_append (by simp [TimerEvent.now, hnow]) (le_of_eq hnow.symm)
  | @fire _ elapsed hnow htimers helapsed =>
    have hsorted := h.sorted
    rw [htimers, List.pairwise_append] at hsorted
    -- the timers that fire are the first ones
    have hmem : ∀ timer ∈ next.timers, timer ∈ scheduler.timers := by
      intro timer htimer
      rw [htimers]
      exact List.mem_append_right _ htimer
    have hmem' : ∀ timer ∈ elapsed, timer ∈ scheduler.timers := by
      intro timer htimer
      rw [htimers]
      exact List.mem_append_left _ htimer
    refine ⟨hsorted.2.1, hnow ▸ h.since, hnow ▸ h.before, ?_, ?_, ?_, ?_, ?_, ?_, ?_⟩
    · have haccounted := h.accounted
      rw [htimers, ← List.append_assoc] at haccounted
      rw [known, created_append, created_fire, List.append_nil, fired_append, fired_fire,
        List.map_append, List.map_map]
      simpa [known, Function.comp_def] using haccounted
    · rw [created_append, created_fire, List.append_nil]
      exact h.creations
    · rw [fired_append, fired_fire, hnow]
      intro timer htimer
      rcases List.mem_append.mp htimer with htimer | htimer
      · exact h.firings timer htimer
      · -- it has expired, but not before the clock was moved here
        obtain ⟨timer, hin, rfl⟩ := List.mem_map.mp htimer
        have hdue := h.due timer (hmem' timer hin)
        have hexpired := helapsed timer hin
        have hsince := h.since
        exact ⟨by dsimp only; omega, hexpired⟩
    · intro timer htimer
      rw [hnow]
      exact h.due timer (hmem timer htimer)
    · rw [fired_append, fired_fire, List.pairwise_append]
      refine ⟨h.ordered, List.pairwise_map.mpr hsorted.1, ?_⟩
      intro timer htimer timer' htimer'
      obtain ⟨timer', hin, rfl⟩ := List.mem_map.mp htimer'
      exact h.earlier timer htimer timer' (hmem' timer' hin)
    · rw [fired_append, fired_fire]
      intro timer htimer timer' htimer'
      rcases List.mem_append.mp htimer with htimer | htimer
      · exact h.earlier timer htimer timer' (hmem timer' htimer')
      · obtain ⟨timer, hin, rfl⟩ := List.mem_map.mp htimer
        exact hsorted.2.2 timer hin timer' htimer'
    · exact h.forwards_append (by simp [TimerEvent.now, hnow]) (le_of_eq hnow.symm)

/-- The clock is moved on, but not behind a timer. -/
theorem advance (h : Ticks origin nextNow scheduler log) {duration : ℕ}
    (hle : scheduler.now + duration ≤ nextNow)
    (hdue : ∀ timer ∈ scheduler.timers,
      scheduler.now + duration ≤ max timer.expiration origin.now) :
    Ticks origin nextNow (scheduler.advance duration)
      (log ++ [.advanced (scheduler.now + duration)]) := by
  have hgrows : scheduler.now ≤ (scheduler.advance duration).now := Nat.le_add_right _ _
  have hfired : fired [TimerEvent.advanced (scheduler.now + duration)] = [] := rfl
  have hcreated : created [TimerEvent.advanced (scheduler.now + duration)] = [] := rfl
  refine ⟨h.sorted, le_trans h.since hgrows, hle, ?_, ?_, ?_, hdue, ?_, ?_, ?_⟩
  · rw [known, created_append, hcreated, fired_append, hfired, List.append_nil, List.append_nil]
    exact h.accounted
  · rw [created_append, hcreated, List.append_nil]
    exact h.creations
  · rw [fired_append, hfired, List.append_nil]
    intro timer htimer
    exact ⟨(h.firings timer htimer).1, le_trans (h.firings timer htimer).2 hgrows⟩
  · rw [fired_append, hfired, List.append_nil]
    exact h.ordered
  · rw [fired_append, hfired, List.append_nil]
    exact h.earlier
  · exact h.forwards_append (by simp [TimerEvent.now, TestScheduler.advance]) hgrows

end Ticks

/-! ### The loop -/

theorem act_eq_ok {self next : Advancing ω} {action : Action} {world : ω} :
    self.act action world = .ok next ↔ ∃ config, self.config.act action = some config ∧
      next = ⟨config, world, self.log ++ timerEvents self.config action⟩ := by
  rw [Advancing.act]
  cases self.config.act action with
  | none => simp
  | some config => simp [eq_comm]

theorem act_advance (self : Advancing ω) (duration : ℕ) (world : ω) :
    self.act (.advance duration) world
      = .ok ⟨{ self.config with scheduler := self.config.scheduler.advance duration }, world,
          self.log ++ [.advanced (self.config.scheduler.now + duration)]⟩ :=
  rfl

theorem step_calls {config config' : Config} {backgroundOnly : Bool} {draw : ℕ}
    (h : config.act (.step backgroundOnly draw) = some config') :
    config'.frames.length = config.frames.length + 1 ∨
      (config' = config ∧ config.scheduler.stepFiltered backgroundOnly draw = .ok .idle) := by
  rw [Config.act, Config.step] at h
  cases hstep : config.scheduler.stepFiltered backgroundOnly draw with
  | error error => rw [hstep] at h; cases h
  | ok stepped =>
    rw [hstep] at h
    cases stepped with
    | elapsed timers scheduler =>
      obtain rfl := Option.some.inj h
      exact .inl rfl
    | run runnable scheduler =>
      obtain rfl := Option.some.inj h
      exact .inl rfl
    | idle =>
      obtain rfl := Option.some.inj h
      exact .inr ⟨rfl, rfl⟩

/-- An operation returns from one call at most. -/
theorem length_frames_act {config config' : Config} {action : Action}
    (h : config.act action = some config') :
    config.frames.length ≤ config'.frames.length + 1 := by
  cases action with
  | scheduleLocal sessionId draw =>
    rw [Config.act] at h
    split at h
    · obtain rfl := Option.some.inj h
      exact Nat.le_succ _
    · cases h
  | scheduleBackgroundWithPriority priority draw =>
    rw [Config.act] at h
    split at h
    · obtain rfl := Option.some.inj h
      exact Nat.le_succ _
    · cases h
  | timer duration notify =>
    obtain rfl := Option.some.inj h
    exact Nat.le_succ _
  | advance duration =>
    obtain rfl := Option.some.inj h
    exact Nat.le_succ _
  | block sessionId =>
    obtain rfl := Option.some.inj h
    dsimp only
    rw [List.length_cons]
    omega
  | unblock =>
    rw [Config.act] at h
    split at h
    · rename_i sessionId frames hframes
      obtain rfl := Option.some.inj h
      rw [hframes]
      exact le_refl _
    · cases h
  | step backgroundOnly draw =>
    rcases step_calls h with hpushed | ⟨rfl, -⟩ <;> omega
  | finish =>
    rw [Config.act] at h
    split at h
    · rename_i timers frames hframes
      obtain rfl := Option.some.inj h
      rw [hframes]
      exact le_refl _
    · rename_i runnable wasMainThread frames hframes
      obtain rfl := Option.some.inj h
      rw [hframes]
      exact le_refl _
    · cases h

theorem Touches.now_eq {scheduler next : TestScheduler} {events : List TimerEvent}
    (h : Touches scheduler events next) : next.now = scheduler.now := by
  cases h with
  | nothing hnow _ => exact hnow
  | create hnow _ => exact hnow
  | fire hnow _ _ => exact hnow

/-- The invariant, in calls that are at least so deep, while the clock stands. -/
structure Within (origin : TestScheduler) (nextNow depth now : ℕ) (state : Advancing ω) :
    Prop where
  deep : depth ≤ state.config.frames.length
  stands : state.config.scheduler.now = now
  ticks : Ticks origin nextNow state.config.scheduler state.log

section Running

variable {tasks : Tasks ω} {origin : TestScheduler} {nextNow depth now fuel : ℕ}
  {self next final : Advancing ω}

theorem Within.act {action : Action} {world : ω} (h : Within origin nextNow depth now self)
    (htask : action.advances = false) (hact : self.act action world = .ok next)
    (hdeep : depth ≤ next.config.frames.length) : Within origin nextNow depth now next := by
  obtain ⟨config, hconfig, rfl⟩ := act_eq_ok.mp hact
  have htouches := touches_of_act htask hconfig
  exact ⟨hdeep, htouches.now_eq.trans h.stands, h.ticks.touch htouches⟩

theorem runPass_next (h : Within origin nextNow depth now self)
    (hpass : tasks.runPass depth self = .ok (.next next)) :
    Within origin nextNow depth now next := by
  rw [Tasks.runPass] at hpass
  split_ifs at hpass with hdeep
  · obtain ⟨next', hact, hpass⟩ := bind_eq_ok.mp hpass
    obtain rfl := Pass.next.inj (Except.ok.inj hpass)
    refine h.act (tasks.next self.world self.config).1.property hact ?_
    obtain ⟨config, hconfig, rfl⟩ := act_eq_ok.mp hact
    have hlength := length_frames_act hconfig
    dsimp only
    omega
  · obtain ⟨next', hact, hpass⟩ := bind_eq_ok.mp hpass
    split_ifs at hpass with hcalls
    · obtain rfl := Pass.next.inj (Except.ok.inj hpass)
      exact h.act rfl hact (le_of_lt hcalls)
    · cases hpass

theorem runPass_done (h : Within origin nextNow depth now self)
    (hpass : tasks.runPass depth self = .ok (.done final)) :
    Within origin nextNow depth now final ∧
      ∀ timer ∈ final.config.scheduler.timers, now < timer.expiration := by
  rw [Tasks.runPass] at hpass
  split_ifs at hpass with hdeep
  · obtain ⟨next', hact, hpass⟩ := bind_eq_ok.mp hpass
    cases hpass
  · obtain ⟨next', hact, hpass⟩ := bind_eq_ok.mp hpass
    split_ifs at hpass with hcalls
    · cases hpass
    · obtain rfl := Pass.done.inj (Except.ok.inj hpass)
      have hdepth := h.deep
      have hwithin := h.act rfl hact
      obtain ⟨config, hconfig, rfl⟩ := act_eq_ok.mp hact
      rcases step_calls hconfig with hpushed | ⟨rfl, hidle⟩
      · dsimp only at hcalls
        omega
      · refine ⟨hwithin hdepth, ?_⟩
        intro timer htimer
        have hnot := (TestScheduler.stepFiltered_idle h.ticks.sorted hidle).1 timer htimer
        rw [TestScheduler.expired, decide_eq_true_eq, h.stands] at hnot
        omega

theorem run_spec (h : Within origin nextNow depth now self)
    (hrun : tasks.run fuel depth self = .ok final) :
    Within origin nextNow depth now final ∧
      ∀ timer ∈ final.config.scheduler.timers, now < timer.expiration :=
  loop_partial (Within origin nextNow depth now) _ (fun _ _ h hpass => runPass_next h hpass)
    (fun _ _ h hpass => runPass_done h hpass) h hrun

/-- The clock is moved to the first timer, which had not expired. -/
theorem advancePass_next (h : Within origin nextNow depth now self)
    (hpass : tasks.advancePass fuel depth nextNow self = .ok (.next next)) :
    ∃ now', now < now' ∧ Within origin nextNow depth now' next := by
  obtain ⟨idle, hrun, hpass⟩ := bind_eq_ok.mp hpass
  obtain ⟨hidle, hpending⟩ := run_spec h hrun
  have hsorted := hidle.ticks.sorted
  cases htimers : idle.config.scheduler.timers with
  | nil => rw [htimers] at hpass; cases hpass
  | cons timer timers =>
    rw [htimers, List.head?_cons] at hpass
    dsimp only at hpass
    split_ifs at hpass with hle
    · rw [act_advance] at hpass
      obtain rfl := Pass.next.inj (Except.ok.inj hpass)
      have hlater := hpending timer (by simp [htimers])
      have hto : idle.config.scheduler.now + (timer.expiration - idle.config.scheduler.now)
          = timer.expiration := by
        rw [hidle.stands]
        omega
      refine ⟨timer.expiration, hlater, hidle.deep, hto, hidle.ticks.advance (by omega) ?_⟩
      intro timer' htimer'
      rw [hto]
      rw [htimers] at hsorted htimer'
      rcases List.mem_cons.mp htimer' with rfl | htimer'
      · exact le_max_left _ _
      · exact le_max_of_le_left ((List.pairwise_cons.mp hsorted).1 timer' htimer')
    · cases hpass

theorem advancePass_done (h : Within origin nextNow depth now self)
    (hpass : tasks.advancePass fuel depth nextNow self = .ok (.done final)) :
    Ticks origin nextNow final.config.scheduler final.log ∧
      ∀ timer ∈ final.config.scheduler.timers, nextNow < timer.expiration := by
  obtain ⟨idle, hrun, hpass⟩ := bind_eq_ok.mp hpass
  obtain ⟨hidle, -⟩ := run_spec h hrun
  have hsorted := hidle.ticks.sorted
  cases htimers : idle.config.scheduler.timers with
  | nil =>
    rw [htimers] at hpass
    obtain rfl := Pass.done.inj (Except.ok.inj hpass)
    refine ⟨hidle.ticks, ?_⟩
    rw [htimers]
    simp
  | cons timer timers =>
    rw [htimers, List.head?_cons] at hpass
    dsimp only at hpass
    split_ifs at hpass with hle
    · rw [act_advance] at hpass
      cases hpass
    · obtain rfl := Pass.done.inj (Except.ok.inj hpass)
      refine ⟨hidle.ticks, ?_⟩
      rw [htimers] at hsorted ⊢
      intro timer' htimer'
      rcases List.mem_cons.mp htimer' with rfl | htimer'
      · omega
      · have hle' := (List.pairwise_cons.mp hsorted).1 timer' htimer'
        omega

end Running

/-! ### What fires, and when -/

theorem Ticks.fires_at {origin scheduler : TestScheduler} {nextNow : ℕ} {log : List TimerEvent}
    (h : Ticks origin nextNow scheduler log) {timer : ScheduledTimer × ℕ}
    (hknown : timer ∈ known origin log) :
    max timer.1.expiration timer.2 = max timer.1.expiration origin.now := by
  rcases List.mem_append.mp hknown with hpending | hcreated
  · obtain ⟨timer, -, rfl⟩ := List.mem_map.mp hpending
    rfl
  · obtain ⟨hsince, hexpires⟩ := h.creations timer hcreated
    omega

/-- **What has fired, and when**, once no timer is left that expires before the end. -/
theorem Ticks.neverSkips {origin scheduler : TestScheduler} {duration : ℕ}
    {log : List TimerEvent} (h : Ticks origin (origin.now + duration) scheduler log)
    (hpending : ∀ timer ∈ scheduler.timers, origin.now + duration < timer.expiration)
    (hend : scheduler.now = origin.now + duration) :
    NeverSkips origin duration log scheduler := by
  have hfired : ∀ timer ∈ (fired log).map Prod.fst,
      timer.expiration ≤ origin.now + duration := by
    intro timer hmem
    obtain ⟨firing, hfiring, rfl⟩ := List.mem_map.mp hmem
    exact le_trans (h.firings firing hfiring).2 h.before
  have hfires : ((fired log).map Prod.fst).Perm (((known origin log).filter fun timer =>
      timer.1.expiration ≤ origin.now + duration).map Prod.fst) := by
    have hkept : ((fired log).map Prod.fst).filter
        (fun timer => timer.expiration ≤ origin.now + duration) = (fired log).map Prod.fst :=
      List.filter_eq_self.mpr (by simpa using hfired)
    have hnone : scheduler.timers.filter
        (fun timer => timer.expiration ≤ origin.now + duration) = [] :=
      List.filter_eq_nil_iff.mpr (by simpa using hpending)
    have hfilter := h.accounted.filter fun timer => timer.expiration ≤ origin.now + duration
    rw [List.filter_append, hkept, hnone, List.append_nil, List.filter_map] at hfilter
    exact hfilter.symm
  have hleft : scheduler.timers.Perm (((known origin log).filter fun timer =>
      origin.now + duration < timer.1.expiration).map Prod.fst) := by
    have hnone : ((fired log).map Prod.fst).filter
        (fun timer => origin.now + duration < timer.expiration) = [] :=
      List.filter_eq_nil_iff.mpr (by simpa using hfired)
    have hkept : scheduler.timers.filter
        (fun timer => origin.now + duration < timer.expiration) = scheduler.timers :=
      List.filter_eq_self.mpr (by simpa using hpending)
    have hfilter := h.accounted.filter fun timer => origin.now + duration < timer.expiration
    rw [List.filter_append, hkept, hnone, List.nil_append, List.filter_map] at hfilter
    exact hfilter.symm
  refine ⟨?_, hleft, h.ordered, h.forwards, hend⟩
  obtain ⟨timers, hmap, hperm⟩ :=
    (congrFun (congrFun (List.eq_map_comp_perm Prod.fst) _) _).mpr hfires
  refine ⟨timers, hperm, ?_⟩
  calc fired log
      = ((fired log).map Prod.fst).map fun timer => (timer, max timer.expiration origin.now) := by
        rw [List.map_map]
        refine ((List.map_congr_left ?_).trans (List.map_id _)).symm
        intro firing hfiring
        exact Prod.ext rfl (h.firings firing hfiring).1.symm
    _ = timers.map fun timer => (timer.1, max timer.1.expiration timer.2) := by
        rw [hmap, List.map_map]
        refine List.map_congr_left ?_
        intro timer hmem
        have hknown := List.mem_of_mem_filter (hperm.mem_iff.mp hmem)
        exact Prod.ext rfl (h.fires_at hknown).symm

/-! ### The clock is advanced -/

section Advance

variable {tasks : Tasks ω} {duration fuel : ℕ} {self final : Advancing ω}

/-- Whenever it returns, no timer is skipped. -/
theorem advanceClock_spec (hlog : self.log = [])
    (hsorted : self.config.scheduler.timers.Pairwise (·.expiration ≤ ·.expiration))
    (h : tasks.advanceClock fuel duration self = .ok final) :
    NeverSkips self.config.scheduler duration final.log final.config.scheduler := by
  obtain ⟨idle, hloop, h⟩ := bind_eq_ok.mp h
  rw [act_advance] at h
  obtain rfl := Except.ok.inj h
  have hstart : Within self.config.scheduler (self.config.scheduler.now + duration)
      self.config.frames.length self.config.scheduler.now self := by
    refine ⟨le_refl _, rfl, ?_⟩
    rw [hlog]
    exact .start hsorted (Nat.le_add_right _ _)
  obtain ⟨hticks, hpending⟩ := loop_partial
    (fun state => ∃ now, Within self.config.scheduler (self.config.scheduler.now + duration)
      self.config.frames.length now state)
    (fun state => Ticks self.config.scheduler (self.config.scheduler.now + duration)
      state.config.scheduler state.log ∧ ∀ timer ∈ state.config.scheduler.timers,
        self.config.scheduler.now + duration < timer.expiration)
    (by
      rintro state state' ⟨now, hwithin⟩ hpass
      obtain ⟨now', -, hnext⟩ := advancePass_next hwithin hpass
      exact ⟨now', hnext⟩)
    (by
      rintro state state' ⟨now, hwithin⟩ hpass
      exact advancePass_done hwithin hpass)
    ⟨_, hstart⟩ hloop
  have hto : idle.config.scheduler.now
      + (self.config.scheduler.now + duration - idle.config.scheduler.now)
        = self.config.scheduler.now + duration := by
    have hbefore := hticks.before
    omega
  refine (hticks.advance (le_of_eq hto) ?_).neverSkips hpending hto
  intro timer htimer
  rw [hto]
  exact le_max_of_le_left (le_of_lt (hpending timer htimer))

theorem run_mono {fuel' depth : ℕ} (h : tasks.run fuel depth self = .ok final)
    (hle : fuel ≤ fuel') : tasks.run fuel' depth self = .ok final :=
  loop_mono (fun _ _ hpass => hpass) h hle

theorem advancePass_mono {fuel' depth nextNow : ℕ} {pass : Pass (Advancing ω) (Advancing ω)}
    (h : tasks.advancePass fuel depth nextNow self = .ok pass) (hle : fuel ≤ fuel') :
    tasks.advancePass fuel' depth nextNow self = .ok pass := by
  obtain ⟨idle, hrun, hpass⟩ := bind_eq_ok.mp h
  exact bind_eq_ok.mpr ⟨idle, run_mono hrun hle, hpass⟩

theorem advancePass_ends {depth nextNow : ℕ} (h : tasks.run fuel depth self = .ok final) :
    ∃ pass, tasks.advancePass fuel depth nextNow self = .ok pass := by
  rw [Tasks.advancePass, h, ok_bind]
  cases final.config.scheduler.timers.head? with
  | none => exact ⟨_, rfl⟩
  | some timer =>
    dsimp only
    rw [act_advance]
    split_ifs <;> exact ⟨_, rfl⟩

/-- The loop ends: each of its passes moves the clock on, but not behind the end. -/
theorem loop_ends {origin : TestScheduler} {depth nextNow : ℕ} {called : Advancing ω}
    (hterminates : ∀ self, tasks.Reaches depth nextNow called self →
      ∃ fuel final, tasks.run fuel depth self = .ok final) :
    ∀ {now : ℕ} {self : Advancing ω}, Within origin nextNow depth now self →
      tasks.Reaches depth nextNow called self →
        ∃ fuel final, loop .outOfFuel (tasks.advancePass fuel depth nextNow) fuel self
          = .ok final := by
  intro now self h hreaches
  induction hleft : nextNow - now using Nat.strong_induction_on generalizing now self with
  | _ left ih =>
    obtain ⟨fuel, idle, hrun⟩ := hterminates self hreaches
    have hends : ∃ pass, tasks.advancePass fuel depth nextNow self = .ok pass :=
      advancePass_ends hrun
    obtain ⟨pass, hpass⟩ := hends
    cases pass with
    | done final =>
      exact ⟨fuel + 1, final, loop_done (advancePass_mono hpass (Nat.le_succ fuel))⟩
    | next next =>
      obtain ⟨now', hlt, hnext⟩ := advancePass_next h hpass
      have hbefore := hnext.ticks.before
      rw [hnext.stands] at hbefore
      obtain ⟨fuel', final, hrest⟩ :=
        ih (nextNow - now') (by omega) hnext (.next hreaches hpass) rfl
      refine ⟨max fuel fuel' + 1, final, ?_⟩
      rw [loop_next (advancePass_mono hpass (by omega))]
      exact loop_mono (fun _ _ hpass => advancePass_mono hpass (by omega)) hrest (by omega)

/-- **`advance_clock` never skips a timer**: where each run of the tasks ends, it returns, and
whenever it returns, what has fired is what expires until the end, in the order of the
expirations, each when it expired or when it was there. -/
theorem advanceClock_never_skips (tasks : Tasks ω) (config : Config) (world : ω) (duration : ℕ)
    (hsorted : config.scheduler.timers.Pairwise (·.expiration ≤ ·.expiration)) :
    (tasks.Terminates duration ⟨config, world, []⟩ →
        ∃ fuel final, tasks.advanceClock fuel duration ⟨config, world, []⟩ = .ok final) ∧
      ∀ fuel final, tasks.advanceClock fuel duration ⟨config, world, []⟩ = .ok final →
        NeverSkips config.scheduler duration final.log final.config.scheduler := by
  refine ⟨?_, ?_⟩
  · intro hterminates
    have hstart : Within config.scheduler (config.scheduler.now + duration)
        config.frames.length config.scheduler.now (⟨config, world, []⟩ : Advancing ω) :=
      ⟨le_refl _, rfl, .start hsorted (Nat.le_add_right _ _)⟩
    obtain ⟨fuel, idle, hloop⟩ := loop_ends hterminates hstart .start
    refine ⟨fuel, _, bind_eq_ok.mpr ⟨idle, hloop, act_advance _ _ _⟩⟩
  · intro fuel final h
    exact advanceClock_spec rfl hsorted h

end Advance

/-! ### Two timers -/

/-- Tasks that return at once. -/
def idleTasks : Tasks Unit where
  next _ _ := (⟨.finish, rfl⟩, ())
  draw _ _ := (0, ())

/-- A timer that has expired and one that expires at the end. -/
def sampleConfig : Config :=
  ⟨{ TestScheduler.new false with now := 3, timers := [⟨1, 0⟩, ⟨7, 1⟩] }, [], 0, []⟩

/-- The clock has been moved to the second one. -/
def sampleMoved : Advancing Unit :=
  ⟨{ sampleConfig with scheduler := { sampleConfig.scheduler with now := 7, timers := [⟨7, 1⟩] } },
    (), [.fired ⟨1, 0⟩ 3, .advanced 7]⟩

theorem idleTasks_terminates : idleTasks.Terminates 4 ⟨sampleConfig, (), []⟩ := by
  have hfirst : idleTasks.advancePass 9 0 7 ⟨sampleConfig, (), []⟩ = .ok (.next sampleMoved) := rfl
  have hlast : idleTasks.advancePass 9 0 7 sampleMoved
      = .ok (.done { sampleMoved with
          config := { sampleMoved.config with
            scheduler := { sampleMoved.config.scheduler with timers := [] } }
          log := sampleMoved.log ++ [.fired ⟨7, 1⟩ 7] }) := rfl
  have hreaches : ∀ self, idleTasks.Reaches 0 7 ⟨sampleConfig, (), []⟩ self →
      self = ⟨sampleConfig, (), []⟩ ∨ self = sampleMoved := by
    intro self h
    induction h with
    | start => exact .inl rfl
    | @next self next fuel _ hpass ih =>
      have hmore := advancePass_mono hpass (Nat.le_max_left fuel 9)
      rcases ih with rfl | rfl
      · rw [advancePass_mono hfirst (Nat.le_max_right fuel 9)] at hmore
        exact .inr (Pass.next.inj (Except.ok.inj hmore)).symm
      · rw [advancePass_mono hlast (Nat.le_max_right fuel 9)] at hmore
        cases hmore
  intro self h
  rcases hreaches self h with rfl | rfl
  · exact ⟨9, _, rfl⟩
  · exact ⟨9, _, rfl⟩

theorem advanceClock_never_skips_two : ∃ fuel final,
    idleTasks.advanceClock fuel 4 ⟨sampleConfig, (), []⟩ = .ok final ∧
      NeverSkips sampleConfig.scheduler 4 final.log final.config.scheduler := by
  have hsorted : sampleConfig.scheduler.timers.Pairwise (·.expiration ≤ ·.expiration) := by
    decide
  obtain ⟨hreturns, hspec⟩ := advanceClock_never_skips idleTasks sampleConfig () 4 hsorted
  obtain ⟨fuel, final, h⟩ := hreturns idleTasks_terminates
  exact ⟨fuel, final, h, hspec fuel final h⟩

end Zui.Scheduler
