/-
The scheduler for tests.

One queue holds the runnables of all sessions and of the background.  A step either drops the
timers that have expired, which wakes the futures that wait for them, or takes one runnable out
of the queue and runs it.  Where a runnable goes in the queue and which one is taken may be up
to random numbers.

Design notes:

* a random number is an argument of the operation that draws it, and has to be in its range;
* a clock counts from the start of the test;
* what a runnable does when it runs, or a future when it is woken, are further operations:
  `Config` keeps the calls that have not returned yet as its frames, as `block` and a step nest
  in each other;
* parking, the traces of pending tasks and the check of the thread are left out, and so are
  the trials of `block`, whose random number of steps are steps like all others;
* the log is what the statements about whole runs are about; no operation reads it.
-/
import Zui.Library.Lanes
import Zui.PriorityQueue.Basic

namespace Zui.Scheduler

open PriorityQueue (Priority)

/-- `SessionId`. -/
abbrev SessionId : Type := ℕ

/-- `ScheduledRunnable`, with a number for the runnable. -/
structure ScheduledRunnable where
  sessionId : Option SessionId
  priority : Priority
  runnable : ℕ
  deriving DecidableEq, Repr

/-- `ScheduledTimer`, with a number for the sender that it drops. -/
structure ScheduledTimer where
  expiration : ℕ
  notify : ℕ
  deriving DecidableEq, Repr

/-- `TestScheduler` with its `SchedulerState`. -/
structure TestScheduler where
  now : ℕ
  runnables : List ScheduledRunnable
  timers : List ScheduledTimer
  blockedSessions : List SessionId
  randomizeOrder : Bool
  isMainThread : Bool
  unparked : Bool
  deriving DecidableEq, Repr

/-- Why an operation does not go through. -/
inductive SchedulerError
  /-- The random number is not in the range that it is drawn from. -/
  | badDraw
  /-- The sum of the weights overflows, which panics. -/
  | overflow
  deriving DecidableEq, Repr

/-- `random_range` of `low..high`. -/
def randomRange (low high draw : ℕ) : Except SchedulerError ℕ :=
  if low ≤ draw ∧ draw < high then .ok draw else .error .badDraw

/-- A runnable of a session. -/
def ofSession (sessionId : SessionId) (runnable : ScheduledRunnable) : Bool :=
  runnable.sessionId == some sessionId

/-- The candidates of a step among the runnables from the index `ix` on, behind runnables of
the sessions `seen`. -/
def candidateIndices (backgroundOnly : Bool) (blockedSessions : List SessionId) :
    ℕ → List SessionId → List ScheduledRunnable → List ℕ
  | _, _, [] => []
  | ix, seenSessions, runnable :: runnables =>
    match runnable.sessionId with
    | some sessionId =>
      if backgroundOnly then
        candidateIndices backgroundOnly blockedSessions (ix + 1) seenSessions runnables
      else if sessionId ∈ blockedSessions then
        candidateIndices backgroundOnly blockedSessions (ix + 1) seenSessions runnables
      else if sessionId ∈ seenSessions then
        candidateIndices backgroundOnly blockedSessions (ix + 1) seenSessions runnables
      else
        ix :: candidateIndices backgroundOnly blockedSessions (ix + 1) (sessionId :: seenSessions)
          runnables
    | none => ix :: candidateIndices backgroundOnly blockedSessions (ix + 1) seenSessions runnables

/-- The loop that finds the weight in which the target lies, from the index `i` on. -/
def selectFrom : ℕ → ℕ → List ℕ → ℕ
  | _, _, [] => 0
  | i, target, weight :: weights =>
    if target < weight then i else selectFrom (i + 1) (target - weight) weights

/-- What a step comes to: timers to drop, a runnable to run, or nothing. -/
inductive Stepped
  | elapsed (timers : List ScheduledTimer) (next : TestScheduler)
  | run (runnable : ScheduledRunnable) (next : TestScheduler)
  | idle
  deriving DecidableEq, Repr

namespace TestScheduler

/-- `TestScheduler::new`. -/
def new (randomizeOrder : Bool) : TestScheduler where
  now := 0
  runnables := []
  timers := []
  blockedSessions := []
  randomizeOrder := randomizeOrder
  isMainThread := true
  unparked := false

variable (self : TestScheduler)

/-- A runnable is put into the queue. -/
def insert (ix : ℕ) (runnable : ScheduledRunnable) : TestScheduler :=
  { self with runnables := self.runnables.insertIdx ix runnable, unparked := true }

/-- Where a runnable is inserted that may stand at `startIx` or behind it. -/
def insertionIx (startIx draw : ℕ) : Except SchedulerError ℕ :=
  if self.randomizeOrder then randomRange startIx (self.runnables.length + 1) draw
  else .ok self.runnables.length

/-- `schedule_local`. -/
def scheduleLocal (sessionId : SessionId) (runnable draw : ℕ) :
    Except SchedulerError TestScheduler := do
  let ix ← self.insertionIx (behindLast (ofSession sessionId) self.runnables) draw
  return self.insert ix ⟨some sessionId, .medium, runnable⟩

/-- `schedule_background_with_priority`. -/
def scheduleBackgroundWithPriority (runnable : ℕ) (priority : Priority) (draw : ℕ) :
    Except SchedulerError TestScheduler := do
  let ix ← self.insertionIx 0 draw
  return self.insert ix ⟨none, priority, runnable⟩

/-- `timer`. -/
def timer (duration notify : ℕ) : TestScheduler :=
  { self with
    timers := (self.timers ++ [ScheduledTimer.mk (self.now + duration) notify]).mergeSort
      fun timer timer' => timer.expiration ≤ timer'.expiration }

/-- `TestClock::advance`. -/
def advance (duration : ℕ) : TestScheduler :=
  { self with now := self.now + duration }

/-- A session that is waited for. -/
def blockSession (sessionId : Option SessionId) : TestScheduler :=
  { self with blockedSessions := self.blockedSessions ++ sessionId.toList }

/-- It is not waited for any more. -/
def unblockSession (sessionId : Option SessionId) : TestScheduler :=
  if sessionId.isSome then { self with blockedSessions := self.blockedSessions.dropLast } else self

/-- A timer that has expired. -/
def expired (timer : ScheduledTimer) : Bool :=
  timer.expiration ≤ self.now

/-- The candidate that a step takes, as an index into the candidates. -/
def select (candidateIndices : List ℕ) (draw : ℕ) : Except SchedulerError ℕ :=
  if self.randomizeOrder then
    let weights := candidateIndices.map fun ix =>
      (self.runnables[ix]?.map (·.priority.weight)).getD 0
    let totalWeight := weights.sum
    if 2 ^ 32 ≤ totalWeight then .error .overflow
    else if totalWeight = 0 then randomRange 0 candidateIndices.length draw
    else do
      let target ← randomRange 0 totalWeight draw
      return selectFrom 0 target weights
  else .ok 0

/-- `step_filtered`, up to where it drops timers or runs a runnable. -/
def stepFiltered (backgroundOnly : Bool) (draw : ℕ) : Except SchedulerError Stepped :=
  let endIx := (self.timers.takeWhile self.expired).length
  if 0 < endIx then
    .ok (.elapsed (self.timers.take endIx) { self with timers := self.timers.drop endIx })
  else
    let candidates :=
      candidateIndices backgroundOnly self.blockedSessions 0 [] self.runnables
    if candidates = [] then .ok .idle
    else do
      let selectedIdx ← self.select candidates draw
      let ix := candidates.getD selectedIdx 0
      match self.runnables[ix]? with
      | some runnable =>
        return .run runnable
          { self with
            runnables := self.runnables.eraseIdx ix
            isMainThread := runnable.sessionId.isSome }
      | none => return .idle

end TestScheduler

/-! ### Runs -/

/-- A call that has not returned yet. -/
inductive Frame
  /-- `block` -/
  | blocking (sessionId : Option SessionId)
  /-- A step that drops the timers that have expired. -/
  | waking (timers : List ScheduledTimer)
  /-- A step that runs a runnable. -/
  | running (runnable : ScheduledRunnable) (wasMainThread : Bool)
  deriving DecidableEq, Repr

/-- What happens to runnables. -/
inductive Event
  | scheduled (runnable : ScheduledRunnable)
  /-- With the sessions that are blocked, and whether only the background may run. -/
  | started (runnable : ScheduledRunnable) (backgroundOnly : Bool)
      (blockedSessions : List SessionId)
  deriving DecidableEq, Repr

/-- The scheduler in the middle of calls. -/
structure Config where
  scheduler : TestScheduler
  frames : List Frame
  nextRunnable : ℕ
  log : List Event
  deriving DecidableEq, Repr

/-- The operations, with the random numbers that they draw. -/
inductive Action
  | scheduleLocal (sessionId : SessionId) (draw : ℕ)
  | scheduleBackgroundWithPriority (priority : Priority) (draw : ℕ)
  | timer (duration notify : ℕ)
  | advance (duration : ℕ)
  /-- `block` is called. -/
  | block (sessionId : Option SessionId)
  /-- The innermost call is one of `block`, and returns. -/
  | unblock
  /-- `step`, `tick` or `tick_background_only` is called. -/
  | step (backgroundOnly : Bool) (draw : ℕ)
  /-- The innermost call is a step, and returns `true`. -/
  | finish
  deriving DecidableEq, Repr

namespace Config

/-- A new scheduler. -/
def start (randomizeOrder : Bool) : Config :=
  ⟨.new randomizeOrder, [], 0, []⟩

/-- The runnable with the next number has been scheduled. -/
def schedule (config : Config) (runnable : ScheduledRunnable) (scheduler : TestScheduler) :
    Config :=
  { config with
    scheduler := scheduler
    nextRunnable := config.nextRunnable + 1
    log := config.log ++ [.scheduled runnable] }

/-- A step is called; where it returns `false`, it changes nothing. -/
def step (config : Config) (backgroundOnly : Bool) (draw : ℕ) : Except SchedulerError Config := do
  match ← config.scheduler.stepFiltered backgroundOnly draw with
  | .elapsed timers scheduler =>
    return { config with scheduler := scheduler, frames := .waking timers :: config.frames }
  | .run runnable scheduler =>
    return { config with
      scheduler := scheduler
      frames := .running runnable config.scheduler.isMainThread :: config.frames
      log := config.log ++
        [.started runnable backgroundOnly config.scheduler.blockedSessions] }
  | .idle => return config

/-- One operation; nothing where the calls do not allow it, or where it does not go through. -/
def act (config : Config) : Action → Option Config
  | .scheduleLocal sessionId draw =>
    match config.scheduler.scheduleLocal sessionId config.nextRunnable draw with
    | .ok scheduler =>
      some (config.schedule ⟨some sessionId, .medium, config.nextRunnable⟩ scheduler)
    | .error _ => none
  | .scheduleBackgroundWithPriority priority draw =>
    match config.scheduler.scheduleBackgroundWithPriority config.nextRunnable priority draw with
    | .ok scheduler => some (config.schedule ⟨none, priority, config.nextRunnable⟩ scheduler)
    | .error _ => none
  | .timer duration notify =>
    some { config with scheduler := config.scheduler.timer duration notify }
  | .advance duration => some { config with scheduler := config.scheduler.advance duration }
  | .block sessionId =>
    some { config with
      scheduler := config.scheduler.blockSession sessionId
      frames := .blocking sessionId :: config.frames }
  | .unblock =>
    match config.frames with
    | .blocking sessionId :: frames =>
      some { config with
        scheduler := config.scheduler.unblockSession sessionId, frames := frames }
    | _ => none
  | .step backgroundOnly draw =>
    match config.step backgroundOnly draw with
    | .ok config => some config
    | .error _ => none
  | .finish =>
    match config.frames with
    | .waking _ :: frames => some { config with frames := frames }
    | .running _ wasMainThread :: frames =>
      some { config with
        scheduler := { config.scheduler with isMainThread := wasMainThread }, frames := frames }
    | _ => none

/-- What operations lead to from a new scheduler. -/
inductive Reachable (randomizeOrder : Bool) : Config → Prop
  | start : Reachable randomizeOrder (start randomizeOrder)
  | act {config config' : Config} {action : Action} :
      Reachable randomizeOrder config → config.act action = some config' →
        Reachable randomizeOrder config'

end Config

end Zui.Scheduler
