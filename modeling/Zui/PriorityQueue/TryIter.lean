/-
The iterator that does not wait.

`TryIter::next` returns what `try_pop` finds, and `None` as soon as `try_pop` has failed.
While it has not, a `None` only says that the queues were empty at that moment: what is sent
between two calls, or the end of the last sender, makes a later call return something.

Main definitions:

* `TryIterState.step` — the steps of the calls of `next`, of the senders, and of the other
  receivers;
* `TryIterState.Fused` — behind a `None` there is nothing but `None`.

Main statements:

* `TryIterState.fused_step_iff` — which steps keep an iterator fused;
* `TryIterState.errors_step` — the error is returned once;
* `TryIterState.tryIter_fused_iff` — both over whole runs.
-/
import Zui.PriorityQueue.Delivery

namespace Zui.PriorityQueue

/-- `RecvError`. -/
inductive RecvError
  | recvError
  deriving DecidableEq, Repr

/-- `Result::transpose`. -/
def transpose {ε α : Type} : Except ε (Option α) → Option (Except ε α)
  | .ok (some value) => some (.ok value)
  | .ok none => none
  | .error error => some (.error error)

/-- `Result::is_err`. -/
def isErr {ε α : Type} : Except ε α → Bool
  | .ok _ => false
  | .error _ => true

/-- What a call of `try_pop` returns, by what it has logged. -/
def QueueEvent.outcome {T : Type} : QueueEvent T → Option (Except RecvError (Option T))
  | .received _ item => some (.ok (some item))
  | .returnedNone => some (.ok none)
  | .disconnected => some (.error .recvError)
  | .sent .. => none
  | .rejected .. => none

/-- A `TryIter`, the queue that its receiver belongs to, and what its calls of `next` have
returned. -/
structure TryIterState (T : Type) where
  queue : QueueState T
  /-- The receiver of the iterator. -/
  index : ℕ
  ended : Bool
  results : List (Option (Except RecvError T))

/-- The steps. -/
inductive TryIterOp (T : Type)
  /-- `next` is called. -/
  | next
  /-- A step within a call of `next`, or of another thread. -/
  | queue (op : QueueOp T)

namespace TryIterState

variable {T : Type}

/-- `try_iter`. -/
def tryIter (queue : QueueState T) (index : ℕ) : TryIterState T where
  queue := queue
  index := index
  ended := false
  results := []

/-- The rest of `next` when `try_pop` has returned. -/
def finishNext (self : TryIterState T) (queue : QueueState T)
    (res : Except RecvError (Option T)) : TryIterState T :=
  { self with queue := queue, ended := isErr res, results := self.results ++ [transpose res] }

/-- The receiver goes on in a call of `try_pop`, which may return by that. -/
def proceed (self : TryIterState T) (queue : QueueState T) : TryIterState T :=
  match (queue.log.drop self.queue.log.length).head?.bind QueueEvent.outcome with
  | some res => self.finishNext queue res
  | none => { self with queue := queue }

variable [DecidableEq T]

/-- The receiver of the iterator takes a step in a call of `next`.  The iterator owns it:
nobody else calls, clones or drops it. -/
def stepReceiver (self : TryIterState T) : QueueOp T → Option (TryIterState T)
  | .lockReceiver index =>
    (self.queue.step (.lockReceiver index)).map fun queue => { self with queue := queue }
  | .loadSenderCount index =>
    (self.queue.step (.loadSenderCount index)).map fun queue => { self with queue := queue }
  | .proceed index draws => (self.queue.step (.proceed index draws)).map self.proceed
  | _ => none

/-- One step, if it is possible. -/
def step (self : TryIterState T) : TryIterOp T → Option (TryIterState T)
  | .next =>
    if self.queue.receivers[self.index]? = some .idle then
      if self.ended then some { self with results := self.results ++ [none] }
      else (self.queue.step (.recv self.index false)).map fun queue => { self with queue := queue }
    else none
  | .queue op =>
    if QueueState.QueueOp.receiver op = some self.index then self.stepReceiver op
    else (self.queue.step op).map fun queue => { self with queue := queue }

/-- Takes steps one after another. -/
def run (self : TryIterState T) : List (TryIterOp T) → Option (TryIterState T)
  | [] => some self
  | op :: ops => (self.step op).bind fun next => next.run ops

omit [DecidableEq T] in
/-- Once `next` has returned `None`, every later call returns `None`. -/
def Fused (self : TryIterState T) : Prop :=
  self.results.Pairwise fun earlier later => earlier = none → later = none

omit [DecidableEq T] in
/-- How often `next` has returned an error. -/
def errors (self : TryIterState T) : ℕ :=
  self.results.countP fun result => result.any isErr

omit [DecidableEq T] in
/-- A call that comes after a `None` and looks into the queues finds them empty, and has read
a sender count that is not zero. -/
def FindsNothing (self : TryIterState T) : TryIterOp T → Prop
  | .queue (.proceed index _) => index = self.index → none ∈ self.results →
    self.queue.queues.isEmpty = true ∧
      ∀ block, self.queue.receivers[self.index]? ≠ some (.loaded block 0)
  | _ => True

/-- All steps of a run are such. -/
def AllFindNothing (self : TryIterState T) : List (TryIterOp T) → Prop
  | [] => True
  | op :: ops => self.FindsNothing op ∧ ∀ next, self.step op = some next → next.AllFindNothing ops

/-! ### The cases of a step -/

omit [DecidableEq T] in
/-- What `try_pop` returns, by what the receiver has found. -/
inductive Returns (self : TryIterState T) : Except RecvError (Option T) → Prop
  | disconnected {block : Bool}
      (hget : self.queue.receivers[self.index]? = some (.loaded block 0))
      (hempty : self.queue.queues.isEmpty = true) : Returns self (.error .recvError)
  | none {senderCount : ℕ}
      (hget : self.queue.receivers[self.index]? = some (.loaded false senderCount))
      (hsenders : senderCount ≠ 0) (hempty : self.queue.queues.isEmpty = true) :
      Returns self (.ok none)
  | item {item : T} (hempty : self.queue.queues.isEmpty = false) : Returns self (.ok (some item))

/-- What a step does. -/
inductive Stepped (self : TryIterState T) : TryIterOp T → TryIterState T → Prop
  | again (hended : self.ended = true) (hidle : self.queue.receivers[self.index]? = some .idle) :
      Stepped self .next { self with results := self.results ++ [none] }
  | call {queue : QueueState T} (hended : self.ended = false) :
      Stepped self .next { self with queue := queue }
  | other {op : QueueOp T} {queue : QueueState T}
      (hop : QueueState.QueueOp.receiver op ≠ some self.index)
      (hstep : self.queue.step op = some queue) :
      Stepped self (.queue op) { self with queue := queue }
  | within {op : QueueOp T} {queue : QueueState T}
      (hidle : self.queue.receivers[self.index]? ≠ some .idle)
      (hnothing : self.FindsNothing (.queue op)) :
      Stepped self (.queue op) { self with queue := queue }
  | returns {draws : Draws} {queue : QueueState T} {res : Except RecvError (Option T)}
      (hidle : self.queue.receivers[self.index]? ≠ some .idle)
      (hidle' : queue.receivers[self.index]? = some .idle) (hreturns : self.Returns res) :
      Stepped self (.queue (.proceed self.index draws)) (self.finishNext queue res)

variable {self next : TryIterState T}

omit [DecidableEq T] in
theorem proceed_of_log {queue : QueueState T} {event : QueueEvent T}
    {res : Except RecvError (Option T)} (hlog : queue.log = self.queue.log ++ [event])
    (hres : event.outcome = some res) : self.proceed queue = self.finishNext queue res := by
  have hnew : (queue.log.drop self.queue.log.length).head? = some event := by
    rw [hlog, List.drop_left]
    rfl
  rw [proceed, hnew, Option.bind_some, hres]

omit [DecidableEq T] in
theorem idle_finish {s : QueueState T} {index : ℕ} {receiving : Receiving} {event : QueueEvent T}
    (hget : s.receivers[index]? = some receiving) :
    (s.finish index event).receivers[index]? = some .idle := by
  have hlt := (List.getElem?_eq_some_iff.mp hget).1
  simp [QueueState.finish, QueueState.leave, QueueState.setReceiver, hlt]

theorem stepped_proceed {draws : Draws} {queue : QueueState T}
    (hstep : self.queue.step (.proceed self.index draws) = some queue) :
    self.Stepped (.queue (.proceed self.index draws)) (self.proceed queue) := by
  cases QueueState.step_cases hstep with
  | disconnected hget hempty =>
    rw [proceed_of_log rfl rfl]
    exact .returns (by simp [hget]) (idle_finish hget) (.disconnected hget hempty)
  | returnNone hget hsenders hempty =>
    rw [proceed_of_log rfl rfl]
    exact .returns (by simp [hget]) (idle_finish hget) (.none hget hsenders hempty)
  | wait hget hreceiving hempty =>
    -- Only a call that blocks comes here: it logs nothing.
    have hproceed : self.proceed (self.queue.leave self.index .waiting) =
        { self with queue := self.queue.leave self.index .waiting } := by
      have hlog : ((self.queue.leave self.index .waiting).log.drop
          self.queue.log.length).head? = none := by
        simp [QueueState.leave, QueueState.setReceiver]
      rw [proceed, hlog, Option.bind_none]
    rw [hproceed]
    rcases hreceiving with rfl | ⟨senderCount, hsenders, rfl⟩
    · exact .within (by simp [hget]) fun _ _ => ⟨hempty, by simp [hget]⟩
    · refine .within (by simp [hget]) fun _ _ => ⟨hempty, fun block => ?_⟩
      simp [hget, hsenders]
  | pop hget hreceiving hempty hpop =>
    obtain ⟨priority, item, rest, left, -, -, -, hpop'⟩ :=
      QueueState.pop_eq self.index draws hempty
    cases hpop'.symm.trans hpop
    rw [proceed_of_log rfl rfl]
    refine .returns ?_ (idle_finish hget) (.item hempty)
    rw [hget]
    rcases hreceiving with rfl | ⟨block, senderCount, rfl⟩
    · simp
    · simp

theorem step_cases {op : TryIterOp T} (h : self.step op = some next) : self.Stepped op next := by
  cases op with
  | next =>
    obtain ⟨hidle, h⟩ := Option.ite_none_right_eq_some.mp h
    by_cases hended : self.ended = true
    · rw [if_pos hended] at h
      exact Option.some.inj h ▸ .again hended hidle
    · rw [if_neg hended] at h
      obtain ⟨queue, -, rfl⟩ := Option.map_eq_some_iff.mp h
      exact .call (by simpa using hended)
  | queue op =>
    rw [step] at h
    by_cases hop : QueueState.QueueOp.receiver op = some self.index
    · rw [if_pos hop] at h
      cases op with
      | lockReceiver index =>
        obtain rfl := Option.some.inj hop
        obtain ⟨queue, hstep, rfl⟩ := Option.map_eq_some_iff.mp h
        refine .within (fun hidle => ?_) trivial
        simp [QueueState.step, QueueState.QueueOp.sender, QueueState.QueueOp.receiver, hidle,
          QueueState.stepReceiver] at hstep
      | loadSenderCount index =>
        obtain rfl := Option.some.inj hop
        obtain ⟨queue, hstep, rfl⟩ := Option.map_eq_some_iff.mp h
        refine .within (fun hidle => ?_) trivial
        simp [QueueState.step, QueueState.QueueOp.sender, QueueState.QueueOp.receiver, hidle,
          QueueState.stepReceiver] at hstep
      | proceed index draws =>
        obtain rfl := Option.some.inj hop
        obtain ⟨queue, hstep, rfl⟩ := Option.map_eq_some_iff.mp h
        exact stepped_proceed hstep
      | _ => cases h
    · rw [if_neg hop] at h
      obtain ⟨queue, hstep, rfl⟩ := Option.map_eq_some_iff.mp h
      exact .other hop hstep

/-! ### `None` -/

omit [DecidableEq T] in
theorem transpose_eq_none {ε α : Type} {res : Except ε (Option α)} :
    transpose res = none ↔ res = .ok none := by
  match res with
  | .ok (some _) => simp [transpose]
  | .ok none => simp [transpose]
  | .error _ => simp [transpose]

omit [DecidableEq T] in
theorem fused_concat {result : Option (Except RecvError T)}
    (hresults : next.results = self.results ++ [result]) :
    next.Fused ↔ self.Fused ∧ (none ∈ self.results → result = none) := by
  simp only [Fused, hresults, List.pairwise_append, List.pairwise_singleton, List.mem_singleton,
    true_and, forall_eq]
  refine and_congr_right fun _ => ⟨fun h hnone => h none hnone rfl, ?_⟩
  rintro h _ hmem rfl
  exact h hmem

/-- The steps that keep an iterator fused are those that find nothing behind a `None`. -/
theorem fused_step_iff {op : TryIterOp T} (h : self.step op = some next) :
    next.Fused ↔ self.Fused ∧ self.FindsNothing op := by
  cases step_cases h with
  | again hended hidle =>
    rw [fused_concat rfl]
    exact and_congr_right fun _ => iff_of_true (fun _ => rfl) trivial
  | call hended => exact (and_iff_left trivial).symm
  | @other op queue hop hstep =>
    refine (and_iff_left ?_).symm
    cases op with
    | proceed index draws => exact fun hindex => absurd (congrArg some hindex) hop
    | _ => trivial
  | within hidle hnothing => exact (and_iff_left hnothing).symm
  | returns hidle hidle' hreturns =>
    rw [fused_concat rfl]
    refine and_congr_right fun _ => ?_
    rw [transpose_eq_none]
    cases hreturns with
    | disconnected hget hempty =>
      constructor
      · intro hres _ hnone
        cases hres hnone
      · intro hnothing hnone
        exact absurd hget ((hnothing rfl hnone).2 _)
    | none hget hsenders hempty =>
      refine iff_of_true (fun _ => rfl) fun _ _ => ⟨hempty, fun block => ?_⟩
      simp [hget, hsenders]
    | item hempty =>
      constructor
      · intro hres _ hnone
        cases hres hnone
      · intro hnothing hnone
        exact absurd (hnothing rfl hnone).1 (by simp [hempty])

/-! ### The error -/

/-- The iterator has ended by the one error, and is in no call then. -/
structure OneError (s : TryIterState T) : Prop where
  errors_eq : s.errors = if s.ended then 1 else 0
  idle : s.ended = true → s.queue.receivers[s.index]? = some .idle

omit [DecidableEq T] in
theorem idle_set {receivers : List Receiving} {index other : ℕ} (receiving : Receiving)
    (hother : other ≠ index) (hidle : receivers[index]? = some .idle) :
    (receivers.set other receiving)[index]? = some .idle := by
  rw [List.getElem?_set_ne hother, hidle]

/-- A step of another thread leaves a receiver alone that is in no call. -/
theorem idle_step {s s' : QueueState T} {op : QueueOp T} {index : ℕ}
    (hop : QueueState.QueueOp.receiver op ≠ some index) (hidle : s.receivers[index]? = some .idle)
    (h : s.step op = some s') : s'.receivers[index]? = some .idle := by
  have hne : ∀ {other : ℕ}, some other ≠ some index → other ≠ index :=
    fun hsome hother => hsome (congrArg some hother)
  cases QueueState.step_cases h with
  | @notifyOne index' woken hwakes =>
    cases woken with
    | none => exact hidle
    | some woken =>
      -- What is woken has waited.
      refine idle_set _ (fun hwoken => ?_) hidle
      subst hwoken
      simp [QueueState.wakes, hidle] at hwakes
  | recv _ => exact idle_set _ (hne hop) hidle
  | lockReceiver _ _ _ _ => exact idle_set _ (hne hop) hidle
  | loadSenderCount _ => exact idle_set _ (hne hop) hidle
  | disconnected _ _ => exact idle_set _ (hne hop) hidle
  | returnNone _ _ _ => exact idle_set _ (hne hop) hidle
  | wait _ _ _ => exact idle_set _ (hne hop) hidle
  | @pop index' draws _ _ _ _ hempty hpop =>
    obtain ⟨priority, item, rest, left, -, -, -, hpop'⟩ := QueueState.pop_eq index' draws hempty
    cases hpop'.symm.trans hpop
    exact idle_set _ (hne hop) hidle
  | cloneReceiver => exact (List.getElem?_append_left
      (List.getElem?_eq_some_iff.mp hidle).1).trans hidle
  | dropReceiver _ => exact idle_set _ (hne hop) hidle
  | _ => exact hidle

/-- `next` returns an error once. -/
theorem errors_step {op : TryIterOp T} (hself : self.OneError) (h : self.step op = some next) :
    next.OneError := by
  cases step_cases h with
  | again hended hidle =>
    refine ⟨?_, hself.idle⟩
    have herrors := hself.errors_eq
    simp only [errors] at herrors ⊢
    simp [herrors]
  | call hended => exact ⟨hself.errors_eq, fun h => absurd h (by simp [hended])⟩
  | other hop hstep =>
    exact ⟨hself.errors_eq, fun hended => idle_step hop (hself.idle hended) hstep⟩
  | within hidle hnothing =>
    exact ⟨hself.errors_eq, fun hended => absurd (hself.idle hended) hidle⟩
  | @returns draws queue res hidle hidle' hreturns =>
    -- An iterator that has ended makes no call, so this is the first error.
    have hended : self.ended = false := by
      cases h : self.ended with
      | false => rfl
      | true => exact absurd (hself.idle h) hidle
    have herrors := hself.errors_eq
    rw [hended] at herrors
    refine ⟨?_, fun _ => hidle'⟩
    simp only [errors] at herrors ⊢
    simp only [finishNext, List.countP_append, herrors]
    match res with
    | .ok (some _) => rfl
    | .ok none => rfl
    | .error _ => rfl

/-! ### Runs -/

theorem run_cons {op : TryIterOp T} {ops : List (TryIterOp T)} {last : TryIterState T}
    (h : self.run (op :: ops) = some last) :
    ∃ next, self.step op = some next ∧ next.run ops = some last :=
  Option.bind_eq_some_iff.mp h

theorem errors_run {ops : List (TryIterOp T)} : ∀ {self last : TryIterState T}, self.OneError →
    self.run ops = some last → last.OneError := by
  induction ops with
  | nil =>
    intro self last hself hrun
    exact Option.some.inj hrun ▸ hself
  | cons op ops ih =>
    intro self last hself hrun
    obtain ⟨next, hstep, hrest⟩ := run_cons hrun
    exact ih (errors_step hself hstep) hrest

theorem fused_run_iff {ops : List (TryIterOp T)} : ∀ {self last : TryIterState T},
    self.run ops = some last → (last.Fused ↔ self.Fused ∧ self.AllFindNothing ops) := by
  induction ops with
  | nil =>
    intro self last hrun
    cases hrun
    exact (and_iff_left trivial).symm
  | cons op ops ih =>
    intro self last hrun
    obtain ⟨next, hstep, hrest⟩ := run_cons hrun
    rw [ih hrest, fused_step_iff hstep, AllFindNothing, and_assoc]
    refine and_congr_right fun _ => and_congr_right fun _ => ?_
    constructor
    · rintro hall next' hstep'
      cases hstep.symm.trans hstep'
      exact hall
    · exact fun hall => hall next hstep

/-- An iterator over any queue, in any run: `next` returns an error at most once, and once it
has returned `None` every later call does, if and only if each call of `next` that comes after
a `None` and looks into the queues finds them empty, with a sender left. -/
theorem tryIter_fused_iff {queue : QueueState T} {index : ℕ} {ops : List (TryIterOp T)}
    {last : TryIterState T} (hrun : (tryIter queue index).run ops = some last) :
    last.errors ≤ 1 ∧ (last.Fused ↔ (tryIter queue index).AllFindNothing ops) := by
  constructor
  · have hlast := errors_run ⟨rfl, fun h => absurd h (by simp [tryIter])⟩ hrun
    rw [hlast.errors_eq]
    split
    · exact Nat.le_refl 1
    · exact Nat.zero_le 1
  · rw [fused_run_iff hrun]
    exact and_iff_right List.Pairwise.nil

/-- A call of `next` with its steps. -/
def nextOps (draws : Draws) : List (TryIterOp ℕ) :=
  [.next, .queue (.lockReceiver 0), .queue (.loadSenderCount 0), .queue (.proceed 0 draws)]

/-- The sender is dropped before the first call, which returns the error. -/
def dropAndNext : List (TryIterOp ℕ) :=
  .queue .dropSender :: nextOps ⟨false, false, false⟩ ++ [.next]

theorem tryIter_fused_dropAndNext : ∃ last : TryIterState ℕ,
    (tryIter .new 0).run dropAndNext = some last ∧
      last.results = [some (.error .recvError), none] ∧ last.errors ≤ 1 ∧
      (last.Fused ↔ (tryIter .new 0).AllFindNothing dropAndNext) :=
  ⟨_, rfl, rfl, tryIter_fused_iff rfl⟩

/-- A send between two calls. -/
theorem tryIter_not_fused : ¬ ∀ (ops : List (TryIterOp ℕ)) (last : TryIterState ℕ),
    (tryIter .new 0).run ops = some last → last.errors ≤ 1 ∧ last.Fused := by
  intro h
  have hrun : ∃ last : TryIterState ℕ, (tryIter .new 0).run
      (nextOps ⟨false, false, false⟩ ++ [.queue (.send .low 7), .queue (.lockSender 0),
        .queue (.push 0), .queue (.notifyOne 0 none), .queue (.unlockSender 0)] ++
        nextOps ⟨false, false, true⟩) = some last ∧ last.results = [none, some (.ok 7)] :=
    ⟨_, rfl, rfl⟩
  obtain ⟨last, hlast, hresults⟩ := hrun
  have hfused := (h _ last hlast).2
  rw [Fused, hresults] at hfused
  simp at hfused

end TryIterState

end Zui.PriorityQueue
