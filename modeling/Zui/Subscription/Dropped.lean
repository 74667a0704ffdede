/-
Dropped subscriptions.

No `retain` calls a callback whose subscription was dropped (`called_not_dropped`), in
any run.  A dropped subscriber leaves the set, too, unless a `retain` in progress has
already kept it, or comes to it before it is active: then it is put back.  In the runs
without such steps (`Clean`) no `remove` takes a dropped subscriber, and the set has none
when no `retain` is in progress (`dropped_never_called`).
-/
import Zui.Library.Loop
import Zui.Subscription.Places

namespace Zui.Gpui

namespace SetState

variable {EmitterKey Callback : Type} [DecidableEq EmitterKey]
  {s s' : SetState EmitterKey Callback} {op : Op EmitterKey Callback} {k : EmitterKey} {i : ℕ}

/-! ### Calls -/

/-- What a step adds to the log: a call is one of a subscriber that was not dropped. -/
theorem stepped_called (hv : s.Valid) (h : s.Stepped op s') :
    ∃ new, s'.log = s.log ++ new ∧ ∀ k i, .called k i ∈ new →
      .dropped i ∉ s.log ∧ ∀ j, .dropped j ∉ new := by
  cases h with
  | insert hcalls => exact ⟨_, rfl, by simp⟩
  | activate hcalls hinert => exact ⟨[], (List.append_nil _).symm, by simp⟩
  | drop hcalls hheld => exact ⟨_, rfl, by simp⟩
  | detach hcalls hheld => exact ⟨[], (List.append_nil _).symm, by simp⟩
  | remove hcalls => exact ⟨_, rfl, by simp⟩
  | @next iterator subscribers hcalls hget =>
    obtain ⟨new, rest, hnext, -, hnew⟩ := next_spec s iterator subscribers
    refine ⟨new, by rw [hnext], fun k i hcalled => ?_⟩
    obtain ⟨_, -, he⟩ := hnew _ hcalled
    cases he
  | @retain emitter hcalls =>
    refine ⟨[], ?_, by simp⟩
    rw [SetState.retain, List.append_nil]
    split <;> rfl
  | @visit frame frames subscriber rest hframes hcurrent hrest =>
    obtain ⟨new, hlog, hnew⟩ := visit_log s frame frames subscriber rest
    refine ⟨_, hlog, fun k i hcalled => ?_⟩
    have hmem : .called k i ∈ new := by simpa using hcalled
    obtain ⟨he, hturn⟩ := hnew _ hmem
    obtain ⟨-, rfl⟩ := Event.called.inj he
    constructor
    · -- The loop calls it, so it was not dropped.
      rw [← hv.dropped, (SubscriberSet.turn_eq_call.mp hturn).2]
      simp
    · intro j hj
      rcases List.mem_cons.mp hj with hj | hj
      · cases hj
      · cases (hnew _ hj).1
  | endRetain hframes hcurrent hrest => exact ⟨[], (List.append_nil _).symm, by simp⟩
  | finish hframes hcurrent => exact ⟨_, rfl, by simp⟩

/-- No callback is called after its subscription was dropped. -/
theorem Reachable.called_not_dropped
    {allowed : SetState EmitterKey Callback → Op EmitterKey Callback → Prop}
    (h : Reachable allowed s) (k : EmitterKey) (i : ℕ) :
    Whenever s.log (.called k i) fun pre => .dropped i ∉ pre := by
  induction h with
  | new =>
    intro pre post hsplit
    simp [SetState.new] at hsplit
  | step hs _ hstep ih =>
    obtain ⟨new, hlog, hnew⟩ := stepped_called hs.valid (step_cases hstep)
    rw [hlog]
    refine ih.append fun pre post hsplit => ?_
    obtain ⟨hold, hdropped⟩ := hnew k i (by simp [hsplit])
    rw [List.mem_append, not_or]
    exact ⟨hold, fun hpre => hdropped i (by simp [hsplit, hpre])⟩

/-! ### Clean runs -/

/-- The step drops no subscription whose subscriber a loop has already kept, and no loop
comes to a subscriber that was dropped before it was active. -/
def Clean (s : SetState EmitterKey Callback) : Op EmitterKey Callback → Prop
  | .drop subscription => ∀ frame ∈ s.frames, subscription.subscriberId ∉ frame.kept.ids
  | .turn => ∀ frame ∈ s.frames.head?, ∀ subscriber ∈ frame.rest.head?,
      s.set.active subscriber.1 = false → s.set.dropped subscriber.1 = false
  | _ => True

instance (s : SetState EmitterKey Callback) (op : Op EmitterKey Callback) :
    Decidable (s.Clean op) :=
  match op with
  | .drop subscription =>
    inferInstanceAs (Decidable (∀ frame ∈ s.frames, subscription.subscriberId ∉ frame.kept.ids))
  | .turn =>
    inferInstanceAs (Decidable (∀ frame ∈ s.frames.head?, ∀ subscriber ∈ frame.rest.head?,
      s.set.active subscriber.1 = false → s.set.dropped subscriber.1 = false))
  | .insert _ _ | .activate _ | .detach _ | .remove _ | .next _ | .retain _ | .finish _ _ =>
    inferInstanceAs (Decidable True)

/-- A call of `remove` took the subscriber, which was not dropped at that time. -/
def TakenLive (log : List (Event EmitterKey)) (i : ℕ) : Prop :=
  ∃ k pre post, log = pre ++ .removed k i :: post ∧ .dropped i ∉ pre

omit [DecidableEq EmitterKey] in
theorem TakenLive.append {log : List (Event EmitterKey)} (h : TakenLive log i)
    (new : List (Event EmitterKey)) : TakenLive (log ++ new) i := by
  obtain ⟨k, pre, post, rfl, hpre⟩ := h
  exact ⟨k, pre, post ++ new, by simp, hpre⟩

/-- What holds of the dropped subscribers in every state of a clean run. -/
structure Live (s : SetState EmitterKey Callback) : Prop where
  present : ∀ k, ∀ i ∈ (s.set.present k).ids, .dropped i ∉ s.log
  kept : ∀ frame ∈ s.frames, ∀ i ∈ frame.kept.ids, .dropped i ∉ s.log
  iterators : ∀ iterator ∈ s.iterators, ∀ subscriber ∈ iterator, TakenLive s.log subscriber.1
  handedOut : ∀ i, Whenever s.log (.handedOut i) fun pre => TakenLive pre i

omit [DecidableEq EmitterKey] in
theorem live_new : (SetState.new : SetState EmitterKey Callback).Live where
  present := by simp [SetState.new]
  kept := by simp [SetState.new]
  iterators := by simp [SetState.new]
  handedOut := by
    intro i pre post hsplit
    simp [SetState.new] at hsplit

omit [DecidableEq EmitterKey] in
/-- A step that drops nothing. -/
theorem Live.quiet (hl : s.Live) {t : SetState EmitterKey Callback}
    {new : List (Event EmitterKey)} (hlog : t.log = s.log ++ new)
    (hnew : ∀ i, .dropped i ∉ new)
    (hpresent : ∀ k, ∀ i ∈ (t.set.present k).ids, .dropped i ∉ s.log)
    (hkept : ∀ frame ∈ t.frames, ∀ i ∈ frame.kept.ids, .dropped i ∉ s.log)
    (hiterators : ∀ iterator ∈ t.iterators, ∀ subscriber ∈ iterator,
      TakenLive t.log subscriber.1)
    (hhanded : ∀ i, .handedOut i ∈ new → TakenLive s.log i) : t.Live where
  present k i hi := by
    rw [hlog, List.mem_append, not_or]
    exact ⟨hpresent k i hi, hnew i⟩
  kept frame hframe i hi := by
    rw [hlog, List.mem_append, not_or]
    exact ⟨hkept frame hframe i hi, hnew i⟩
  iterators := hiterators
  handedOut i := by
    rw [hlog]
    exact (hl.handedOut i).append fun pre post hsplit => (hhanded i (by simp [hsplit])).append pre

omit [DecidableEq EmitterKey] in
theorem Live.iterators_append (hl : s.Live) (new : List (Event EmitterKey)) :
    ∀ iterator ∈ s.iterators, ∀ subscriber ∈ iterator,
      TakenLive (s.log ++ new) subscriber.1 :=
  fun iterator hit subscriber hsub => (hl.iterators iterator hit subscriber hsub).append new

theorem Live.insert (hl : s.Live) (hv : s.Valid) (j : EmitterKey) (c : Callback) :
    (s.insert j c).Live := by
  refine hl.quiet rfl (by simp) (fun k i hi => ?_) hl.kept (hl.iterators_append _) (by simp)
  rcases SubscriberSet.ids_insert.mp hi with ⟨-, rfl⟩ | hi
  · -- Nobody had the new id.
    intro hdropped
    obtain ⟨k, hk⟩ := hv.droppedInserted _ hdropped
    exact absurd (hv.fresh k _ hk) (lt_irrefl _)
  · exact hl.present k i hi

theorem Live.drop (hl : s.Live) (hv : s.Valid) {subscription : Subscription EmitterKey}
    (hheld : subscription ∈ s.held) (hclean : s.Clean (.drop subscription)) :
    (s.drop subscription).Live where
  present k i hi := by
    obtain ⟨hi, hne⟩ := SubscriberSet.ids_unsubscribe.mp hi
    intro hdropped
    rcases List.mem_append.mp hdropped with hdropped | hdropped
    · exact hl.present k i hi hdropped
    · -- It is under the emitter that its subscription names, where it was removed.
      obtain rfl := Event.dropped.inj (List.mem_singleton.mp hdropped)
      exact hne ⟨hv.emitter k _ _ (hv.occurs k _ (Or.inl hi)) (hv.held _ hheld), rfl⟩
  kept frame hframe i hi := by
    intro hdropped
    rcases List.mem_append.mp hdropped with hdropped | hdropped
    · exact hl.kept frame hframe i hi hdropped
    · obtain rfl := Event.dropped.inj (List.mem_singleton.mp hdropped)
      exact hclean frame hframe hi
  iterators := hl.iterators_append _
  handedOut i := (hl.handedOut i).append_of_notMem (by simp)

theorem Live.remove (hl : s.Live) (j : EmitterKey) : (s.remove j).Live := by
  refine hl.quiet rfl (by simp) (fun k i hi => ?_) hl.kept ?_ (by simp)
  · have hpresent : (s.remove j).set.present k = _ := SubscriberSet.present_remove
    rw [hpresent] at hi
    split at hi
    · simp at hi
    · exact hl.present k i hi
  · intro iterator hit subscriber hsub
    rcases List.mem_append.mp hit with hit | hit
    · exact hl.iterators_append _ iterator hit subscriber hsub
    · obtain rfl := List.mem_singleton.mp hit
      have hid : subscriber.1 ∈ (s.set.present j).ids := List.mem_map_of_mem hsub
      obtain ⟨pre, post, hsplit⟩ := List.append_of_mem hid
      refine ⟨j, s.log ++ pre.map (.removed j), post.map (.removed j), ?_, ?_⟩
      · show s.log ++ (s.set.present j).ids.map (Event.removed j) = _
        simp [hsplit]
      · simpa using hl.present j _ hid

omit [DecidableEq EmitterKey] in
theorem Live.visit (hl : s.Live) (hv : s.Valid) {frame : Frame EmitterKey Callback}
    {frames : List (Frame EmitterKey Callback)} {subscriber : ℕ × Callback}
    {rest : Subscribers Callback} (hframes : s.frames = frame :: frames)
    (hrest : frame.rest = subscriber :: rest) (hclean : s.Clean .turn) :
    (s.visit frame frames subscriber rest).Live := by
  have hkept : ∀ f ∈ frame :: frames, ∀ i ∈ f.kept.ids, .dropped i ∉ s.log := hframes ▸ hl.kept
  have hold := List.forall_mem_cons.mp hkept
  rw [SetState.visit]
  split
  · rename_i hturn
    -- It is kept because it is not active, and then it was not dropped either.
    have hdropped : s.set.dropped subscriber.1 = false :=
      hclean frame (by simp [hframes]) subscriber (by simp [hrest])
        (SubscriberSet.turn_eq_keep.mp hturn)
    refine hl.quiet rfl (by simp) hl.present (List.forall_mem_cons.mpr ⟨fun i hi => ?_, hold.2⟩)
      (hl.iterators_append _) (by simp)
    rw [Subscribers.ids, List.map_append, List.mem_append] at hi
    rcases hi with hi | hi
    · exact hold.1 i hi
    · obtain rfl : i = subscriber.1 := by simpa using hi
      rw [← hv.dropped, hdropped]
      simp
  · exact hl.quiet rfl (by simp) hl.present (List.forall_mem_cons.mpr hold)
      (hl.iterators_append _) (by simp)
  · exact hl.quiet rfl (by simp) hl.present (List.forall_mem_cons.mpr hold)
      (hl.iterators_append _) (by simp)

omit [DecidableEq EmitterKey] in
theorem Live.finish (hl : s.Live) (hv : s.Valid) {frame : Frame EmitterKey Callback}
    {frames : List (Frame EmitterKey Callback)} {id : ℕ} {keep : Bool} {callback : Callback}
    (hframes : s.frames = frame :: frames) : (s.finish frame frames id keep callback).Live := by
  have hkept : ∀ f ∈ frame :: frames, ∀ i ∈ f.kept.ids, .dropped i ∉ s.log := hframes ▸ hl.kept
  have hold := List.forall_mem_cons.mp hkept
  refine hl.quiet rfl (by simp) hl.present (List.forall_mem_cons.mpr ⟨fun i hi => ?_, hold.2⟩)
    (hl.iterators_append _) (by simp)
  by_cases hkeep : (keep && !s.set.dropped id) = true
  · rw [if_pos hkeep, Subscribers.ids, List.map_append, List.mem_append] at hi
    rcases hi with hi | hi
    · exact hold.1 i hi
    · obtain rfl : i = id := by simpa using hi
      rw [← hv.dropped]
      simp only [Bool.and_eq_true, Bool.not_eq_true'] at hkeep
      simp [hkeep.2]
  · rw [if_neg hkeep] at hi
    exact hold.1 i hi

/-- A clean step keeps the dropped subscribers out. -/
theorem Live.step (hl : s.Live) (hv : s.Valid) (hclean : s.Clean op) (h : s.Stepped op s') :
    s'.Live := by
  cases h with
  | insert hcalls => exact hl.insert hv _ _
  | activate hcalls hinert =>
    exact hl.quiet (List.append_nil _).symm (by simp) hl.present hl.kept hl.iterators
      (by simp)
  | drop hcalls hheld => exact hl.drop hv hheld hclean
  | detach hcalls hheld =>
    exact hl.quiet (List.append_nil _).symm (by simp) hl.present hl.kept hl.iterators
      (by simp)
  | remove hcalls => exact hl.remove _
  | @next iterator subscribers hcalls hget =>
    obtain ⟨new, rest, hnext, hrest, hnew⟩ := next_spec s iterator subscribers
    -- what an iterator hands out was in it before
    have hmem : subscribers ∈ s.iterators := List.mem_of_getElem? hget
    rw [hnext]
    refine hl.quiet rfl ?_ hl.present hl.kept (fun it hit subscriber hsub => ?_) ?_
    · intro i hi
      obtain ⟨_, -, he⟩ := hnew _ hi
      cases he
    · rcases List.mem_or_eq_of_mem_set hit with hit | rfl
      · exact hl.iterators_append _ it hit subscriber hsub
      · exact hl.iterators_append _ subscribers hmem subscriber (hrest _ hsub)
    · intro i hi
      obtain ⟨subscriber, hsub, he⟩ := hnew _ hi
      obtain rfl := Event.handedOut.inj he
      exact hl.iterators subscribers hmem subscriber hsub
  | @retain emitter hcalls =>
    rw [SetState.retain]
    split
    case h_1 set subscribers htake =>
      obtain ⟨rfl, rfl⟩ := SubscriberSet.take_eq_some htake
      refine hl.quiet (List.append_nil _).symm (by simp) (fun k i hi => ?_)
        (List.forall_mem_cons.mpr ⟨by simp, hl.kept⟩) hl.iterators (by simp)
      rw [SubscriberSet.present_setSubscribers] at hi
      split at hi
      · simp at hi
      · exact hl.present k i hi
    case h_2 => exact hl
  | visit hframes hcurrent hrest => exact hl.visit hv hframes hrest hclean
  | @endRetain frame frames hframes hcurrent hrest =>
    have hkept : ∀ f ∈ frame :: frames, ∀ i ∈ f.kept.ids, .dropped i ∉ s.log :=
      hframes ▸ hl.kept
    -- the frame held no dropped subscriber, and it puts back what it held
    have hold := List.forall_mem_cons.mp hkept
    refine hl.quiet (List.append_nil _).symm (by simp) (fun k i hi => ?_) hold.2
      hl.iterators (by simp)
    have hpresent : (s.endRetain frame frames).set.present k = _ := SubscriberSet.present_restore
    rw [hpresent] at hi
    split at hi
    · rcases mem_keys_extendEntries.mp hi with hi | hi
      · exact hold.1 i hi
      · exact hl.present _ i hi
    · exact hl.present k i hi
  | finish hframes hcurrent => exact hl.finish hv hframes

theorem Reachable.live (h : Reachable Clean s) : s.Live := by
  induction h with
  | new => exact live_new
  | step hs hop hstep ih => exact ih.step hs.valid hop (step_cases hstep)

end SetState

/-- **Dropped means never called.**  In a clean run no `retain` calls a callback whose
subscription was dropped, what is handed out was taken by a `remove` before it was
dropped, and the set has no dropped subscriber when no `retain` is in progress. -/
theorem dropped_never_called {EmitterKey Callback : Type} [DecidableEq EmitterKey]
    (s : SetState EmitterKey Callback) (hrun : SetState.Reachable SetState.Clean s) :
    (∀ k i, Whenever s.log (.called k i) fun pre => .dropped i ∉ pre) ∧
    (∀ i, Whenever s.log (.handedOut i) fun pre =>
      ∃ k before after, pre = before ++ .removed k i :: after ∧ .dropped i ∉ before) ∧
    (s.frames = [] → ∀ k i, .dropped i ∈ s.log → i ∉ (s.set.present k).ids) :=
  ⟨hrun.called_not_dropped, hrun.live.handedOut,
    fun _ k i hdropped hi => hrun.live.present k i hi hdropped⟩

/-- A callback drops its own subscription: the run is clean. -/
theorem dropped_never_called_self :
    ∃ s : SetState ℕ Unit, .dropped 0 ∈ s.log ∧
      (∀ k i, Whenever s.log (.called k i) fun pre => .dropped i ∉ pre) ∧
      (∀ i, Whenever s.log (.handedOut i) fun pre =>
        ∃ k before after, pre = before ++ .removed k i :: after ∧ .dropped i ∉ before) ∧
      (s.frames = [] → ∀ k i, .dropped i ∈ s.log → i ∉ (s.set.present k).ids) := by
  have hlog : ((SetState.new : SetState ℕ Unit).run SetState.Clean
      [.insert 0 (), .activate 0, .retain 0, .turn, .drop ⟨0, 0⟩, .finish true (),
        .turn]).map (fun s => decide (.dropped 0 ∈ s.log)) = some true := by decide
  obtain ⟨s, hrun, hdropped⟩ := Option.map_eq_some_iff.mp hlog
  exact ⟨s, of_decide_eq_true hdropped, dropped_never_called s (.run .new hrun)⟩

/-- Two subscribers of an emitter, of which the second one's callback drops the first
subscription, after the loop has kept the first subscriber. -/
def lateDrop : List (Op ℕ Unit) :=
  [.insert 0 (), .insert 0 (), .activate 0, .activate 1, .retain 0, .turn, .finish true (),
    .turn, .drop ⟨0, 0⟩, .finish true (), .turn]

/-- What happens in that run. -/
def lateDropLog : List (Event ℕ) :=
  [.inserted 0 0, .inserted 0 1, .turn 0 0, .called 0 0, .returned 0 0 true, .turn 0 1,
    .called 0 1, .dropped 0, .returned 0 1 true]

/-- The dropped subscriber is back in the set, and `remove` hands its callback out. -/
theorem late_drop_handed_out :
    ∃ s s' : SetState ℕ Unit, SetState.Reachable (fun _ _ => True) s ∧ s.frames = [] ∧
      .dropped 0 ∈ s.log ∧ 0 ∈ (s.set.present 0).ids ∧
      s.run (fun _ _ => True) [.remove 0, .next 0] = some s' ∧
      s'.log = s.log ++ [.removed 0 0, .removed 0 1, .handedOut 0] ∧
      ¬ Whenever s'.log (.handedOut 0) fun pre =>
        ∃ k before after, pre = before ++ .removed k 0 :: after ∧ .dropped 0 ∉ before := by
  have hrun : ((SetState.new : SetState ℕ Unit).run (fun _ _ => True) lateDrop).map (fun s =>
      (s.frames.isEmpty, (s.set.present 0).ids, s.log,
        (s.run (fun _ _ => True) [.remove 0, .next 0]).map SetState.log)) =
      some (true, [0, 1], lateDropLog,
        some (lateDropLog ++ [.removed 0 0, .removed 0 1, .handedOut 0])) := by
    decide
  obtain ⟨s, hs, hobserved⟩ := Option.map_eq_some_iff.mp hrun
  simp only [Prod.mk.injEq] at hobserved
  obtain ⟨hframes, hids, hlog, hnext⟩ := hobserved
  obtain ⟨s', hs', hlog'⟩ := Option.map_eq_some_iff.mp hnext
  refine ⟨s, s', .run .new hs, List.isEmpty_iff.mp hframes, ?_, ?_, hs', hlog ▸ hlog', ?_⟩
  · rw [hlog]
    decide
  · rw [hids]
    decide
  · intro hwhenever
    have hsplit : s'.log = (lateDropLog ++ [.removed 0 0, .removed 0 1]) ++ .handedOut 0 :: [] := by
      rw [hlog']
      rfl
    obtain ⟨k, before, after, heq, hbefore⟩ := hwhenever _ _ hsplit
    -- The subscriber was not removed before the drop, so the drop is before the removal.
    rcases List.append_eq_append_iff.mp heq with ⟨mid, rfl, -⟩ | ⟨mid, hmid, hrest⟩
    · exact hbefore (List.mem_append_left _ (by decide))
    · cases mid with
      | nil =>
        rw [List.append_nil] at hmid
        exact hbefore (hmid ▸ by decide)
      | cons e mid =>
        obtain ⟨rfl, -⟩ := List.cons.inj hrest
        have hmem : (.removed k 0 : Event ℕ) ∈ lateDropLog := by simp [hmid]
        simp [lateDropLog] at hmem

end Zui.Gpui
