/-
One pass of `retain`, with everything that its callbacks do.

`DuringPass s₀ k` are the states from the call of `retain` on `k` in `s₀` on, as long as
callbacks insert, drop, detach, activate what they inserted, and call `retain` and
`remove` on other emitters.  `Passing` says what the frame of the pass and the events
since its beginning have to do with each other; `pass_calls_exactly` is what it says
when the pass is over.
-/
import Zui.Subscription.Dropped

namespace Zui.Gpui

section Events

variable {EmitterKey : Type} [DecidableEq EmitterKey]

/-- The subscribers of the emitter that loops came to. -/
def turnsOf (k : EmitterKey) (log : List (Event EmitterKey)) : List ℕ :=
  log.filterMap fun
    | .turn j i => if j = k then some i else none
    | _ => none

/-- The subscribers of the emitter that were called. -/
def callsOf (k : EmitterKey) (log : List (Event EmitterKey)) : List ℕ :=
  log.filterMap fun
    | .called j i => if j = k then some i else none
    | _ => none

/-- The event is not one of a loop over the subscribers of the emitter. -/
def Elsewhere (k : EmitterKey) : Event EmitterKey → Prop
  | .turn j _ => j ≠ k
  | .called j _ => j ≠ k
  | .returned j _ _ => j ≠ k
  | _ => True

variable {k : EmitterKey} {i : ℕ} {log new : List (Event EmitterKey)}

theorem turnsOf_append : turnsOf k (log ++ new) = turnsOf k log ++ turnsOf k new :=
  List.filterMap_append

theorem callsOf_append : callsOf k (log ++ new) = callsOf k log ++ callsOf k new :=
  List.filterMap_append

theorem mem_turnsOf : i ∈ turnsOf k log ↔ .turn k i ∈ log := by
  rw [turnsOf, List.mem_filterMap]
  constructor
  · rintro ⟨e, he, h⟩
    cases e with
    | turn j i' =>
      simp only [Option.ite_none_right_eq_some, Option.some.injEq] at h
      obtain ⟨rfl, rfl⟩ := h
      exact he
    | _ => cases h
  · intro h
    exact ⟨_, h, by simp⟩

theorem turnsOf_turn (hnew : ∀ e ∈ new, e = .called k i) :
    turnsOf k (log ++ .turn k i :: new) = turnsOf k log ++ [i] := by
  have htail : turnsOf k new = [] := by
    refine List.filterMap_eq_nil_iff.mpr fun e he => ?_
    rw [hnew e he]
  have hcons : turnsOf k (.turn k i :: new) = i :: turnsOf k new :=
    List.filterMap_cons_some (by simp)
  rw [turnsOf_append, hcons, htail]

theorem callsOf_turn : callsOf k (log ++ .turn k i :: new) = callsOf k log ++ callsOf k new := by
  rw [callsOf_append]
  exact congrArg _ (List.filterMap_cons_none rfl)

theorem turnsOf_elsewhere (hnew : ∀ e ∈ new, Elsewhere k e) : turnsOf k new = [] := by
  refine List.filterMap_eq_nil_iff.mpr fun e he => ?_
  have := hnew e he
  cases e with
  | turn j i => exact if_neg this
  | _ => rfl

theorem callsOf_elsewhere (hnew : ∀ e ∈ new, Elsewhere k e) : callsOf k new = [] := by
  refine List.filterMap_eq_nil_iff.mpr fun e he => ?_
  have := hnew e he
  cases e with
  | called j i => exact if_neg this
  | _ => rfl

end Events

namespace SetState

variable {EmitterKey Callback : Type} [DecidableEq EmitterKey]

/-- What callbacks do during a pass over the subscribers of `k`. -/
def PassOp (s₀ : SetState EmitterKey Callback) (k : EmitterKey) : Op EmitterKey Callback → Prop
  | .retain j => j ≠ k
  | .remove j => j ≠ k
  | .activate i => i ∉ (s₀.set.present k).ids
  | _ => True

instance (s₀ : SetState EmitterKey Callback) (k : EmitterKey) (op : Op EmitterKey Callback) :
    Decidable (s₀.PassOp k op) :=
  match op with
  | .retain j => inferInstanceAs (Decidable (j ≠ k))
  | .remove j => inferInstanceAs (Decidable (j ≠ k))
  | .activate i => inferInstanceAs (Decidable (i ∉ (s₀.set.present k).ids))
  | .insert _ _ | .drop _ | .detach _ | .next _ | .turn | .finish _ _ =>
    inferInstanceAs (Decidable True)

/-- The states of a pass that begins in `s₀`, up to its end. -/
inductive DuringPass (s₀ : SetState EmitterKey Callback) (k : EmitterKey) :
    SetState EmitterKey Callback → Prop
  | retain {s : SetState EmitterKey Callback} (hretain : s₀.step (.retain k) = some s) :
      DuringPass s₀ k s
  | step {s s' : SetState EmitterKey Callback} {op : Op EmitterKey Callback}
      (hs : DuringPass s₀ k s) (hlonger : s₀.frames.length < s.frames.length)
      (hop : s₀.PassOp k op) (hstep : s.step op = some s') : DuringPass s₀ k s'

/-- The subscriber was active when the pass began, and not dropped before its turn. -/
def toCall (s₀ : SetState EmitterKey Callback) (k : EmitterKey) (new : List (Event EmitterKey))
    (i : ℕ) : Bool :=
  s₀.set.active i && decide (.dropped i ∉ s₀.log ++ firstBefore new (.turn k i))

/-- The callback of the subscriber returned `true`, and it was not dropped before that. -/
def ReturnedTrue (s₀ : SetState EmitterKey Callback) (k : EmitterKey)
    (new : List (Event EmitterKey)) (i : ℕ) : Prop :=
  .returned k i true ∈ new ∧ .dropped i ∉ s₀.log ++ firstBefore new (.returned k i true)

/-- The frame of the pass, below frames of other emitters, and the events since the pass
began. -/
structure Passing (s₀ : SetState EmitterKey Callback) (k : EmitterKey)
    (inner : List (Frame EmitterKey Callback)) (frame : Frame EmitterKey Callback)
    (new : List (Event EmitterKey)) (s : SetState EmitterKey Callback) : Prop where
  frames : s.frames = inner ++ frame :: s₀.frames
  emitter : frame.emitter = k
  others : ∀ f ∈ inner, f.emitter ≠ k
  log : s.log = s₀.log ++ new
  active : ∀ i ∈ (s₀.set.present k).ids, s.set.active i = s₀.set.active i
  turns : (s₀.set.present k).ids = turnsOf k new ++ frame.rest.ids
  calls : callsOf k new = (turnsOf k new).filter (s₀.toCall k new)
  present : ∀ i, i ∈ (s.set.present k).ids ↔ .inserted k i ∈ new ∧ .dropped i ∉ new
  current : ∀ subscriber ∈ frame.current, subscriber.1 ∈ turnsOf k new ∧
    s₀.set.active subscriber.1 = true ∧ ∀ keep, .returned k subscriber.1 keep ∉ new
  returned : ∀ i keep, .returned k i keep ∈ new → i ∈ turnsOf k new
  kept : ∀ i, i ∈ frame.kept.ids ↔
    i ∈ turnsOf k new ∧ (s₀.set.active i = false ∨ s₀.ReturnedTrue k new i)

variable {s₀ s s' : SetState EmitterKey Callback} {k : EmitterKey} {op : Op EmitterKey Callback}
  {inner inner' : List (Frame EmitterKey Callback)} {frame : Frame EmitterKey Callback}
  {new ev : List (Event EmitterKey)} {i : ℕ}

theorem toCall_append (hi : i ∈ turnsOf k new) : s₀.toCall k (new ++ ev) i = s₀.toCall k new i := by
  rw [toCall, toCall, firstBefore_append (mem_turnsOf.mp hi)]

theorem returnedTrue_append (hev : .returned k i true ∉ ev) :
    s₀.ReturnedTrue k (new ++ ev) i ↔ s₀.ReturnedTrue k new i := by
  rw [ReturnedTrue, ReturnedTrue, List.mem_append, or_iff_left hev]
  refine and_congr_right fun hmem => ?_
  rw [firstBefore_append hmem]

/-- Something happens that is not a part of the loop over the subscribers. -/
theorem Passing.elsewhere (hp : Passing s₀ k inner frame new s) {t : SetState EmitterKey Callback}
    (hframes : t.frames = inner' ++ frame :: s₀.frames) (hothers : ∀ f ∈ inner', f.emitter ≠ k)
    (hlog : t.log = s.log ++ ev) (hev : ∀ e ∈ ev, Elsewhere k e)
    (hactive : ∀ i ∈ (s₀.set.present k).ids, t.set.active i = s.set.active i)
    (hpresent : ∀ i, i ∈ (t.set.present k).ids ↔ .inserted k i ∈ new ++ ev ∧
      .dropped i ∉ new ++ ev) :
    Passing s₀ k inner' frame (new ++ ev) t := by
  have hturns : turnsOf k (new ++ ev) = turnsOf k new := by
    rw [turnsOf_append, turnsOf_elsewhere hev, List.append_nil]
  have hreturned : ∀ i keep, .returned k i keep ∉ ev := fun i keep h => hev _ h rfl
  exact {
    frames := hframes
    emitter := hp.emitter
    others := hothers
    log := by rw [hlog, hp.log, List.append_assoc]
    active := fun i hi => (hactive i hi).trans (hp.active i hi)
    turns := by rw [hturns, hp.turns]
    calls := by
      rw [callsOf_append, callsOf_elsewhere hev, List.append_nil, hturns, hp.calls]
      exact List.filter_congr fun i hi => (toCall_append hi).symm
    present := hpresent
    current := by
      intro subscriber hsub
      obtain ⟨hmem, hactive, hnot⟩ := hp.current subscriber hsub
      refine ⟨hturns ▸ hmem, hactive, fun keep h => ?_⟩
      rcases List.mem_append.mp h with h | h
      · exact hnot keep h
      · exact hreturned _ _ h
    returned := by
      intro i keep h
      rcases List.mem_append.mp h with h | h
      · exact hturns ▸ hp.returned i keep h
      · exact absurd h (hreturned _ _)
    kept := by
      intro i
      rw [hturns, hp.kept, returnedTrue_append (hreturned i true)] }

/-- Something happens that neither inserts, drops nor changes what is present. -/
theorem Passing.aside (hp : Passing s₀ k inner frame new s) {t : SetState EmitterKey Callback}
    (hframes : t.frames = inner' ++ frame :: s₀.frames) (hothers : ∀ f ∈ inner', f.emitter ≠ k)
    (hlog : t.log = s.log ++ ev) (hev : ∀ e ∈ ev, Elsewhere k e ∧ Quiet e)
    (hactive : ∀ i ∈ (s₀.set.present k).ids, t.set.active i = s.set.active i)
    (hpresent : t.set.present k = s.set.present k) :
    Passing s₀ k inner' frame (new ++ ev) t := by
  refine hp.elsewhere hframes hothers hlog (fun e he => (hev e he).1) hactive fun i => ?_
  rw [inserted_mem_append fun e he => (hev e he).2, dropped_mem_append fun e he => (hev e he).2,
    hpresent]
  exact hp.present i

theorem Passing.insert (hp : Passing s₀ k inner frame new s) (hv₀ : s₀.Valid) (hv : s.Valid)
    (j : EmitterKey) (c : Callback) :
    Passing s₀ k inner frame (new ++ [.inserted j s.set.nextSubscriberId]) (s.insert j c) := by
  have hfresh : ∀ i, .inserted k i ∈ new → i ≠ s.set.nextSubscriberId := by
    intro i hi
    have hlt := hv.fresh k i (by rw [hp.log]; exact List.mem_append_right _ hi)
    exact Nat.ne_of_lt hlt
  have hundropped : .dropped s.set.nextSubscriberId ∉ new := by
    intro hdropped
    obtain ⟨j, hj⟩ := hv.droppedInserted _ (by rw [hp.log]; exact List.mem_append_right _ hdropped)
    exact absurd (hv.fresh j _ hj) (lt_irrefl _)
  refine hp.elsewhere hp.frames hp.others rfl (by simp [Elsewhere]) (fun i hi => ?_) fun i => ?_
  · -- The subscribers of the pass are older than the new one.
    have hlt := hv.fresh k i
      (by rw [hp.log]; exact List.mem_append_left _ (hv₀.occurs k i (Or.inl hi)))
    show Function.update s.set.active s.set.nextSubscriberId false i = _
    rw [Function.update_of_ne (Nat.ne_of_lt hlt)]
  · have hids : i ∈ ((s.insert j c).set.present k).ids ↔ _ := SubscriberSet.ids_insert
    rw [hids, hp.present]
    simp only [List.mem_append, List.mem_singleton, Event.inserted.injEq, reduceCtorEq, or_false]
    constructor
    · rintro (⟨rfl, rfl⟩ | ⟨hin, hout⟩)
      · exact ⟨Or.inr ⟨rfl, rfl⟩, hundropped⟩
      · exact ⟨Or.inl hin, hout⟩
    · rintro ⟨hin | ⟨rfl, rfl⟩, hout⟩
      · exact Or.inr ⟨hin, hout⟩
      · exact Or.inl ⟨rfl, rfl⟩

theorem Passing.drop (hp : Passing s₀ k inner frame new s) (hv : s.Valid)
    {subscription : Subscription EmitterKey} (hheld : subscription ∈ s.held) :
    Passing s₀ k inner frame (new ++ [.dropped subscription.subscriberId])
      (s.drop subscription) := by
  refine hp.elsewhere hp.frames hp.others rfl (by simp [Elsewhere]) (fun i _ => ?_) fun i => ?_
  · exact congrFun SubscriberSet.active_unsubscribe i
  · have hids : i ∈ ((s.drop subscription).set.present k).ids ↔ _ := SubscriberSet.ids_unsubscribe
    rw [hids, hp.present]
    simp only [List.mem_append, List.mem_singleton, Event.dropped.injEq, reduceCtorEq, or_false,
      not_or]
    constructor
    · rintro ⟨⟨hin, hout⟩, hne⟩
      refine ⟨hin, hout, fun hi => hne ⟨?_, hi⟩⟩
      -- It was inserted under the emitter that its subscription names.
      exact hv.emitter k _ i (by rw [hp.log]; exact List.mem_append_right _ hin)
        (hi ▸ hv.held _ hheld)
    · rintro ⟨hin, hout, hne⟩
      exact ⟨⟨hin, hout⟩, fun h => hne h.2⟩

/-- The pass is at the bottom of its own frames, so the innermost frame is its own or one
of another emitter. -/
theorem Passing.top (hp : Passing s₀ k inner frame new s)
    {f : Frame EmitterKey Callback} {frames : List (Frame EmitterKey Callback)}
    (hframes : s.frames = f :: frames) :
    (inner = [] ∧ f = frame ∧ frames = s₀.frames) ∨
      ∃ inner', inner = f :: inner' ∧ frames = inner' ++ frame :: s₀.frames ∧ f.emitter ≠ k := by
  have hsplit := hp.frames.symm.trans hframes
  cases inner with
  | nil =>
    obtain ⟨rfl, rfl⟩ := List.cons.inj hsplit
    exact Or.inl ⟨rfl, rfl, rfl⟩
  | cons g inner =>
    obtain ⟨rfl, rfl⟩ := List.cons.inj hsplit
    exact Or.inr ⟨inner, rfl, rfl, hp.others _ (by simp)⟩

theorem Passing.innerLoop (hp : Passing s₀ k inner frame new s) {t : SetState EmitterKey Callback}
    {f : Frame EmitterKey Callback} (hf : f.emitter ≠ k)
    (hinner : inner = f :: inner') (hlog : t.log = s.log ++ ev)
    (hev : ∀ e ∈ ev, Elsewhere k e ∧ Quiet e) (hset : t.set = s.set)
    (ht : Continues f (inner' ++ frame :: s₀.frames) t) :
    ∃ inner', Passing s₀ k inner' frame (new ++ ev) t := by
  obtain ⟨f', hframes, hemitter, -⟩ := ht
  refine ⟨f' :: inner', hp.aside hframes ?_ hlog hev (fun i _ => by rw [hset]) (by rw [hset])⟩
  have hothers := hp.others
  rw [hinner] at hothers
  exact List.forall_mem_cons.mpr ⟨hemitter ▸ hf, (List.forall_mem_cons.mp hothers).2⟩

theorem Passing.notMem_turns (hp : Passing s₀ k inner frame new s) (hv₀ : s₀.Valid)
    {subscriber : ℕ × Callback} {rest : Subscribers Callback}
    (hrest : frame.rest = subscriber :: rest) : subscriber.1 ∉ turnsOf k new := by
  have hsorted := hv₀.sorted k
  rw [hp.turns, hrest] at hsorted
  intro hmem
  exact lt_irrefl _ ((List.pairwise_append.mp hsorted).2.2 _ hmem subscriber.1 (by simp))

/-- The loop of the pass has gone on by one turn. -/
theorem Passing.advance (hp : Passing s₀ k [] frame new s) (hv₀ : s₀.Valid) (hv : s.Valid)
    {subscriber : ℕ × Callback} {rest : Subscribers Callback}
    (hrest : frame.rest = subscriber :: rest) (tail : List (Event EmitterKey))
    {t : SetState EmitterKey Callback} {frame' : Frame EmitterKey Callback}
    (hframes : t.frames = frame' :: s₀.frames) (hemitter : frame'.emitter = frame.emitter)
    (hlog : t.log = s.log ++ .turn k subscriber.1 :: tail) (hset : t.set = s.set)
    (htail : ∀ e ∈ tail, e = .called k subscriber.1)
    (hcalls : callsOf k tail =
      if s.set.active subscriber.1 && !s.set.dropped subscriber.1 then [subscriber.1] else [])
    (hrest' : frame'.rest = rest)
    (hcurrent : ∀ c ∈ frame'.current, c.1 = subscriber.1 ∧ s.set.active subscriber.1 = true)
    (hkept : ∀ i, i ∈ frame'.kept.ids ↔
      i ∈ frame.kept.ids ∨ (i = subscriber.1 ∧ s.set.active subscriber.1 = false)) :
    Passing s₀ k [] frame' (new ++ .turn k subscriber.1 :: tail) t := by
  -- a subscriber has one turn in a pass, and this one has not had it yet
  have hnot := hp.notMem_turns hv₀ hrest
  have hstart : subscriber.1 ∈ (s₀.set.present k).ids := by simp [hp.turns, hrest]
  have hactive : s.set.active subscriber.1 = s₀.set.active subscriber.1 := hp.active _ hstart
  have hunreturned : ∀ keep, .returned k subscriber.1 keep ∉ new :=
    fun keep h => hnot (hp.returned _ keep h)
  have hquiet : ∀ e ∈ Event.turn k subscriber.1 :: tail, Quiet e := by
    refine List.forall_mem_cons.mpr ⟨trivial, fun e he => ?_⟩
    rw [htail e he]
    exact trivial
  -- no callback has returned in this turn
  have hreturned : ∀ i keep, .returned k i keep ∉ Event.turn k subscriber.1 :: tail := by
    intro i keep h
    rcases List.mem_cons.mp h with h | h
    · cases h
    · cases htail _ h
  -- the pass is to call the subscriber if the loop sees it active and not dropped
  have htoCall : s₀.toCall k (new ++ .turn k subscriber.1 :: tail) subscriber.1 =
      (s.set.active subscriber.1 && !s.set.dropped subscriber.1) := by
    rw [toCall, firstBefore_of_notMem fun h => hnot (mem_turnsOf.mpr h), hactive]
    congr 1
    rw [Bool.eq_iff_iff, decide_eq_true_eq, ← hp.log, ← hv.dropped]
    simp
  exact {
    frames := hframes
    emitter := hemitter.trans hp.emitter
    others := by simp
    log := by rw [hlog, hp.log, List.append_assoc]
    active := fun i hi => by rw [hset, hp.active i hi]
    turns := by
      rw [hp.turns, turnsOf_turn htail, hrest, hrest']
      simp [Subscribers.ids]
    calls := by
      rw [callsOf_turn, hcalls, turnsOf_turn htail, List.filter_append,
        List.filter_congr fun i hi => toCall_append hi, ← hp.calls, List.filter_singleton, htoCall]
      cases hcall : s.set.active subscriber.1 && !s.set.dropped subscriber.1 <;> rfl
    present := by
      intro i
      rw [hset, inserted_mem_append hquiet, dropped_mem_append hquiet]
      exact hp.present i
    current := by
      intro c hc
      obtain ⟨hid, hc⟩ := hcurrent c hc
      rw [turnsOf_turn htail, hid]
      refine ⟨by simp, hactive ▸ hc, fun keep h => ?_⟩
      rcases List.mem_append.mp h with h | h
      · exact hunreturned keep h
      · exact hreturned _ _ h
    returned := by
      intro i keep h
      rw [turnsOf_turn htail]
      rcases List.mem_append.mp h with h | h
      · exact List.mem_append_left _ (hp.returned i keep h)
      · exact absurd h (hreturned _ _)
    kept := by
      intro i
      rw [hkept, hp.kept, turnsOf_turn htail, returnedTrue_append (hreturned i true),
        List.mem_append, List.mem_singleton, hactive]
      constructor
      · rintro (⟨hmem, h⟩ | ⟨rfl, h⟩)
        · exact ⟨Or.inl hmem, h⟩
        · exact ⟨Or.inr rfl, Or.inl h⟩
      · rintro ⟨hmem | rfl, h⟩
        · exact Or.inl ⟨hmem, h⟩
        · -- Its callback was not called yet.
          exact Or.inr ⟨rfl, h.resolve_right fun h => hunreturned true h.1⟩ }

theorem Passing.visit (hp : Passing s₀ k [] frame new s) (hv₀ : s₀.Valid) (hv : s.Valid)
    {subscriber : ℕ × Callback} {rest : Subscribers Callback} (hcurrent : frame.current = none)
    (hrest : frame.rest = subscriber :: rest) :
    ∃ frame' new', Passing s₀ k [] frame' new' (s.visit frame s₀.frames subscriber rest) := by
  have hemitter := hp.emitter
  rw [SetState.visit]
  split
  · rename_i hturn
    have hactive := SubscriberSet.turn_eq_keep.mp hturn
    refine ⟨_, _, hp.advance hv₀ hv hrest [] rfl rfl (by rw [hemitter]) rfl (by simp)
      (by simp [hactive, callsOf]) rfl (by simp [hcurrent]) fun i => ?_⟩
    simp [Subscribers.ids, hactive]
  · rename_i hturn
    obtain ⟨hactive, hdropped⟩ := SubscriberSet.turn_eq_remove.mp hturn
    refine ⟨_, _, hp.advance hv₀ hv hrest [] rfl rfl (by rw [hemitter]) rfl (by simp)
      (by simp [hdropped, callsOf]) rfl (by simp [hcurrent]) fun i => ?_⟩
    simp [hactive]
  · rename_i hturn
    obtain ⟨hactive, hdropped⟩ := SubscriberSet.turn_eq_call.mp hturn
    refine ⟨_, _, hp.advance hv₀ hv hrest [.called k subscriber.1] rfl rfl
      (by rw [hemitter]) rfl (by simp) (by simp [hactive, hdropped, callsOf]) rfl
      (by simp [hactive]) fun i => ?_⟩
    simp [hactive]

/-- The callback of the subscriber whose turn it is returns. -/
theorem Passing.finish (hp : Passing s₀ k [] frame new s) (hv : s.Valid) {id : ℕ}
    {old callback : Callback} {keep : Bool} (hcurrent : frame.current = some (id, old)) :
    ∃ frame', Passing s₀ k [] frame' (new ++ [.returned k id keep])
      (s.finish frame s₀.frames id keep callback) := by
  obtain ⟨hmem, hactive, hnot⟩ := hp.current _ hcurrent
  -- a return is no turn
  have hturns : turnsOf k (new ++ [.returned k id keep]) = turnsOf k new := by
    rw [turnsOf_append]
    exact List.append_nil _
  have hdropped : .dropped id ∈ s₀.log ++ new ↔ s.set.dropped id = true := by
    rw [hv.dropped, hp.log]
  refine ⟨_, {
    frames := rfl
    emitter := hp.emitter
    others := by simp
    log := ?_
    active := hp.active
    turns := by rw [hturns, hp.turns]
    calls := ?_
    present := ?_
    current := by simp
    returned := ?_
    kept := ?_ }⟩
  · show s.log ++ [.returned frame.emitter id keep] = _
    rw [hp.emitter, hp.log, List.append_assoc]
  · rw [callsOf_append, hturns, hp.calls]
    refine (List.append_nil _).trans (List.filter_congr fun i hi => (toCall_append hi).symm)
  · intro i
    rw [inserted_mem_append (by simp [Quiet]), dropped_mem_append (by simp [Quiet])]
    exact hp.present i
  · intro i keep' h
    rw [hturns]
    rcases List.mem_append.mp h with h | h
    · exact hp.returned i keep' h
    · obtain ⟨-, rfl, -⟩ := Event.returned.inj (List.mem_singleton.mp h)
      exact hmem
  · intro i
    rw [hturns]
    by_cases hi : i = id
    · subst hi
      have hreturned : s₀.ReturnedTrue k (new ++ [.returned k i keep]) i ↔
          (keep && !s.set.dropped i) = true := by
        rw [ReturnedTrue]
        cases keep with
        | false => simp [hnot true]
        | true =>
          rw [firstBefore_of_notMem (hnot true), hdropped]
          simp
      -- the subscriber was active, so it was not kept before its callback returned
      have hold : i ∉ frame.kept.ids := by
        rw [hp.kept]
        rintro ⟨-, h | h⟩
        · rw [hactive] at h
          cases h
        · exact hnot true h.1
      rw [hreturned]
      by_cases hkeep : (keep && !s.set.dropped i) = true
      · simp [hkeep, hmem, Subscribers.ids]
      · simp only [hkeep, if_false, Bool.false_eq_true]
        simp [hold, hactive]
    · have hreturned : s₀.ReturnedTrue k (new ++ [.returned k id keep]) i ↔
          s₀.ReturnedTrue k new i := returnedTrue_append (by simp [hi])
      rw [hreturned, ← hp.kept]
      split
      · simp [Subscribers.ids, hi]
      · rfl

/-- What a pass over the subscribers of `k` has done when it is over. -/
structure PassOver (s₀ : SetState EmitterKey Callback) (k : EmitterKey)
    (new : List (Event EmitterKey)) (s : SetState EmitterKey Callback) : Prop where
  frames : s.frames = s₀.frames
  log : s.log = s₀.log ++ new
  /-- The loop came to every subscriber once, in their order. -/
  turns : turnsOf k new = (s₀.set.present k).ids
  /-- It called those that had been active and were not dropped before their turn. -/
  calls : callsOf k new = (s₀.set.present k).ids.filter (s₀.toCall k new)
  sorted : (s.set.present k).ids.Pairwise (· < ·)
  /-- What is in the set was kept for a reason, or inserted during the pass. -/
  only : ∀ i ∈ (s.set.present k).ids,
    (i ∈ (s₀.set.present k).ids ∧ (s₀.set.active i = false ∨ s₀.ReturnedTrue k new i)) ∨
      (.inserted k i ∈ new ∧ .dropped i ∉ new)
  /-- Nothing else was lost than what was dropped. -/
  all : ∀ i, .dropped i ∉ s.log →
    (i ∈ (s₀.set.present k).ids ∧ (s₀.set.active i = false ∨ .returned k i true ∈ new)) ∨
      .inserted k i ∈ new → i ∈ (s.set.present k).ids

/-- The loop of the pass ends. -/
theorem Passing.endRetain (hp : Passing s₀ k [] frame new s) (hv : s.Valid)
    (hrest : frame.rest = []) : PassOver s₀ k new (s.endRetain frame s₀.frames) := by
  have hturns : turnsOf k new = (s₀.set.present k).ids := by
    rw [hp.turns, hrest]
    simp [Subscribers.ids]
  have hpresent : (s.endRetain frame s₀.frames).set.present k =
      extendEntries frame.kept (s.set.present k) := by
    have hrestore : (s.endRetain frame s₀.frames).set.present k = _ :=
      SubscriberSet.present_restore
    rw [hrestore, hp.emitter, if_pos rfl]
  have hids : ∀ i, i ∈ ((s.endRetain frame s₀.frames).set.present k).ids ↔
      (i ∈ (s₀.set.present k).ids ∧ (s₀.set.active i = false ∨ s₀.ReturnedTrue k new i)) ∨
        (.inserted k i ∈ new ∧ .dropped i ∉ new) := by
    intro i
    rw [hpresent, Subscribers.ids, mem_keys_extendEntries]
    exact or_congr (hturns ▸ hp.kept i) (hp.present i)
  have hkept : frame.kept.ids.Pairwise (· < ·) :=
    (List.pairwise_append.mp (hv.frames frame (by simp [hp.frames]))).1
  exact {
    frames := rfl
    log := hp.log
    turns := hturns
    calls := by rw [hp.calls, hturns]
    sorted := by
      rw [hpresent]
      exact List.pairwise_map.mpr (sorted_extendEntries (List.pairwise_map.mp hkept))
    only := fun i hi => (hids i).mp hi
    all := by
      intro i hdropped hi
      have hdropped : .dropped i ∉ s₀.log ++ new := hp.log ▸ hdropped
      have hnew : .dropped i ∉ new := fun h => hdropped (List.mem_append_right _ h)
      refine (hids i).mpr ?_
      rcases hi with ⟨hstart, hinactive | hreturned⟩ | hinserted
      · exact Or.inl ⟨hstart, Or.inl hinactive⟩
      · refine Or.inl ⟨hstart, Or.inr ⟨hreturned, fun h => hdropped ?_⟩⟩
        rcases List.mem_append.mp h with h | h
        · exact List.mem_append_left _ h
        · exact List.mem_append_right _ (List.takeWhile_subset _ h)
      · exact Or.inr ⟨hinserted, hnew⟩ }

/-- A step of the pass, which goes on or is over. -/
theorem Passing.step (hp : Passing s₀ k inner frame new s) (hv₀ : s₀.Valid) (hv : s.Valid)
    (hop : s₀.PassOp k op) (h : s.Stepped op s') :
    (∃ inner frame new, Passing s₀ k inner frame new s') ∨ ∃ new, PassOver s₀ k new s' := by
  cases h with
  | insert hcalls => exact Or.inl ⟨_, _, _, hp.insert hv₀ hv _ _⟩
  | @activate id hcalls hinert =>
    refine Or.inl ⟨_, _, _, hp.aside hp.frames hp.others (List.append_nil _).symm
      (by simp) (fun i hi => ?_) rfl⟩
    -- a subscriber of the pass was not inert when it began
    have hne : i ≠ id := by
      rintro rfl
      exact hop hi
    exact Function.update_of_ne hne _ _
  | drop hcalls hheld => exact Or.inl ⟨_, _, _, hp.drop hv hheld⟩
  | detach hcalls hheld =>
    exact Or.inl ⟨_, _, _, hp.aside hp.frames hp.others (List.append_nil _).symm
      (by simp) (fun i hi => rfl) rfl⟩
  | @remove emitter hcalls =>
    have hevents : ∀ e ∈ (s.set.remove emitter).2.ids.map (Event.removed emitter),
        Elsewhere k e ∧ Quiet e := by
      intro e he
      obtain ⟨i, -, rfl⟩ := List.mem_map.mp he
      exact ⟨trivial, trivial⟩
    refine Or.inl ⟨_, _, _, hp.aside hp.frames hp.others rfl hevents (fun i hi => rfl) ?_⟩
    have hpresent : (s.remove emitter).set.present k = _ := SubscriberSet.present_remove
    -- the emitter that is removed is not the one of the pass
    rw [hpresent, if_neg (Ne.symm hop)]
  | @next iterator subscribers hcalls hget =>
    obtain ⟨ev, rest, hnext, -, hev⟩ := next_spec s iterator subscribers
    rw [hnext]
    refine Or.inl ⟨_, _, _, hp.aside hp.frames hp.others rfl (fun e he => ?_)
      (fun i hi => rfl) rfl⟩
    obtain ⟨subscriber, -, rfl⟩ := hev e he
    exact ⟨trivial, trivial⟩
  | @retain emitter hcalls =>
    rw [SetState.retain]
    split
    case h_1 set subscribers htake =>
      obtain ⟨rfl, rfl⟩ := SubscriberSet.take_eq_some htake
      refine Or.inl ⟨⟨emitter, [], none, s.set.present emitter⟩ :: inner, frame, _, hp.aside ?_
        (List.forall_mem_cons.mpr ⟨hop, hp.others⟩) (List.append_nil _).symm (by simp)
        (fun i hi => rfl) ?_⟩
      · rw [hp.frames]
        rfl
      · rw [SubscriberSet.present_setSubscribers, if_neg (Ne.symm hop)]
    case h_2 => exact Or.inl ⟨_, _, _, hp⟩
  | @visit f frames subscriber rest hframes hcurrent hrest =>
    rcases hp.top hframes with ⟨rfl, rfl, rfl⟩ | ⟨inner', hinner, rfl, hf⟩
    · obtain ⟨frame', new', h⟩ := hp.visit hv₀ hv hcurrent hrest
      exact Or.inl ⟨_, _, _, h⟩
    · -- It is the loop of a frame above the pass.
      obtain ⟨ev, hlog, hev⟩ := visit_log s f (inner' ++ frame :: s₀.frames) subscriber rest
      have hevents : ∀ e ∈ Event.turn f.emitter subscriber.1 :: ev, Elsewhere k e ∧ Quiet e := by
        refine List.forall_mem_cons.mpr ⟨⟨hf, trivial⟩, fun e he => ?_⟩
        rw [(hev e he).1]
        exact ⟨hf, trivial⟩
      obtain ⟨inner, h⟩ := hp.innerLoop hf hinner hlog hevents visit_set
        (visit_continues hrest hcurrent)
      exact Or.inl ⟨_, _, _, h⟩
  | @endRetain f frames hframes hcurrent hrest =>
    rcases hp.top hframes with ⟨rfl, rfl, rfl⟩ | ⟨inner', hinner, rfl, hf⟩
    · exact Or.inr ⟨_, hp.endRetain hv hrest⟩
    · have hothers := hp.others
      rw [hinner] at hothers
      refine Or.inl ⟨inner', frame, _, hp.aside rfl
        (List.forall_mem_cons.mp hothers).2 (List.append_nil _).symm (by simp)
        (fun i hi => rfl) ?_⟩
      have hpresent : (s.endRetain f (inner' ++ frame :: s₀.frames)).set.present k = _ :=
        SubscriberSet.present_restore
      rw [hpresent, if_neg (Ne.symm hf)]
  | @finish f frames id old keep callback hframes hcurrent =>
    rcases hp.top hframes with ⟨rfl, rfl, rfl⟩ | ⟨inner', hinner, rfl, hf⟩
    · obtain ⟨frame', h⟩ := hp.finish hv hcurrent
      exact Or.inl ⟨_, _, _, h⟩
    · have hevents : ∀ e ∈ [Event.returned f.emitter id keep], Elsewhere k e ∧ Quiet e := by
        intro e he
        rw [List.mem_singleton.mp he]
        exact ⟨hf, trivial⟩
      obtain ⟨inner, h⟩ := hp.innerLoop
        (t := s.finish f (inner' ++ frame :: s₀.frames) id keep callback) hf hinner rfl hevents rfl
        (finish_continues hcurrent)
      exact Or.inl ⟨_, _, _, h⟩

/-- The beginning of a pass. -/
theorem passing_retain (hv₀ : s₀.Valid) :
    (∃ frame, Passing s₀ k [] frame [] (s₀.retain k)) ∨ PassOver s₀ k [] (s₀.retain k) := by
  rw [SetState.retain]
  split
  case h_1 set subscribers htake =>
    obtain ⟨rfl, rfl⟩ := SubscriberSet.take_eq_some htake
    refine Or.inl ⟨⟨k, [], none, s₀.set.present k⟩, ?_⟩
    exact {
      frames := rfl
      emitter := rfl
      others := by simp
      log := (List.append_nil _).symm
      active := fun i hi => rfl
      turns := rfl
      calls := rfl
      present := by
        intro i
        rw [SubscriberSet.present_setSubscribers]
        simp
      current := by simp
      returned := by simp
      kept := by simp [turnsOf] }
  case h_2 htake =>
    -- Nothing is present.
    have hnil := SubscriberSet.present_of_take_eq_none htake
    exact Or.inr {
      frames := rfl
      log := (List.append_nil _).symm
      turns := by rw [hnil]; rfl
      calls := by rw [hnil]; rfl
      sorted := hv₀.sorted k
      only := by simp [hnil]
      all := by simp [hnil] }

theorem DuringPass.valid (hv₀ : s₀.Valid) (h : DuringPass s₀ k s) : s.Valid := by
  induction h with
  | retain hretain => exact hv₀.step (step_cases hretain)
  | step _ _ _ hstep ih => exact ih.step (step_cases hstep)

theorem DuringPass.passing (hv₀ : s₀.Valid) (h : DuringPass s₀ k s) :
    (∃ inner frame new, Passing s₀ k inner frame new s) ∨ ∃ new, PassOver s₀ k new s := by
  induction h with
  | retain hretain =>
    obtain ⟨-, rfl⟩ := call_eq_some hretain
    rcases passing_retain hv₀ with ⟨frame, hp⟩ | hover
    · exact Or.inl ⟨_, _, _, hp⟩
    · exact Or.inr ⟨_, hover⟩
  | step hs hlonger hop hstep ih =>
    rcases ih with ⟨inner, frame, new, hp⟩ | ⟨new, hover⟩
    · exact hp.step hv₀ (hs.valid hv₀) hop (step_cases hstep)
    · rw [hover.frames] at hlonger
      exact absurd hlonger (lt_irrefl _)

end SetState

/-- **A pass calls exactly the right subscribers.**  When a pass over the subscribers of
`k` is over, its loop came to each of them once, in the order of the ids, and called
those that were active and had not been dropped before.  The set then has the inactive
ones, those whose callback returned `true` and that were not dropped before that, and
those inserted during the pass and not dropped, and it has all of these that were not
dropped at all. -/
theorem pass_calls_exactly {EmitterKey Callback : Type} [DecidableEq EmitterKey]
    {allowed : SetState EmitterKey Callback → Op EmitterKey Callback → Prop}
    (s₀ s : SetState EmitterKey Callback) (k : EmitterKey)
    (hrun : SetState.Reachable allowed s₀) (hpass : SetState.DuringPass s₀ k s)
    (hover : s.frames.length = s₀.frames.length) :
    ∃ new, SetState.PassOver s₀ k new s := by
  rcases hpass.passing hrun.valid with ⟨inner, frame, new, hp⟩ | hpassed
  · -- The frame of the pass is still there.
    rw [hp.frames, List.length_append, List.length_cons] at hover
    omega
  · exact hpassed

theorem SetState.DuringPass.run {EmitterKey Callback : Type} [DecidableEq EmitterKey]
    {s₀ s' : SetState EmitterKey Callback} {k : EmitterKey} :
    ∀ {s : SetState EmitterKey Callback} {ops : List (Op EmitterKey Callback)},
      SetState.DuringPass s₀ k s →
      s.run (fun s op => s₀.frames.length < s.frames.length ∧ s₀.PassOp k op) ops = some s' →
      SetState.DuringPass s₀ k s' := by
  intro s ops
  induction ops generalizing s with
  | nil =>
    intro hs hrun
    exact Option.some.inj hrun ▸ hs
  | cons op ops ih =>
    intro hs hrun
    rw [SetState.run] at hrun
    split at hrun
    · rename_i hop
      split at hrun
      · exact ih (.step hs hop.1 hop.2 ‹_›) hrun
      · cases hrun
    · cases hrun

/-- A set with a subscriber that was activated and one that was not. -/
def activeAndInactive : List (Op ℕ Unit) :=
  [.insert 0 (), .insert 0 (), .activate 0]

/-- A pass over the two, in which the callback of the first one returns `true`. -/
theorem pass_activeAndInactive :
    ∃ s₀ s : SetState ℕ Unit, SetState.Reachable (fun _ _ => True) s₀ ∧
      SetState.DuringPass s₀ 0 s ∧ s.frames.length = s₀.frames.length ∧
      (s₀.set.present 0).ids = [0, 1] ∧ (s.set.present 0).ids = [0, 1] ∧
      s.log = s₀.log ++ [.turn 0 0, .called 0 0, .returned 0 0 true, .turn 0 1] := by
  have hrun : ((SetState.new : SetState ℕ Unit).run (fun _ _ => True) activeAndInactive).map
      (fun s₀ => ((s₀.set.present 0).ids, decide s₀.Calls, ((s₀.retain 0).run (fun s op =>
        s₀.frames.length < s.frames.length ∧ s₀.PassOp 0 op) [.turn, .finish true (), .turn,
          .turn]).map fun s => (decide (s.frames.length = s₀.frames.length),
            (s.set.present 0).ids, decide (s.log =
              s₀.log ++ [.turn 0 0, .called 0 0, .returned 0 0 true, .turn 0 1])))) =
      some ([0, 1], true, some (true, [0, 1], true)) := by
    decide
  obtain ⟨s₀, hs₀, hobserved⟩ := Option.map_eq_some_iff.mp hrun
  simp only [Prod.mk.injEq] at hobserved
  obtain ⟨hids, hcalls, hpass⟩ := hobserved
  obtain ⟨s, hs, hobserved⟩ := Option.map_eq_some_iff.mp hpass
  simp only [Prod.mk.injEq, decide_eq_true_eq] at hobserved
  obtain ⟨hover, hids', hlog⟩ := hobserved
  have hretain : SetState.DuringPass s₀ 0 (s₀.retain 0) :=
    .retain (if_pos (of_decide_eq_true hcalls))
  exact ⟨s₀, s, .run .new hs₀, hretain.run hs, hover, hids, hids', hlog⟩

theorem pass_calls_exactly_two :
    ∃ s₀ s : SetState ℕ Unit, (s₀.set.present 0).ids = [0, 1] ∧
      ∃ new, SetState.PassOver s₀ 0 new s := by
  obtain ⟨s₀, s, hrun, hpass, hover, hids, -⟩ := pass_activeAndInactive
  exact ⟨s₀, s, hids, pass_calls_exactly s₀ s 0 hrun hpass hover⟩

/-- The subscriber that was not activated stays in the set, though its callback returned
nothing and it was not inserted during the pass. -/
theorem inactive_kept :
    ∃ s₀ s : SetState ℕ Unit, SetState.Reachable (fun _ _ => True) s₀ ∧
      SetState.DuringPass s₀ 0 s ∧ s.frames.length = s₀.frames.length ∧
      1 ∈ (s.set.present 0).ids ∧ ∃ new, s.log = s₀.log ++ new ∧
        .returned 0 1 true ∉ new ∧ .inserted 0 1 ∉ new := by
  obtain ⟨s₀, s, hrun, hpass, hover, -, hids, hlog⟩ := pass_activeAndInactive
  exact ⟨s₀, s, hrun, hpass, hover, by simp [hids], _, hlog, by simp, by simp⟩

end Zui.Gpui
