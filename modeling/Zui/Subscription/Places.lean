/-
Where a subscriber is.

A subscriber is in the set, or moved out to a call of `retain`.  Every step leaves the
subscribers where they are, moves them with their emitter or takes them away
(`occurs_insert` and the lemmas behind it), so what is subscribed was inserted, under the
same emitter (`Valid`).
-/
import Zui.Subscription.Machine

namespace Zui.Gpui

namespace SetState

variable {EmitterKey Callback : Type} [DecidableEq EmitterKey]
  {s s' : SetState EmitterKey Callback} {op : Op EmitterKey Callback}

/-- The subscribers of a call of `retain`, in their order. -/
def Frame.ids (frame : Frame EmitterKey Callback) : List ℕ :=
  frame.kept.ids ++ (Subscribers.ids frame.current.toList ++ frame.rest.ids)

/-- The subscriber is subscribed to the emitter: it is in the set, or moved out. -/
def Occurs (s : SetState EmitterKey Callback) (k : EmitterKey) (i : ℕ) : Prop :=
  i ∈ (s.set.present k).ids ∨ ∃ frame ∈ s.frames, frame.emitter = k ∧ i ∈ Frame.ids frame

variable {k : EmitterKey} {i : ℕ} {frame : Frame EmitterKey Callback}
  {frames : List (Frame EmitterKey Callback)}

/-- The loop of the frame goes on, with some of its subscribers in their order. -/
def Continues (frame : Frame EmitterKey Callback) (frames : List (Frame EmitterKey Callback))
    (t : SetState EmitterKey Callback) : Prop :=
  ∃ frame', t.frames = frame' :: frames ∧ frame'.emitter = frame.emitter ∧
    (Frame.ids frame').Sublist (Frame.ids frame)

omit [DecidableEq EmitterKey] in
theorem visit_set {subscriber : ℕ × Callback} {rest : Subscribers Callback} :
    (s.visit frame frames subscriber rest).set = s.set := by
  rw [visit]
  split <;> rfl

omit [DecidableEq EmitterKey] in
theorem visit_continues {subscriber : ℕ × Callback} {rest : Subscribers Callback}
    (hrest : frame.rest = subscriber :: rest) (hcurrent : frame.current = none) :
    Continues frame frames (s.visit frame frames subscriber rest) := by
  rw [visit]
  split
  · refine ⟨_, rfl, rfl, ?_⟩
    simp [Frame.ids, hcurrent, hrest, Subscribers.ids]
  · -- The subscriber is left out.
    refine ⟨_, rfl, rfl, ?_⟩
    simp only [Frame.ids, hcurrent, hrest]
    exact List.Sublist.append_left (List.sublist_cons_self _ _) _
  · refine ⟨_, rfl, rfl, ?_⟩
    simp [Frame.ids, hcurrent, hrest, Subscribers.ids]

omit [DecidableEq EmitterKey] in
theorem finish_continues {id : ℕ} {old callback : Callback} {keep : Bool}
    (hcurrent : frame.current = some (id, old)) :
    Continues frame frames (s.finish frame frames id keep callback) := by
  refine ⟨_, rfl, rfl, ?_⟩
  simp only [Frame.ids, hcurrent]
  by_cases hkeep : (keep && !s.set.dropped id) = true
  · rw [if_pos hkeep]
    simp [Subscribers.ids]
  · rw [if_neg hkeep]
    exact List.Sublist.append_left (List.sublist_cons_self _ _) _

omit [DecidableEq EmitterKey] in
theorem occurs_of_continues {t : SetState EmitterKey Callback} (hset : t.set = s.set)
    (hframes : s.frames = frame :: frames) (ht : Continues frame frames t) (h : t.Occurs k i) :
    s.Occurs k i := by
  obtain ⟨frame', ht, hemitter, hids⟩ := ht
  rcases h with h | ⟨f, hf, hk, hi⟩
  · exact Or.inl (hset ▸ h)
  · rw [ht, List.mem_cons] at hf
    rcases hf with rfl | hf
    · exact Or.inr ⟨frame, by simp [hframes], hemitter ▸ hk, hids.subset hi⟩
    · exact Or.inr ⟨f, by simp [hframes, hf], hk, hi⟩

theorem occurs_insert {j : EmitterKey} {c : Callback} (h : (s.insert j c).Occurs k i) :
    (k = j ∧ i = s.set.nextSubscriberId) ∨ s.Occurs k i := by
  rcases h with h | h
  · exact (SubscriberSet.ids_insert.mp h).imp_right Or.inl
  · exact Or.inr (Or.inr h)

theorem occurs_drop {subscription : Subscription EmitterKey}
    (h : (s.drop subscription).Occurs k i) : s.Occurs k i :=
  h.imp_left fun h => (SubscriberSet.ids_unsubscribe.mp h).1

theorem occurs_remove {j : EmitterKey} (h : (s.remove j).Occurs k i) : s.Occurs k i := by
  refine h.imp_left fun h => ?_
  have hpresent : (s.remove j).set.present k = if k = j then [] else s.set.present k :=
    SubscriberSet.present_remove
  rw [hpresent] at h
  split at h
  · simp at h
  · exact h

theorem occurs_retain {j : EmitterKey} (h : (s.retain j).Occurs k i) : s.Occurs k i := by
  rw [retain] at h
  split at h
  case h_1 set subscribers htake =>
    obtain ⟨rfl, rfl⟩ := SubscriberSet.take_eq_some htake
    rcases h with h | ⟨f, hf, hk, hi⟩
    · -- The emitter has nothing present, the others have what they had.
      rw [SubscriberSet.present_setSubscribers] at h
      split at h
      · simp at h
      · exact Or.inl h
    · rcases List.mem_cons.mp hf with rfl | hf
      · obtain rfl : j = k := hk
        exact Or.inl (by simpa [Frame.ids] using hi)
      · exact Or.inr ⟨f, hf, hk, hi⟩
  case h_2 => exact h

theorem occurs_endRetain (hframes : s.frames = frame :: frames)
    (h : (s.endRetain frame frames).Occurs k i) :
    s.Occurs k i := by
  rcases h with h | ⟨f, hf, hk, hi⟩
  · have hpresent : (s.endRetain frame frames).set.present k =
        if k = frame.emitter then extendEntries frame.kept (s.set.present frame.emitter)
        else s.set.present k := SubscriberSet.present_restore
    rw [hpresent] at h
    split at h
    · rename_i hk
      rcases mem_keys_extendEntries.mp h with h | h
      · exact Or.inr ⟨frame, by simp [hframes], hk.symm, List.mem_append_left _ h⟩
      · exact Or.inl (hk ▸ h)
    · exact Or.inl h
  · exact Or.inr ⟨f, by rw [hframes]; exact List.mem_cons_of_mem _ hf, hk, hi⟩

/-! ### Valid states -/

/-- What holds of the places and the log in every state. -/
structure Valid (s : SetState EmitterKey Callback) : Prop where
  occurs : ∀ k i, s.Occurs k i → .inserted k i ∈ s.log
  held : ∀ subscription ∈ s.held,
    .inserted subscription.emitterKey subscription.subscriberId ∈ s.log
  fresh : ∀ k i, .inserted k i ∈ s.log → i < s.set.nextSubscriberId
  emitter : ∀ k j i, .inserted k i ∈ s.log → .inserted j i ∈ s.log → k = j
  dropped : ∀ i, s.set.dropped i = true ↔ .dropped i ∈ s.log
  droppedInserted : ∀ i, .dropped i ∈ s.log → ∃ k, .inserted k i ∈ s.log
  sorted : ∀ k, (s.set.present k).ids.Pairwise (· < ·)
  frames : ∀ frame ∈ s.frames, (Frame.ids frame).Pairwise (· < ·)

/-- Events of another kind than those of the validity. -/
def Quiet : Event EmitterKey → Prop
  | .inserted _ _ => False
  | .dropped _ => False
  | _ => True

omit [DecidableEq EmitterKey] in
theorem inserted_mem_append {log new : List (Event EmitterKey)} (hnew : ∀ e ∈ new, Quiet e) :
    .inserted k i ∈ log ++ new ↔ .inserted k i ∈ log := by
  rw [List.mem_append]
  exact or_iff_left fun h => hnew _ h

omit [DecidableEq EmitterKey] in
theorem dropped_mem_append {log new : List (Event EmitterKey)} (hnew : ∀ e ∈ new, Quiet e) :
    .dropped i ∈ log ++ new ↔ .dropped i ∈ log := by
  rw [List.mem_append]
  exact or_iff_left fun h => hnew _ h

omit [DecidableEq EmitterKey] in
theorem valid_new : (SetState.new : SetState EmitterKey Callback).Valid where
  occurs := by
    rintro k i (h | ⟨frame, hframe, -⟩)
    · cases h
    · cases hframe
  held := by simp [SetState.new]
  fresh := by simp [SetState.new]
  emitter := by simp [SetState.new]
  dropped := by simp [SetState.new, SubscriberSet.new]
  droppedInserted := by simp [SetState.new]
  sorted := fun k => List.Pairwise.nil
  frames := by simp [SetState.new]

omit [DecidableEq EmitterKey] in
/-- A step that inserts nothing and drops nothing. -/
theorem Valid.quiet (hv : s.Valid) {t : SetState EmitterKey Callback}
    {new : List (Event EmitterKey)} (hlog : t.log = s.log ++ new) (hnew : ∀ e ∈ new, Quiet e)
    (hheld : t.held ⊆ s.held) (hnext : t.set.nextSubscriberId = s.set.nextSubscriberId)
    (hdropped : t.set.dropped = s.set.dropped) (hoccurs : ∀ k i, t.Occurs k i → s.Occurs k i)
    (hsorted : ∀ k, (t.set.present k).ids.Pairwise (· < ·))
    (hframes : ∀ frame ∈ t.frames, (Frame.ids frame).Pairwise (· < ·)) : t.Valid where
  occurs k i h := by
    rw [hlog, inserted_mem_append hnew]
    exact hv.occurs k i (hoccurs k i h)
  held subscription h := by
    rw [hlog, inserted_mem_append hnew]
    exact hv.held subscription (hheld h)
  fresh k i h := by
    rw [hlog, inserted_mem_append hnew] at h
    exact hnext ▸ hv.fresh k i h
  emitter k j i h h' := by
    rw [hlog, inserted_mem_append hnew] at h h'
    exact hv.emitter k j i h h'
  dropped i := by
    rw [hlog, dropped_mem_append hnew, hdropped]
    exact hv.dropped i
  droppedInserted i h := by
    rw [hlog, dropped_mem_append hnew] at h
    obtain ⟨k, hk⟩ := hv.droppedInserted i h
    exact ⟨k, by rw [hlog, inserted_mem_append hnew]; exact hk⟩
  sorted := hsorted
  frames := hframes

theorem ids_sorted_insertEntry {a : ℕ × Callback} {l : Subscribers Callback}
    (hs : l.ids.Pairwise (· < ·)) : (Subscribers.ids (insertEntry a l)).Pairwise (· < ·) :=
  List.pairwise_map.mpr (sorted_insertEntry (List.pairwise_map.mp hs))

theorem Valid.insert (hv : s.Valid) (j : EmitterKey) (c : Callback) : (s.insert j c).Valid where
  occurs k i h := by
    rcases occurs_insert h with ⟨rfl, rfl⟩ | h
    · exact List.mem_append_right _ (by simp)
    · exact List.mem_append_left _ (hv.occurs k i h)
  held subscription h := by
    rcases List.mem_cons.mp h with rfl | h
    · exact List.mem_append_right _ (by simp)
    · exact List.mem_append_left _ (hv.held subscription h)
  fresh k i h := by
    show i < s.set.nextSubscriberId + 1
    rcases List.mem_append.mp h with h | h
    · exact (hv.fresh k i h).trans (Nat.lt_succ_self _)
    · obtain ⟨-, rfl⟩ := Event.inserted.inj (List.mem_singleton.mp h)
      exact Nat.lt_succ_self _
  emitter k k' i h h' := by
    -- The new id was not inserted before.
    rcases List.mem_append.mp h with h | h <;> rcases List.mem_append.mp h' with h' | h'
    · exact hv.emitter k k' i h h'
    · obtain ⟨-, rfl⟩ := Event.inserted.inj (List.mem_singleton.mp h')
      exact absurd (hv.fresh k _ h) (lt_irrefl _)
    · obtain ⟨-, rfl⟩ := Event.inserted.inj (List.mem_singleton.mp h)
      exact absurd (hv.fresh k' _ h') (lt_irrefl _)
    · obtain ⟨rfl, -⟩ := Event.inserted.inj (List.mem_singleton.mp h)
      exact (Event.inserted.inj (List.mem_singleton.mp h')).1.symm
  dropped i := by
    show Function.update s.set.dropped s.set.nextSubscriberId false i = true ↔ _
    have hlog : .dropped i ∈ (s.insert j c).log ↔ .dropped i ∈ s.log := by
      simp [SetState.insert]
    rw [hlog, Function.update_apply]
    by_cases hi : i = s.set.nextSubscriberId
    · rw [if_pos hi]
      refine iff_of_false (by simp) fun h => ?_
      obtain ⟨k, hk⟩ := hv.droppedInserted i h
      exact absurd (hv.fresh k i hk) (by omega)
    · rw [if_neg hi]
      exact hv.dropped i
  droppedInserted i h := by
    rcases List.mem_append.mp h with h | h
    · obtain ⟨k, hk⟩ := hv.droppedInserted i h
      exact ⟨k, List.mem_append_left _ hk⟩
    · cases List.mem_singleton.mp h
  sorted k := by
    show (((s.set.setSubscribers j _).present k).ids).Pairwise (· < ·)
    rw [SubscriberSet.present_setSubscribers]
    split
    · exact ids_sorted_insertEntry (hv.sorted j)
    · exact hv.sorted k
  frames := hv.frames

theorem Valid.drop (hv : s.Valid) {subscription : Subscription EmitterKey}
    (hheld : subscription ∈ s.held) : (s.drop subscription).Valid where
  occurs k i h := List.mem_append_left _ (hv.occurs k i (occurs_drop h))
  held sub h := List.mem_append_left _ (hv.held sub (List.mem_of_mem_erase h))
  fresh k i h := by
    have hnext : (s.drop subscription).set.nextSubscriberId = s.set.nextSubscriberId :=
      SubscriberSet.nextSubscriberId_unsubscribe
    rw [hnext]
    exact hv.fresh k i (by simpa [SetState.drop] using h)
  emitter k j i h h' :=
    hv.emitter k j i (by simpa [SetState.drop] using h) (by simpa [SetState.drop] using h')
  dropped i := by
    have hdropped : (s.drop subscription).set.dropped i = _ := SubscriberSet.dropped_unsubscribe
    rw [hdropped, Bool.or_eq_true, hv.dropped, SetState.drop, List.mem_append]
    simp [or_comm]
  droppedInserted i h := by
    rcases List.mem_append.mp h with h | h
    · obtain ⟨k, hk⟩ := hv.droppedInserted i h
      exact ⟨k, List.mem_append_left _ hk⟩
    · obtain rfl := Event.dropped.inj (List.mem_singleton.mp h)
      exact ⟨_, List.mem_append_left _ (hv.held subscription hheld)⟩
  sorted k := by
    have hpresent : (s.drop subscription).set.present k = _ := SubscriberSet.present_unsubscribe
    rw [hpresent]
    split
    · exact (hv.sorted k).sublist (List.Sublist.map _ List.filter_sublist)
    · exact hv.sorted k
  frames := hv.frames

omit [DecidableEq EmitterKey] in
theorem Valid.continues (hv : s.Valid) {t : SetState EmitterKey Callback}
    {new : List (Event EmitterKey)} (hlog : t.log = s.log ++ new) (hnew : ∀ e ∈ new, Quiet e)
    (hheld : t.held = s.held) (hset : t.set = s.set) (hframes : s.frames = frame :: frames)
    (ht : Continues frame frames t) : t.Valid := by
  refine hv.quiet hlog hnew (by rw [hheld]; exact List.Subset.refl _) (by rw [hset]) (by rw [hset])
    (fun k i => occurs_of_continues hset hframes ht) (fun k => hset ▸ hv.sorted k) ?_
  obtain ⟨frame', ht, -, hids⟩ := ht
  intro f hf
  rw [ht, List.mem_cons] at hf
  rcases hf with rfl | hf
  · exact (hv.frames frame (by simp [hframes])).sublist hids
  · exact hv.frames f (by simp [hframes, hf])

omit [DecidableEq EmitterKey] in
theorem visit_log (s : SetState EmitterKey Callback) (frame : Frame EmitterKey Callback)
    (frames : List (Frame EmitterKey Callback)) (subscriber : ℕ × Callback)
    (rest : Subscribers Callback) :
    ∃ new, (s.visit frame frames subscriber rest).log =
      s.log ++ .turn frame.emitter subscriber.1 :: new ∧
        ∀ e ∈ new, e = .called frame.emitter subscriber.1 ∧ s.set.turn subscriber.1 = .call := by
  rw [visit]
  split
  · exact ⟨[], rfl, by simp⟩
  · exact ⟨[], rfl, by simp⟩
  · rename_i hturn
    exact ⟨[.called frame.emitter subscriber.1], rfl, by simpa using hturn⟩

omit [DecidableEq EmitterKey] in
theorem next_spec (s : SetState EmitterKey Callback) (iterator : ℕ)
    (subscribers : Subscribers Callback) :
    ∃ new rest, s.next iterator subscribers =
      { s with iterators := s.iterators.set iterator rest, log := s.log ++ new } ∧
        (∀ e ∈ rest, e ∈ subscribers) ∧
        ∀ e ∈ new, ∃ subscriber ∈ subscribers, e = .handedOut subscriber.1 := by
  have hnext : ∀ {subscriber rest}, s.set.nextCallback subscribers = some (subscriber, rest) →
      subscriber ∈ subscribers ∧ ∀ e ∈ rest, e ∈ subscribers := by
    induction subscribers with
    | nil =>
      intro subscriber rest h
      cases h
    | cons a subscribers ih =>
      intro subscriber rest h
      rw [SubscriberSet.nextCallback] at h
      split at h
      · obtain ⟨rfl, rfl⟩ := Prod.mk.inj (Option.some.inj h)
        exact ⟨by simp, fun e he => List.mem_cons_of_mem _ he⟩
      · obtain ⟨hmem, hrest⟩ := ih h
        exact ⟨List.mem_cons_of_mem _ hmem, fun e he => List.mem_cons_of_mem _ (hrest e he)⟩
  rw [next]
  split
  · rename_i subscriber rest hsome
    obtain ⟨hmem, hrest⟩ := hnext hsome
    exact ⟨[.handedOut subscriber.1], rest, rfl, hrest,
      fun e he => ⟨subscriber, hmem, List.mem_singleton.mp he⟩⟩
  · exact ⟨[], [], by simp, by simp, by simp⟩

theorem Valid.retain (hv : s.Valid) (j : EmitterKey) : (s.retain j).Valid := by
  have hoccurs : ∀ k i, (s.retain j).Occurs k i → s.Occurs k i := fun k i => occurs_retain
  rw [SetState.retain] at hoccurs ⊢
  split at hoccurs
  case h_1 set subscribers htake =>
    obtain ⟨rfl, rfl⟩ := SubscriberSet.take_eq_some htake
    refine hv.quiet (List.append_nil _).symm (by simp) (List.Subset.refl _) rfl rfl
      hoccurs (fun k => ?_) ?_
    · rw [SubscriberSet.present_setSubscribers]
      split
      · exact List.Pairwise.nil
      · exact hv.sorted k
    · rintro f hf
      rcases List.mem_cons.mp hf with rfl | hf
      · simpa [Frame.ids] using hv.sorted j
      · exact hv.frames f hf
  case h_2 => exact hv

/-- A step keeps the validity. -/
theorem Valid.step (hv : s.Valid) (h : s.Stepped op s') : s'.Valid := by
  cases h with
  | insert hcalls => exact hv.insert _ _
  | activate hcalls hinert =>
    exact hv.quiet (List.append_nil _).symm (by simp) (List.Subset.refl _) rfl rfl
      (fun k i h => h) hv.sorted hv.frames
  | drop hcalls hheld => exact hv.drop hheld
  | detach hcalls hheld =>
    exact hv.quiet (List.append_nil _).symm (by simp) List.erase_subset rfl rfl
      (fun k i h => h) hv.sorted hv.frames
  | @remove emitter hcalls =>
    have hnew : ∀ e ∈ (s.set.remove emitter).2.ids.map (Event.removed emitter), Quiet e := by
      intro e he
      obtain ⟨i, -, rfl⟩ := List.mem_map.mp he
      exact trivial
    -- what is removed is in no place any more
    refine hv.quiet rfl hnew (List.Subset.refl _) rfl rfl (fun k i => occurs_remove)
      (fun k => ?_) hv.frames
    have hpresent : (s.remove emitter).set.present k = _ := SubscriberSet.present_remove
    rw [hpresent]
    split
    · exact List.Pairwise.nil
    · exact hv.sorted k
  | @next iterator subscribers hcalls hget =>
    obtain ⟨new, rest, hnext, -, hnew⟩ := next_spec s iterator subscribers
    rw [hnext]
    refine hv.quiet rfl ?_ (List.Subset.refl _) rfl rfl (fun k i h => h) hv.sorted hv.frames
    intro e he
    obtain ⟨subscriber, -, rfl⟩ := hnew e he
    exact trivial
  | retain hcalls => exact hv.retain _
  | @visit frame frames subscriber rest hframes hcurrent hrest =>
    obtain ⟨new, hlog, hnew⟩ := visit_log s frame frames subscriber rest
    refine hv.continues hlog ?_ ?_ visit_set hframes (visit_continues hrest hcurrent)
    · intro e he
      rcases List.mem_cons.mp he with rfl | he
      · exact trivial
      · rw [(hnew e he).1]
        exact trivial
    · rw [SetState.visit]
      split <;> rfl
  | @endRetain frame frames hframes hcurrent hrest =>
    refine hv.quiet (List.append_nil _).symm (by simp) (List.Subset.refl _) rfl rfl
      (fun k i => occurs_endRetain hframes) (fun k => ?_) ?_
    · have hpresent : (s.endRetain frame frames).set.present k = _ := SubscriberSet.present_restore
      rw [hpresent]
      split
      · -- the frame keeps its subscribers in order
        have hkept : frame.kept.ids.Pairwise (· < ·) :=
          (List.pairwise_append.mp (hv.frames frame (by simp [hframes]))).1
        exact List.pairwise_map.mpr (sorted_extendEntries (List.pairwise_map.mp hkept))
      · exact hv.sorted k
    · intro f hf
      exact hv.frames f (by rw [hframes]; exact List.mem_cons_of_mem _ hf)
  | finish hframes hcurrent =>
    exact hv.continues rfl (by simp [Quiet]) rfl rfl hframes (finish_continues hcurrent)

theorem Reachable.valid {allowed : SetState EmitterKey Callback → Op EmitterKey Callback → Prop}
    (h : Reachable allowed s) : s.Valid := by
  induction h with
  | new => exact valid_new
  | step _ _ hstep ih => exact ih.step (step_cases hstep)

end SetState

end Zui.Gpui
