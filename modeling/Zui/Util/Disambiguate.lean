/-
Details for items whose descriptions collide.

`computeDisambiguationDetails` raises the detail of the items that share a description, round by
round.  A round passes over an item whose description is the one it had in the round before:
this is meant for items at their fixed point, but also an item that did not collide in the
last round stands so.  Another item can then come to the description of an item that is passed
over, and neither is raised.

Main statements:

* `round_spec` — what a round does;
* `computeDisambiguationDetails_terminates` — the loop ends;
* `computeDisambiguationDetails_disambiguates` — it does so for items whose descriptions are equal
  only at one detail or at their fixed points;
* `disambiguates_iff` — the items that end with equal descriptions are at their fixed points
  exactly if no round leaves an item with the description of one that is passed over.
-/
import Zui.Gpui.Basic
import Zui.Library.Groups
import Zui.Library.Loop

namespace Zui.Util

/-! ### The function -/

/-- The variables of the loop: a detail and a description for each item.  A detail counts
rounds, so it stays far from `usize::MAX`. -/
structure Disambiguation (n : ℕ) (D : Type) where
  details : Fin n → ℕ
  currentDescriptions : Fin n → D

section Function

variable {T D : Type} [DecidableEq D] {n : ℕ} (describe : Fin n → ℕ → D)

/-- The first `for` loop at an index. -/
def visit (details : Fin n → ℕ) (s : List (D × List (Fin n)) × (Fin n → D)) (index : Fin n) :
    List (D × List (Fin n)) × (Fin n → D) :=
  if 0 < details index then
    let newDescription := describe index (details index)
    if newDescription = s.2 index then s
    else (pushUnder newDescription index s.1, Function.update s.2 index newDescription)
  else
    (pushUnder (s.2 index) index s.1, s.2)

/-- The second `for` loop at an entry of the map. -/
def drain (s : Bool × (Fin n → ℕ)) (entry : D × List (Fin n)) : Bool × (Fin n → ℕ) :=
  if 1 < entry.2.length then
    (true, entry.2.foldl
      (fun details index => Function.update details index (details index + 1)) s.2)
  else s

/-- The body of the loop. -/
def Disambiguation.round (s : Disambiguation n D) :
    Gpui.Result (Pass (Disambiguation n D) (Fin n → ℕ)) :=
  let visited := (List.finRange n).foldl (visit describe s.details) ([], s.currentDescriptions)
  let drained := visited.1.foldl drain (false, s.details)
  if drained.1 then .ok (.next ⟨drained.2, visited.2⟩) else .ok (.done drained.2)

/-- The variables before the loop. -/
def Disambiguation.start : Disambiguation n D where
  details _ := 0
  currentDescriptions index := describe index 0

/-- `compute_disambiguation_details`. -/
def computeDisambiguationDetails (items : List T) (getDescription : T → ℕ → D) (fuel : ℕ) :
    Gpui.Result (Fin items.length → ℕ) :=
  let describe := fun index => getDescription (items.get index)
  loop .outOfFuel (Disambiguation.round describe) fuel (.start describe)

end Function

/-! ### Chains of descriptions -/

section Chains

variable {D : Type} {chain : ℕ → D}

/-- The descriptions are constant from a level on, and up to it each differs from the next. -/
def SettlesAt (chain : ℕ → D) (level : ℕ) : Prop :=
  (∀ detail, level ≤ detail → chain detail = chain level) ∧
    ∀ detail < level, chain (detail + 1) ≠ chain detail

/-- More detail no longer changes the description. -/
def AtFixedPoint (chain : ℕ → D) (detail : ℕ) : Prop :=
  ∀ more, detail ≤ more → chain more = chain detail

theorem AtFixedPoint.mono {detail more : ℕ} (h : AtFixedPoint chain detail)
    (hle : detail ≤ more) : AtFixedPoint chain more := by
  intro further hfurther
  rw [h further (by omega), h more hle]

theorem SettlesAt.lt_of_ne {level detail : ℕ} (h : SettlesAt chain level)
    (hne : chain (detail + 1) ≠ chain detail) : detail < level := by
  by_contra hge
  exact hne (by rw [h.1 _ (by omega), h.1 detail (by omega)])

theorem SettlesAt.atFixedPoint {level detail : ℕ} (h : SettlesAt chain level)
    (heq : chain (detail + 1) = chain detail) : AtFixedPoint chain detail := by
  have hge : level ≤ detail := by
    by_contra hlt
    exact h.2 detail (by omega) heq
  intro more hmore
  rw [h.1 more (by omega), h.1 detail hge]

end Chains

namespace Disambiguation

variable {D : Type} {n : ℕ} {describe : Fin n → ℕ → D}
  {s t : Disambiguation n D} {i j : Fin n}

/-! ### One round -/

/-- The description of an item at its detail. -/
def description (describe : Fin n → ℕ → D) (s : Disambiguation n D) (i : Fin n) : D :=
  describe i (s.details i)

/-- The stored description is that of the detail before or of the detail itself. -/
def Tracks (describe : Fin n → ℕ → D) (s : Disambiguation n D) : Prop :=
  ∀ i, s.currentDescriptions i = describe i (s.details i - 1) ∨
    s.currentDescriptions i = s.description describe i

theorem tracks_start : (start describe).Tracks describe := fun _ => .inl rfl

theorem Tracks.of_zero (h : s.Tracks describe) (hzero : s.details i = 0) :
    s.currentDescriptions i = s.description describe i := by
  rcases h i with h | h
  · rw [h, description, hzero]
  · exact h

/-- The round takes the item into its map. -/
def Enters (describe : Fin n → ℕ → D) (s : Disambiguation n D) (i : Fin n) : Prop :=
  s.details i = 0 ∨ s.description describe i ≠ s.currentDescriptions i

/-- The round finds another item with the same description in its map. -/
def Collides (describe : Fin n → ℕ → D) (s : Disambiguation n D) (i : Fin n) : Prop :=
  s.Enters describe i ∧
    ∃ j, s.Enters describe j ∧ j ≠ i ∧ s.description describe j = s.description describe i

variable [DecidableEq D]

instance : Decidable (s.Enters describe i) := inferInstanceAs (Decidable (_ ∨ _))

instance : Decidable (s.Collides describe i) := inferInstanceAs (Decidable (_ ∧ _))

/-- The variables behind a round. -/
def raised (describe : Fin n → ℕ → D) (s : Disambiguation n D) : Disambiguation n D where
  details i := if s.Collides describe i then s.details i + 1 else s.details i
  currentDescriptions := s.description describe

theorem tracks_raised : (s.raised describe).Tracks describe := by
  intro i
  simp only [raised, description]
  split
  · exact .inl rfl
  · exact .inr rfl

theorem visit_eq {current : Fin n → D} {m : List (D × List (Fin n))}
    (h : s.Tracks describe) (hi : current i = s.currentDescriptions i) :
    visit describe s.details (m, current) i =
      (if s.Enters describe i then pushUnder (s.description describe i) i m else m,
        Function.update current i (s.description describe i)) := by
  simp only [visit]
  rw [show describe i (s.details i) = s.description describe i from rfl]
  by_cases hzero : s.details i = 0
  · have hcurrent := hi.trans (h.of_zero hzero)
    rw [if_neg (by omega), if_pos (.inl hzero), hcurrent, ← hcurrent, Function.update_eq_self]
  · rw [if_pos (by omega)]
    by_cases hnew : s.description describe i = s.currentDescriptions i
    · -- the round passes over the item
      rw [if_pos (hnew.trans hi.symm), if_neg (by simp [Enters, hzero, hnew]), hnew, ← hi,
        Function.update_eq_self]
    · rw [if_neg (fun heq => hnew (heq.trans hi)), if_pos (.inr hnew)]

/-- The first loop over some of the items. -/
theorem foldl_visit (h : s.Tracks describe) :
    ∀ {xs : List (Fin n)} {m : List (D × List (Fin n))} {current : Fin n → D}, xs.Nodup →
      (∀ i ∈ xs, current i = s.currentDescriptions i) →
      xs.foldl (visit describe s.details) (m, current) =
        ((xs.filter (s.Enters describe ·)).foldl
            (fun m i => pushUnder (s.description describe i) i m) m,
          fun i => if i ∈ xs then s.description describe i else current i) := by
  intro xs
  induction xs with
  | nil =>
    intro m current _ _
    simp
  | cons i xs ih =>
    intro m current hnodup hcurrent
    obtain ⟨hi, hnodup⟩ := List.nodup_cons.mp hnodup
    rw [List.foldl_cons, visit_eq h (hcurrent i (by simp)), ih hnodup]
    · refine Prod.ext ?_ ?_
      · rw [List.filter_cons]
        split <;> simp_all
      · funext j
        by_cases hj : j = i
        · subst hj
          simp [hi]
        · simp [hj]
    · -- the update at `i` is not seen by the items behind it
      intro j hj
      have hne : j ≠ i := fun heq => hi (heq ▸ hj)
      rw [Function.update_of_ne hne, hcurrent j (by simp [hj])]

theorem foldl_update {xs : List (Fin n)} {details : Fin n → ℕ} :
    xs.foldl (fun details index => Function.update details index (details index + 1)) details =
      fun i => details i + xs.count i := by
  induction xs generalizing details with
  | nil => rfl
  | cons x xs ih =>
    rw [List.foldl_cons, ih]
    funext i
    by_cases hi : i = x
    · subst hi
      simp only [Function.update_self, List.count_cons_self]
      omega
    · simp [hi, List.count_cons_of_ne (Ne.symm hi)]

omit [DecidableEq D] in
theorem foldl_drain {groups : List (D × List (Fin n))} {any : Bool} {details : Fin n → ℕ} :
    groups.foldl drain (any, details) =
      (any || !(crowded groups).isEmpty, fun i => details i + (crowded groups).count i) := by
  induction groups generalizing any details with
  | nil => simp [crowded]
  | cons g groups ih =>
    rw [List.foldl_cons, drain]
    by_cases hlong : 1 < g.2.length
    · have hcrowded : crowded (g :: groups) = g.2 ++ crowded groups := by
        simp [crowded, hlong]
      have hne : g.2 ≠ [] := by
        rintro heq
        simp [heq] at hlong
      rw [if_pos hlong, ih, foldl_update, hcrowded]
      refine Prod.ext (by simp [hne]) ?_
      funext i
      simp only [List.count_append]
      omega
    · have hcrowded : crowded (g :: groups) = crowded groups := by simp [crowded, hlong]
      rw [if_neg hlong, ih, hcrowded]

omit [DecidableEq D] in
theorem foldl_drain_perm {groups groups' : List (D × List (Fin n))} (h : groups.Perm groups')
    (s : Bool × (Fin n → ℕ)) : groups.foldl drain s = groups'.foldl drain s := by
  obtain ⟨any, details⟩ := s
  have hperm := crowded_perm h
  rw [foldl_drain, foldl_drain, hperm.isEmpty_eq]
  simp only [hperm.count_eq]

/-- The items that a round takes into its map, in order. -/
def entering (describe : Fin n → ℕ → D) (s : Disambiguation n D) : List (Fin n) :=
  (List.finRange n).filter (s.Enters describe ·)

theorem mem_entering : i ∈ s.entering describe ↔ s.Enters describe i := by
  simp [entering]

theorem nodup_entering : (s.entering describe).Nodup :=
  (List.nodup_finRange n).filter _

/-- The map behind the first loop. -/
def descriptions (describe : Fin n → ℕ → D) (s : Disambiguation n D) : List (D × List (Fin n)) :=
  groupUnder (s.description describe) (s.entering describe)

theorem mem_crowded_descriptions :
    i ∈ crowded (s.descriptions describe) ↔ s.Collides describe i := by
  rw [descriptions, (grouped_groupUnder _ _).mem_crowded, mem_entering]
  refine and_congr_right fun hi => ?_
  rw [one_lt_length_filter nodup_entering (mem_entering.mpr hi)]
  simp only [mem_entering]

theorem count_crowded_descriptions :
    (crowded (s.descriptions describe)).count i = if s.Collides describe i then 1 else 0 := by
  have hnodup : (crowded (s.descriptions describe)).Nodup :=
    (grouped_groupUnder _ _).nodup_crowded nodup_entering
  rw [hnodup.count]
  simp only [mem_crowded_descriptions]

/-- A round raises the items that collide; the last one is that in which none does. -/
theorem round_spec (h : s.Tracks describe) : s.round describe =
    if ∃ i, s.Collides describe i then .ok (.next (s.raised describe))
    else .ok (.done s.details) := by
  have hvisited : (List.finRange n).foldl (visit describe s.details) ([], s.currentDescriptions) =
      (s.descriptions describe, s.description describe) := by
    rw [foldl_visit h (List.nodup_finRange n) fun i _ => rfl]
    refine Prod.ext rfl (funext fun i => ?_)
    simp
  have hany : (crowded (s.descriptions describe)).isEmpty = false ↔
      ∃ i, s.Collides describe i := by
    rw [List.isEmpty_eq_false_iff_exists_mem]
    exact exists_congr fun i => mem_crowded_descriptions
  simp only [round, hvisited, foldl_drain, Bool.false_or, count_crowded_descriptions]
  by_cases hcollision : ∃ i, s.Collides describe i
  · rw [if_pos hcollision, if_pos (by simpa using hany.mpr hcollision)]
    have hdetails : (s.raised describe).details =
        fun i => s.details i + if s.Collides describe i then 1 else 0 := by
      funext i
      simp only [raised]
      split <;> rfl
    rw [← hdetails]
    rfl
  · have hnone : ∀ i, ¬ s.Collides describe i := not_exists.mp hcollision
    rw [if_neg hcollision, if_neg (by simpa using mt hany.mp hcollision)]
    simp [hnone]

/-! ### Whole runs -/

/-- The states before the rounds of a run. -/
inductive Reached (describe : Fin n → ℕ → D) : Disambiguation n D → Prop
  | start : Reached describe (start describe)
  | round {s : Disambiguation n D} (hs : Reached describe s)
      (hcollision : ∃ i, s.Collides describe i) : Reached describe (s.raised describe)

theorem Reached.tracks (h : Reached describe s) : s.Tracks describe := by
  cases h with
  | start => exact tracks_start
  | round => exact tracks_raised

theorem round_next (h : s.Tracks describe) (hcollision : ∃ i, s.Collides describe i) :
    s.round describe = .ok (.next (s.raised describe)) := by
  rw [round_spec h, if_pos hcollision]

theorem round_done (h : s.Tracks describe) (hnone : ¬ ∃ i, s.Collides describe i) :
    s.round describe = .ok (.done s.details) := by
  rw [round_spec h, if_neg hnone]

theorem reached_end {fuel : ℕ} {details : Fin n → ℕ}
    (hrun : loop .outOfFuel (round describe) fuel (start describe) = .ok details) :
    ∃ s, Reached describe s ∧ (¬ ∃ i, s.Collides describe i) ∧ s.details = details := by
  refine loop_partial (Reached describe)
    (fun details => ∃ s, Reached describe s ∧ (¬ ∃ i, s.Collides describe i) ∧ s.details = details)
    ?_ ?_ .start hrun
  · intro s s' hs hround
    rw [round_spec hs.tracks] at hround
    split at hround
    · next hcollision =>
      cases hround
      exact hs.round hcollision
    · cases hround
  · intro s details hs hround
    rw [round_spec hs.tracks] at hround
    split at hround
    · cases hround
    · next hnone =>
      cases hround
      exact ⟨s, hs, hnone, rfl⟩

theorem Reached.run (h : Reached describe s) {fuel : ℕ} {details : Fin n → ℕ}
    (hrun : loop .outOfFuel (Disambiguation.round describe) fuel (.start describe) = .ok details) :
    ∃ left, loop .outOfFuel (Disambiguation.round describe) left s = .ok details := by
  induction h with
  | start => exact ⟨fuel, hrun⟩
  | @round s hs hcollision ih =>
    obtain ⟨left, hleft⟩ := ih
    cases left with
    | zero => cases hleft
    | succ left => exact ⟨left, (loop_next (round_next hs.tracks hcollision)).symm.trans hleft⟩

/-! ### Termination -/

omit [DecidableEq D] in
theorem Collides.le_level (hcollides : s.Collides describe i) (h : s.Tracks describe) {level : ℕ}
    (hlevel : SettlesAt (describe i) level) : s.details i ≤ level := by
  rcases hcollides.1 with hzero | hnew
  · omega
  · have hbefore : s.currentDescriptions i = describe i (s.details i - 1) :=
      (h i).resolve_right fun heq => hnew heq.symm
    by_cases hzero : s.details i = 0
    · omega
    · have hne : describe i (s.details i - 1 + 1) ≠ describe i (s.details i - 1) := by
        rw [Nat.sub_add_cancel (by omega), ← hbefore]
        exact hnew
      have := hlevel.lt_of_ne hne
      omega

/-- The loop ends: each further round brings an item nearer to its fixed point. -/
theorem terminates (hsettles : ∀ i, ∃ level, SettlesAt (describe i) level) :
    ∃ fuel details, loop .outOfFuel (round describe) fuel (start describe) = .ok details := by
  choose level hlevel using hsettles
  let μ : Disambiguation n D → ℕ := fun s => ∑ i, (level i + 1 - s.details i)
  have hround : ∀ s : Disambiguation n D, s.Tracks describe →
      (∃ s', s.round describe = .ok (.next s') ∧ s'.Tracks describe ∧ μ s' < μ s) ∨
      ∃ details, s.round describe = .ok (.done details) ∧ True := by
    intro s h
    by_cases hcollision : ∃ i, s.Collides describe i
    · refine .inl ⟨_, round_next h hcollision, tracks_raised, ?_⟩
      obtain ⟨i, hi⟩ := hcollision
      refine Finset.sum_lt_sum (fun j _ => ?_) ⟨i, Finset.mem_univ i, ?_⟩
      · simp only [raised]
        split <;> omega
      · have hle := hi.le_level h (hlevel i)
        simp only [raised, if_pos hi]
        omega
    · exact .inr ⟨_, round_done h hcollision, trivial⟩
  obtain ⟨details, hrun, -⟩ := loop_spec _ μ _ hround tracks_start (Nat.lt_succ_self _)
  exact ⟨_, details, hrun⟩

/-! ### Items that are passed over -/

theorem raised_details_of_not (h : ¬ s.Collides describe i) :
    (s.raised describe).details i = s.details i :=
  if_neg h

theorem raised_details_of_collides (h : s.Collides describe i) :
    (s.raised describe).details i = s.details i + 1 :=
  if_pos h

theorem not_enters_raised : ¬ (s.raised describe).Enters describe i ↔
    (s.raised describe).details i ≠ 0 ∧
      (s.raised describe).description describe i = s.description describe i := by
  simp only [Enters, not_or, not_not]
  rfl

theorem raised_of_not_enters (hover : ¬ s.Enters describe i) :
    (s.raised describe).details i = s.details i ∧ ¬ (s.raised describe).Enters describe i := by
  have hsame := raised_details_of_not fun hcollides : s.Collides describe i => hover hcollides.1
  simp only [Enters, not_or] at hover
  exact ⟨hsame, not_enters_raised.mpr ⟨by omega, by rw [description, hsame]; rfl⟩⟩

theorem stays {fuel : ℕ} {details : Fin n → ℕ} (h : s.Tracks describe)
    (hover : ¬ s.Enters describe i)
    (hrun : loop .outOfFuel (round describe) fuel s = .ok details) : details i = s.details i := by
  refine loop_partial
    (fun t => t.Tracks describe ∧ ¬ t.Enters describe i ∧ t.details i = s.details i)
    (fun details => details i = s.details i) ?_ ?_ ⟨h, hover, rfl⟩ hrun
  · rintro t t' ⟨ht, hover, hdetail⟩ hround
    rw [round_spec ht] at hround
    split at hround
    · cases hround
      obtain ⟨hsame, hover⟩ := raised_of_not_enters hover
      exact ⟨tracks_raised, hover, hsame.trans hdetail⟩
    · cases hround
  · rintro t details ⟨ht, hover, hdetail⟩ hround
    rw [round_spec ht] at hround
    split at hround
    · cases hround
    · cases hround
      exact hdetail

/-- The item does not keep its description in this round, or it comes to another round as it
is. -/
def MovesOn (describe : Fin n → ℕ → D) (s : Disambiguation n D) (i : Fin n) : Prop :=
  if s.Collides describe i then describe i (s.details i + 1) ≠ s.description describe i
  else s.details i = 0 ∧ ∃ j, s.Collides describe j

theorem movesOn_iff (hcollision : ∃ j, s.Collides describe j) :
    s.MovesOn describe i ↔ (s.raised describe).Enters describe i := by
  have hdescription : (s.raised describe).description describe i =
      describe i ((s.raised describe).details i) := rfl
  rw [MovesOn, ← not_iff_not, not_enters_raised, hdescription]
  split
  · next hi =>
    rw [raised_details_of_collides hi, not_not]
    exact (and_iff_right (Nat.succ_ne_zero _)).symm
  · next hi =>
    rw [raised_details_of_not hi, and_iff_left hcollision]
    exact (and_iff_left rfl).symm

/-- The item and the other one are at their fixed points. -/
def BothFixed (describe : Fin n → ℕ → D) (s : Disambiguation n D) (i j : Fin n) : Prop :=
  AtFixedPoint (describe i) (s.details i) ∧ AtFixedPoint (describe j) (s.details j)

/-- A round that comes to an item with the description of one that is passed over moves it on,
or both are at their fixed points. -/
def LeavesNone (describe : Fin n → ℕ → D) (s : Disambiguation n D) : Prop :=
  ∀ i j, s.Enters describe i → ¬ s.Enters describe j →
    s.description describe i = s.description describe j →
      s.MovesOn describe i ∨ s.BothFixed describe i j

/-- Behind a round, two items that are passed over with equal descriptions had them before. -/
theorem equal_before (hi : ¬ (s.raised describe).Enters describe i)
    (hj : ¬ (s.raised describe).Enters describe j)
    (heq : (s.raised describe).description describe i =
      (s.raised describe).description describe j) :
    s.description describe i = s.description describe j := by
  rw [← (not_enters_raised.mp hi).2, ← (not_enters_raised.mp hj).2, heq]

theorem atFixedPoint_raised (h : AtFixedPoint (describe i) (s.details i)) :
    AtFixedPoint (describe i) ((s.raised describe).details i) := by
  refine h.mono ?_
  simp only [Disambiguation.raised]
  split <;> omega

/-- An item that is passed over right behind a collision is at its fixed point. -/
theorem Collides.atFixedPoint (hcollides : s.Collides describe i)
    (hsettles : ∀ i, ∃ level, SettlesAt (describe i) level)
    (hover : ¬ (s.raised describe).Enters describe i) :
    AtFixedPoint (describe i) (s.details i) := by
  obtain ⟨level, hlevel⟩ := hsettles i
  have hsame := (not_enters_raised.mp hover).2
  rw [description, raised_details_of_collides hcollides] at hsame
  exact hlevel.atFixedPoint hsame

/-- If no round leaves an item behind, two items that are passed over with equal descriptions are
at their fixed points. -/
theorem Reached.passed_fixed (hsettles : ∀ i, ∃ level, SettlesAt (describe i) level)
    (hleaves : ∀ s, Reached describe s → s.LeavesNone describe) (h : Reached describe s) :
    ∀ i j, i ≠ j → ¬ s.Enters describe i → ¬ s.Enters describe j →
      s.description describe i = s.description describe j → s.BothFixed describe i j := by
  induction h with
  | start =>
    intro i j _ hi
    exact absurd (.inl rfl) hi
  | @round s hs hcollision ih =>
    intro i j hne hi hj heq
    have hbefore := equal_before hi hj heq
    -- the later of the two is the one that the round took into its map
    have hone : ∀ i j, s.Enters describe i → ¬ s.Enters describe j →
        ¬ (s.raised describe).Enters describe i →
        s.description describe i = s.description describe j → s.BothFixed describe i j :=
      fun i j hin hover hi heq => (hleaves s hs i j hin hover heq).resolve_left
        fun hmoves => hi ((movesOn_iff hcollision).mp hmoves)
    suffices hfixed : s.BothFixed describe i j from
      ⟨atFixedPoint_raised hfixed.1, atFixedPoint_raised hfixed.2⟩
    by_cases hin : s.Enters describe i <;> by_cases hjn : s.Enters describe j
    · have hcollides : s.Collides describe i := ⟨hin, j, hjn, hne.symm, hbefore.symm⟩
      have hcollides' : s.Collides describe j := ⟨hjn, i, hin, hne, hbefore⟩
      exact ⟨hcollides.atFixedPoint hsettles hi, hcollides'.atFixedPoint hsettles hj⟩
    · exact hone i j hin hjn hi hbefore
    · exact (hone j i hjn hin hj hbefore.symm).symm
    · exact ih i j hne hin hjn hbefore

/-! ### What the details promise -/

/-- Items with equal descriptions are at their fixed points, and an item keeps the detail `0` if no
other item ever has its first description. -/
structure Disambiguates (describe : Fin n → ℕ → D) (details : Fin n → ℕ) : Prop where
  equal : ∀ i j, i ≠ j → describe i (details i) = describe j (details j) →
    AtFixedPoint (describe i) (details i) ∧ AtFixedPoint (describe j) (details j)
  alone : ∀ i, (∀ j, j ≠ i → ∀ detail, describe j detail ≠ describe i 0) → details i = 0

theorem Reached.alone (h : Reached describe s)
    (halone : ∀ j, j ≠ i → ∀ detail, describe j detail ≠ describe i 0) : s.details i = 0 := by
  induction h with
  | start => rfl
  | @round s hs hcollision ih =>
    have hnot : ¬ s.Collides describe i := by
      rintro ⟨-, j, -, hne, heq⟩
      rw [description, description, ih] at heq
      exact halone j hne _ heq
    rw [raised_details_of_not hnot, ih]

theorem disambiguates_of_leavesNone (hsettles : ∀ i, ∃ level, SettlesAt (describe i) level)
    (hleaves : ∀ s, Reached describe s → s.LeavesNone describe) {fuel : ℕ} {details : Fin n → ℕ}
    (hrun : loop .outOfFuel (Disambiguation.round describe) fuel (.start describe) = .ok details) :
    Disambiguates describe details := by
  obtain ⟨s, hs, hnone, rfl⟩ := reached_end hrun
  refine ⟨fun i j hne heq => ?_, fun i halone => hs.alone halone⟩
  -- in the last round nothing moves on
  have hone : ∀ i j, s.Enters describe i → ¬ s.Enters describe j →
      s.description describe i = s.description describe j → s.BothFixed describe i j := by
    intro i j hin hover heq
    refine (hleaves s hs i j hin hover heq).resolve_left fun hmoves => ?_
    rw [MovesOn, if_neg fun hi => hnone ⟨i, hi⟩] at hmoves
    exact hnone hmoves.2
  by_cases hin : s.Enters describe i <;> by_cases hjn : s.Enters describe j
  · exact absurd ⟨i, hin, j, hjn, hne.symm, heq.symm⟩ hnone
  · exact hone i j hin hjn heq
  · exact (hone j i hjn hin heq.symm).symm
  · exact hs.passed_fixed hsettles hleaves i j hne hin hjn heq

theorem leavesNone_of_disambiguates (hsettles : ∀ i, ∃ level, SettlesAt (describe i) level)
    {fuel : ℕ} {details : Fin n → ℕ}
    (hrun : loop .outOfFuel (Disambiguation.round describe) fuel (.start describe) = .ok details)
    (hdetails : Disambiguates describe details) (hs : Reached describe s) :
    s.LeavesNone describe := by
  intro i j hin hover heq
  by_cases hmoves : s.MovesOn describe i
  · exact .inl hmoves
  refine .inr ?_
  have hne : i ≠ j := fun hij => hover (hij ▸ hin)
  obtain ⟨left, hleft⟩ := hs.run hrun
  have hstays := stays hs.tracks hover hleft
  by_cases hcollision : ∃ k, s.Collides describe k
  · -- the item is passed over from the next round on, with the description it has now
    have hpassed : ¬ (s.raised describe).Enters describe i := mt (movesOn_iff hcollision).mpr hmoves
    obtain ⟨left', hleft'⟩ := (hs.round hcollision).run hrun
    have hends := stays tracks_raised hpassed hleft'
    have hsame : describe i (details i) = s.description describe i := by
      rw [hends]
      exact (not_enters_raised.mp hpassed).2
    obtain ⟨hfixed, hfixed'⟩ := hdetails.equal i j hne (by rw [hsame, heq, hstays]; rfl)
    refine ⟨?_, hstays ▸ hfixed'⟩
    by_cases hi : s.Collides describe i
    · exact hi.atFixedPoint hsettles hpassed
    · rwa [← raised_details_of_not hi, ← hends]
  · have hend : s.details = details := by
      cases left with
      | zero => cases hleft
      | succ left =>
        rw [loop_done (round_done hs.tracks hcollision)] at hleft
        exact Except.ok.inj hleft
    subst hend
    exact hdetails.equal i j hne heq

/-! ### A condition on the items -/

/-- Descriptions of different items are equal only at one detail or at their fixed points. -/
def LevelsApart (describe : Fin n → ℕ → D) : Prop :=
  ∀ i j, i ≠ j → ∀ a b, a ≠ b → describe i a = describe j b →
    AtFixedPoint (describe i) a ∧ AtFixedPoint (describe j) b

/-- What holds before a round, if `rounds` are behind it: the items that it takes into its map are
at that detail, but for those that are alone with their first description. -/
structure InStep (describe : Fin n → ℕ → D) (rounds : ℕ) (s : Disambiguation n D) : Prop where
  le : ∀ i, s.details i ≤ rounds
  entering : ∀ i, s.Enters describe i → s.details i = rounds ∨
    s.details i = 0 ∧ ∀ j, j ≠ i → describe j 0 ≠ describe i 0
  passed : ∀ i, ¬ s.Enters describe i → s.details i = rounds →
    AtFixedPoint (describe i) (rounds - 1)

theorem InStep.raised {rounds : ℕ} (h : s.InStep describe rounds) (hapart : LevelsApart describe)
    (hsettles : ∀ i, ∃ level, SettlesAt (describe i) level) :
    (s.raised describe).InStep describe (rounds + 1) := by
  refine ⟨fun i => ?_, fun i hin => ?_, fun i hover hdetail => ?_⟩
  · have hle := h.le i
    simp only [Disambiguation.raised]
    split <;> omega
  · by_cases hcollides : s.Collides describe i
    · have hraised := raised_details_of_collides hcollides
      obtain hr | ⟨hzero, halone⟩ := h.entering i hcollides.1
      · exact .inl (by omega)
      · -- an item that is alone at the detail `0` collides only at its fixed point
        obtain ⟨j, -, hne, heq⟩ := hcollides.2
        rw [description, description, hzero] at heq
        have hj : s.details j ≠ 0 := fun hj => halone j hne (by rw [← heq, hj])
        have hfixed := (hapart j i hne _ _ hj heq).2
        refine absurd hin (not_enters_raised.mpr ⟨by omega, ?_⟩)
        rw [description, description, hraised, hzero]
        exact hfixed _ (Nat.zero_le _)
    · have hraised := raised_details_of_not hcollides
      have hzero : s.details i = 0 := by
        by_contra hne
        refine not_enters_raised.mpr ⟨by omega, ?_⟩ hin
        rw [description, hraised, description]
      refine .inr ⟨by omega, fun j hne heq => ?_⟩
      obtain hr | ⟨-, halone⟩ := h.entering i (.inl hzero)
      · have hj : s.details j = 0 := by have := h.le j; omega
        exact hcollides ⟨.inl hzero, j, .inl hj, hne,
          by rw [description, description, hj, hzero, heq]⟩
      · exact halone j hne heq
  · have hle := h.le i
    have hcollides : s.Collides describe i := by
      by_contra hnot
      have := raised_details_of_not hnot
      omega
    have hbefore := raised_details_of_collides hcollides
    have hr : s.details i = rounds := by omega
    exact hr ▸ hcollides.atFixedPoint hsettles hover

theorem Reached.inStep (h : Reached describe s) (hapart : LevelsApart describe)
    (hsettles : ∀ i, ∃ level, SettlesAt (describe i) level) :
    ∃ rounds, s.InStep describe rounds := by
  induction h with
  | start => exact ⟨0, fun _ => le_rfl, fun _ _ => .inl rfl, fun _ hover => absurd (.inl rfl) hover⟩
  | round hs hcollision ih =>
    obtain ⟨rounds, ih⟩ := ih
    exact ⟨rounds + 1, ih.raised hapart hsettles⟩

theorem InStep.leavesNone {rounds : ℕ} (h : s.InStep describe rounds)
    (hapart : LevelsApart describe) : s.LeavesNone describe := by
  intro i j hin hover heq
  have hne : i ≠ j := fun hij => hover (hij ▸ hin)
  refine .inr ?_
  by_cases hdetail : s.details i = s.details j
  · have hj : s.details j ≠ 0 := fun hzero => hover (.inl hzero)
    have hr : s.details i = rounds := (h.entering i hin).resolve_right fun hzero => hj (by omega)
    -- the other item has stood still in the last round, so it is at its fixed point
    have hfixed := h.passed j hover (by omega)
    have hsame : describe i rounds = describe j (rounds - 1) := by
      rw [← hfixed rounds (by omega), ← hr]
      exact heq.trans (by rw [description, ← hdetail])
    refine ⟨hr ▸ (hapart i j hne _ _ (by omega) hsame).1, hfixed.mono (by omega)⟩
  · exact hapart i j hne _ _ hdetail heq

end Disambiguation

open Disambiguation in
/-- Items whose descriptions meet only at one detail or at their fixed points are disambiguated. -/
theorem computeDisambiguationDetails_disambiguates {T D : Type} [DecidableEq D] (items : List T)
    (getDescription : T → ℕ → D)
    (hsettles : ∀ index, ∃ level, SettlesAt (getDescription (items.get index)) level)
    (hapart : LevelsApart fun index => getDescription (items.get index)) :
    ∃ fuel details, computeDisambiguationDetails items getDescription fuel = .ok details ∧
      Disambiguates (fun index => getDescription (items.get index)) details := by
  obtain ⟨fuel, details, hrun⟩ := terminates hsettles
  refine ⟨fuel, details, hrun, disambiguates_of_leavesNone hsettles (fun s hs => ?_) hrun⟩
  obtain ⟨rounds, hstep⟩ := hs.inStep hapart hsettles
  exact hstep.leavesNone hapart

open Disambiguation in
/-- The loop ends.  The details it ends with disambiguate the items exactly if no round of the run
leaves an item with the description of one that it passes over. -/
theorem disambiguates_iff {T D : Type} [DecidableEq D] (items : List T)
    (getDescription : T → ℕ → D)
    (hsettles : ∀ item ∈ items, ∃ level, SettlesAt (getDescription item) level) :
    (∃ fuel details, computeDisambiguationDetails items getDescription fuel = .ok details ∧
      Disambiguates (fun index => getDescription (items.get index)) details) ↔
      ∀ s, Reached (fun index => getDescription (items.get index)) s →
        s.LeavesNone fun index => getDescription (items.get index) := by
  have hindex : ∀ index : Fin items.length,
      ∃ level, SettlesAt (getDescription (items.get index)) level :=
    fun index => hsettles _ (List.get_mem items index)
  constructor
  · rintro ⟨fuel, details, hrun, hdetails⟩ s hs
    exact leavesNone_of_disambiguates hindex hrun hdetails hs
  · intro hleaves
    obtain ⟨fuel, details, hrun⟩ := terminates hindex
    exact ⟨fuel, details, hrun, disambiguates_of_leavesNone hindex hleaves hrun⟩

/-- The descriptions of an item that lists them: the last one stays. -/
def clamped {D : Type} (item : List D) (detail : ℕ) : Option D :=
  item[min detail (item.length - 1)]?

theorem settlesAt_clamped {D : Type} {item : List D} (h : item.IsChain (· ≠ ·)) :
    SettlesAt (clamped item) (item.length - 1) := by
  refine ⟨fun detail hdetail => by simp only [clamped]; congr 1; omega, fun detail hdetail => ?_⟩
  simp only [clamped]
  rw [Nat.min_eq_left (by omega), Nat.min_eq_left (by omega),
    List.getElem?_eq_getElem (by omega), List.getElem?_eq_getElem (by omega)]
  exact fun heq => List.isChain_iff_getElem.mp h detail (by omega) (Option.some.inj heq).symm

/-- Two items with different descriptions behind a common one. -/
theorem disambiguates_iff_two :
    (∃ fuel details, computeDisambiguationDetails [['x', 'p'], ['x', 'q']] clamped fuel =
        .ok details ∧
      Disambiguation.Disambiguates
        (fun index => clamped ([['x', 'p'], ['x', 'q']].get index)) details) ↔
      ∀ s, Disambiguation.Reached (fun index => clamped ([['x', 'p'], ['x', 'q']].get index)) s →
        s.LeavesNone fun index => clamped ([['x', 'p'], ['x', 'q']].get index) := by
  refine disambiguates_iff [['x', 'p'], ['x', 'q']] clamped fun item hitem => ?_
  refine ⟨_, settlesAt_clamped ?_⟩
  revert item
  decide

/-- Three items that collide at first, and the last two of them once more. -/
def lateCollision : List (List Char) :=
  [['x', 'p', 'q'], ['x', 'y', 'p'], ['x', 'y', 'r']]

/-- The second item comes to the description of the first in a round that passes over the first. -/
theorem disambiguates_not :
    (∀ item ∈ lateCollision, ∃ level, SettlesAt (clamped item) level) ∧
    (computeDisambiguationDetails lateCollision clamped 4).toOption.map List.ofFn =
      some [1, 2, 2] ∧
    ¬ ∃ fuel details, computeDisambiguationDetails lateCollision clamped fuel = .ok details ∧
      Disambiguation.Disambiguates (fun index => clamped (lateCollision.get index)) details := by
  have hrun : (computeDisambiguationDetails lateCollision clamped 4).toOption.map List.ofFn =
      some [1, 2, 2] := rfl
  refine ⟨fun item hitem => ⟨_, settlesAt_clamped ?_⟩, hrun, ?_⟩
  · revert item
    decide
  · rintro ⟨fuel, details, hdetails, hpromise⟩
    have hlong : computeDisambiguationDetails lateCollision clamped (fuel + 4) = .ok details :=
      loop_mono (fun _ _ h => h) hdetails (by omega)
    have hlist : List.ofFn details = [1, 2, 2] := by
      cases hfour : computeDisambiguationDetails lateCollision clamped 4 with
      | error e => simp [hfour, Except.toOption] at hrun
      | ok details' =>
        have hlong' := loop_mono (fun _ _ h => h) hfour (Nat.le_add_left 4 fuel)
        obtain rfl : details' = details := Except.ok.inj (hlong'.symm.trans hlong)
        simpa [hfour, Except.toOption] using hrun
    have hfirst : details (0 : Fin 3) = 1 := (List.cons.inj hlist).1
    have hsecond : details (1 : Fin 3) = 2 := (List.cons.inj (List.cons.inj hlist).2).1
    -- the first item stands at `'p'` and has not come to `'q'`
    have hequal := hpromise.equal (0 : Fin 3) (1 : Fin 3)
      (show (0 : Fin 3) ≠ 1 by decide) (by rw [hfirst, hsecond]; rfl)
    have hfixed := hequal.1 2 (by omega)
    rw [hfirst] at hfixed
    revert hfixed
    decide

end Zui.Util
