/-
Ranges of indices that wrap around.

`expandedAndWrappedUsizeRange` widens a range at both ends and wraps what leaves `0..L`.  When
just one end wraps, the wrapped piece is taken to run into the rest only if it reaches the
range itself, and not the part that was added on the other side.

`wrappedUsizeOutwardFrom` goes from an index to both sides in turn.

Main statements:

* `expanded_nodup_iff` — when no index is yielded twice;
* `outward_spec` — the indices on the way outward are those of an interval around the start;
* `wrapped_ranges_iff` — both functions, on all sizes.
-/
import Zui.Gpui.Basic
import Zui.Library.Merge
import Zui.Library.Text

namespace Zui.Util

/-! ### The functions -/

/-- `a + b`. -/
def addUsize (a b : ℕ) : Gpui.Result ℕ :=
  if a + b ≤ usizeMax then .ok (a + b) else .error .arithmeticOverflow

/-- `a - b`. -/
def subUsize (a b : ℕ) : Gpui.Result ℕ :=
  if b ≤ a then .ok (a - b) else .error .arithmeticOverflow

theorem addUsize_ok {a b : ℕ} (h : a + b ≤ usizeMax) : addUsize a b = .ok (a + b) :=
  if_pos h

theorem subUsize_ok {a b : ℕ} (h : b ≤ a) : subUsize a b = .ok (a - b) :=
  if_pos h

/-- `start..stop`. -/
def span (start stop : ℕ) : List ℕ :=
  List.range' start (stop - start)

/-- `expanded_and_wrapped_usize_range`. -/
def expandedAndWrappedUsizeRange (start stop additionalBefore additionalAfter wrapLength : ℕ) :
    Gpui.Result (List ℕ) := do
  let expandedEnd ← addUsize stop additionalAfter
  let startWraps := start < additionalBefore
  let endWraps := wrapLength < expandedEnd
  if startWraps ∧ endWraps then
    return span 0 wrapLength
  else if startWraps then
    let shifted ← addUsize start wrapLength
    -- `saturating_sub`
    let wrappedStart := shifted - additionalBefore
    if wrappedStart ≤ stop then
      return span 0 wrapLength
    else
      return span 0 expandedEnd ++ span wrappedStart wrapLength
  else if endWraps then
    let wrappedEnd ← subUsize expandedEnd wrapLength
    if start ≤ wrappedEnd then
      return span 0 wrapLength
    else
      let expandedStart ← subUsize start additionalBefore
      return span 0 wrappedEnd ++ span expandedStart wrapLength
  else
    let expandedStart ← subUsize start additionalBefore
    return span expandedStart expandedEnd

/-- The state of the iterator of `wrapped_usize_outward_from`. -/
structure Outward where
  count : ℕ
  afterOffset : ℕ
  beforeOffset : ℕ

/-- The body of the iterator. -/
def Outward.next (start additionalBefore additionalAfter wrapLength : ℕ) (self : Outward) :
    Gpui.Result (Option ℕ × Outward) := do
  let count ← addUsize self.count 1
  let self := { self with count := count }
  if count > wrapLength then
    return (none, self)
  else if count = 1 then
    return (some (start % wrapLength), self)
  else if self.afterOffset ≤ additionalAfter ∧ self.afterOffset ≤ self.beforeOffset then
    let value ← addUsize start self.afterOffset
    let afterOffset ← addUsize self.afterOffset 1
    return (some (value % wrapLength), { self with afterOffset := afterOffset })
  else if self.beforeOffset ≤ additionalBefore then
    let shifted ← addUsize start wrapLength
    let value ← subUsize shifted self.beforeOffset
    let beforeOffset ← addUsize self.beforeOffset 1
    return (some (value % wrapLength), { self with beforeOffset := beforeOffset })
  else if self.afterOffset ≤ additionalAfter then
    let value ← addUsize start self.afterOffset
    let afterOffset ← addUsize self.afterOffset 1
    return (some (value % wrapLength), { self with afterOffset := afterOffset })
  else
    return (none, self)

/-- What the iterator yields, asked so many times at most. -/
def Outward.collect (start additionalBefore additionalAfter wrapLength : ℕ) :
    ℕ → Outward → Gpui.Result (List ℕ)
  | 0, _ => .error .outOfFuel
  | fuel + 1, self => do
    match ← self.next start additionalBefore additionalAfter wrapLength with
    | (none, _) => return []
    | (some ix, self) =>
      return ix :: (← collect start additionalBefore additionalAfter wrapLength fuel self)

/-- `wrapped_usize_outward_from`. -/
def wrappedUsizeOutwardFrom (start additionalBefore additionalAfter wrapLength : ℕ) :
    Gpui.Result (List ℕ) :=
  Outward.collect start additionalBefore additionalAfter wrapLength (wrapLength + 2) ⟨0, 1, 1⟩

theorem mem_span {start stop i : ℕ} : i ∈ span start stop ↔ start ≤ i ∧ i < stop := by
  rw [span, List.mem_range'_1]
  omega

theorem nodup_span (start stop : ℕ) : (span start stop).Nodup :=
  List.nodup_range'

/-- A span at the start and one at the end hold no index twice if they are apart. -/
theorem nodup_ends {front back stop : ℕ} :
    (span 0 front ++ span back stop).Nodup ↔ front ≤ back ∨ stop ≤ back := by
  rw [List.nodup_append]
  simp only [nodup_span, true_and, mem_span]
  constructor
  · intro hapart
    by_contra hboth
    exact hapart back (by omega) back (by omega) rfl
  · intro hends a ha b hb
    omega

/-! ### The expanded range -/

section Expanded

variable {start stop additionalBefore additionalAfter wrapLength : ℕ}

/-- The index that a member of the expanded range is wrapped to. -/
def Wraps (start stop additionalBefore additionalAfter wrapLength i : ℕ) : Prop :=
  ∃ n : ℤ, (start : ℤ) - additionalBefore ≤ n ∧ n < stop + additionalAfter ∧
    (i : ℤ) = n % wrapLength

/-- One end of the expanded range wraps, and not so far that it comes to the range itself, but
it comes to what is added at the other end. -/
def Overlaps (start stop additionalBefore additionalAfter wrapLength : ℕ) : Prop :=
  (start < additionalBefore ∧ stop + additionalAfter ≤ wrapLength ∧
    stop + additionalBefore < start + wrapLength ∧
    start + wrapLength < stop + additionalAfter + additionalBefore) ∨
  (additionalBefore ≤ start ∧ wrapLength < stop + additionalAfter ∧
    stop + additionalAfter < start + wrapLength ∧
    start + wrapLength < stop + additionalAfter + additionalBefore)

theorem wraps_of_long (hpos : 0 < wrapLength)
    (hlong : start + wrapLength ≤ stop + additionalAfter + additionalBefore) {i : ℕ}
    (hi : i < wrapLength) : Wraps start stop additionalBefore additionalAfter wrapLength i := by
  set first : ℤ := (start : ℤ) - additionalBefore with hfirst
  have hL : (0 : ℤ) < wrapLength := by exact_mod_cast hpos
  -- The first member that is congruent to `i`.
  refine ⟨first + (i - first) % wrapLength, ?_, ?_, ?_⟩
  · have := Int.emod_nonneg (i - first) hL.ne'
    omega
  · have := Int.emod_lt_of_pos (i - first) hL
    omega
  · rw [Int.add_emod_emod, add_sub_cancel, Int.emod_eq_of_lt (by omega) (by omega)]

theorem lt_of_wraps (hpos : 0 < wrapLength) {i : ℕ}
    (h : Wraps start stop additionalBefore additionalAfter wrapLength i) : i < wrapLength := by
  obtain ⟨n, -, -, hi⟩ := h
  have := Int.emod_lt_of_pos n (show (0 : ℤ) < wrapLength by exact_mod_cast hpos)
  omega

/-- The residue of a member that is less than one length outside of the indices. -/
theorem emod_cases {L : ℕ} {n : ℤ} (hlow : -(L : ℤ) ≤ n) (hhigh : n < 2 * L) {i : ℕ} :
    (i : ℤ) = n % L ↔ i < L ∧ (n = i ∨ n = i - L ∨ n = i + L) := by
  constructor
  · intro hi
    have hpos : (0 : ℤ) < L := by omega
    have hlt := Int.emod_lt_of_pos n hpos
    refine ⟨by omega, ?_⟩
    by_cases hneg : n < 0
    · have hshift : n % L = n + L := by
        rw [← Int.add_emod_right n L]
        exact Int.emod_eq_of_lt (by omega) (by omega)
      omega
    · by_cases hin : n < L
      · have hsame := Int.emod_eq_of_lt (by omega : 0 ≤ n) hin
        omega
      · have hshift : n % L = n - L := by
          rw [← Int.sub_emod_right n L]
          exact Int.emod_eq_of_lt (by omega) (by omega)
        omega
  · rintro ⟨hi, rfl | rfl | rfl⟩
    · exact (Int.emod_eq_of_lt (by omega) (by omega)).symm
    · rw [Int.sub_emod_right]
      exact (Int.emod_eq_of_lt (by omega) (by omega)).symm
    · rw [Int.add_emod_right]
      exact (Int.emod_eq_of_lt (by omega) (by omega)).symm

/-- A range that wraps less than once at each end is wrapped in one piece there. -/
theorem wraps_iff_of_short (hstart : start ≤ wrapLength)
    (hlow : additionalBefore ≤ start + wrapLength)
    (hhigh : stop + additionalAfter ≤ 2 * wrapLength) {i : ℕ} :
    Wraps start stop additionalBefore additionalAfter wrapLength i ↔
      i < wrapLength ∧
        ((start ≤ i + additionalBefore ∧ i < stop + additionalAfter) ∨
          start + wrapLength ≤ i + additionalBefore ∨
          i + wrapLength < stop + additionalAfter) := by
  constructor
  · rintro ⟨n, hfirst, hlast, hi⟩
    obtain ⟨hlt, hn⟩ := (emod_cases (by omega) (by omega)).mp hi
    exact ⟨hlt, by omega⟩
  · rintro ⟨hlt, hin | hbefore | hafter⟩
    · exact ⟨i, by omega, by omega, (emod_cases (by omega) (by omega)).mpr ⟨hlt, by omega⟩⟩
    · exact ⟨i - wrapLength, by omega, by omega,
        (emod_cases (by omega) (by omega)).mpr ⟨hlt, by omega⟩⟩
    · exact ⟨i + wrapLength, by omega, by omega,
        (emod_cases (by omega) (by omega)).mpr ⟨hlt, by omega⟩⟩

/-- What the function yields: the wrapped indices, and no index twice unless the ends
overlap. -/
theorem expanded_spec (hrange : start ≤ stop) (hstop : stop ≤ wrapLength) (hpos : 0 < wrapLength)
    (hafter : stop + additionalAfter ≤ usizeMax) (hshift : start + wrapLength ≤ usizeMax) :
    ∃ xs, expandedAndWrappedUsizeRange start stop additionalBefore additionalAfter wrapLength
        = .ok xs ∧
      (∀ i, i ∈ xs ↔ Wraps start stop additionalBefore additionalAfter wrapLength i) ∧
      (xs.Nodup ↔ ¬ Overlaps start stop additionalBefore additionalAfter wrapLength) := by
  -- a range that covers all indices is given as one span, unless it overlaps itself
  have hall : start + wrapLength ≤ stop + additionalAfter + additionalBefore →
      ¬ Overlaps start stop additionalBefore additionalAfter wrapLength →
      (∀ i, i ∈ span 0 wrapLength ↔
        Wraps start stop additionalBefore additionalAfter wrapLength i) ∧
      ((span 0 wrapLength).Nodup ↔
        ¬ Overlaps start stop additionalBefore additionalAfter wrapLength) := by
    intro hlong hnot
    refine ⟨fun i => ?_, iff_of_true (nodup_span _ _) hnot⟩
    rw [mem_span]
    exact ⟨fun h => wraps_of_long hpos hlong h.2, fun h => ⟨Nat.zero_le i, lt_of_wraps hpos h⟩⟩
  rw [expandedAndWrappedUsizeRange, addUsize_ok hafter, ok_bind]
  by_cases hs : start < additionalBefore
  · by_cases he : wrapLength < stop + additionalAfter
    · -- Both ends wrap.
      rw [if_pos ⟨hs, he⟩]
      exact ⟨_, rfl, hall (by omega) (by unfold Overlaps; omega)⟩
    · -- Only the beginning wraps.
      rw [if_neg (fun h => he h.2), if_pos hs, addUsize_ok hshift, ok_bind]
      by_cases hmeet : start + wrapLength - additionalBefore ≤ stop
      · rw [if_pos hmeet]
        exact ⟨_, rfl, hall (by omega) (by unfold Overlaps; omega)⟩
      · rw [if_neg hmeet]
        refine ⟨_, rfl, fun i => ?_, ?_⟩
        · rw [List.mem_append, mem_span, mem_span,
            wraps_iff_of_short (by omega) (by omega) (by omega)]
          omega
        · rw [nodup_ends]
          unfold Overlaps
          omega
  · have hbefore : subUsize start additionalBefore = .ok (start - additionalBefore) :=
      subUsize_ok (by omega)
    by_cases he : wrapLength < stop + additionalAfter
    · -- Only the end wraps.
      rw [if_neg (fun h => hs h.1), if_neg hs, if_pos he, subUsize_ok he.le, ok_bind]
      by_cases hmeet : start ≤ stop + additionalAfter - wrapLength
      · rw [if_pos hmeet]
        exact ⟨_, rfl, hall (by omega) (by unfold Overlaps; omega)⟩
      · rw [if_neg hmeet, hbefore, ok_bind]
        refine ⟨_, rfl, fun i => ?_, ?_⟩
        · rw [List.mem_append, mem_span, mem_span,
            wraps_iff_of_short (by omega) (by omega) (by omega)]
          omega
        · rw [nodup_ends]
          unfold Overlaps
          omega
    · -- Neither end wraps.
      rw [if_neg (fun h => hs h.1), if_neg hs, if_neg he, hbefore, ok_bind]
      refine ⟨_, rfl, fun i => ?_, iff_of_true (nodup_span _ _) (by unfold Overlaps; omega)⟩
      rw [mem_span, wraps_iff_of_short (by omega) (by omega) (by omega)]
      omega

end Expanded

/-! ### Outward from a start -/

/-- The offsets of the way outward: after the start and before it in turn, as long as each side's
allowance lasts. -/
def outwardOffsets (additionalBefore additionalAfter : ℕ) : List ℤ :=
  0 :: interleave ((List.range' 1 additionalAfter).map fun n : ℕ => (n : ℤ))
    ((List.range' 1 additionalBefore).map fun n : ℕ => -(n : ℤ))

section Outward

variable {start additionalBefore additionalAfter wrapLength : ℕ}

/-- The offsets that are left on the side after the start, from the next one on. -/
def offsetsAfter (additionalAfter afterOffset : ℕ) : List ℤ :=
  (List.range' afterOffset (additionalAfter + 1 - afterOffset)).map fun n : ℕ => (n : ℤ)

/-- The offsets that are left on the side before the start, from the next one on. -/
def offsetsBefore (additionalBefore beforeOffset : ℕ) : List ℤ :=
  (List.range' beforeOffset (additionalBefore + 1 - beforeOffset)).map fun n : ℕ => -(n : ℤ)

/-- The offsets that the iterator has still to yield. -/
def Outward.left (additionalBefore additionalAfter : ℕ) (self : Outward) : List ℤ :=
  if self.afterOffset ≤ self.beforeOffset then
    interleave (offsetsAfter additionalAfter self.afterOffset)
      (offsetsBefore additionalBefore self.beforeOffset)
  else
    interleave (offsetsBefore additionalBefore self.beforeOffset)
      (offsetsAfter additionalAfter self.afterOffset)

theorem offsetsAfter_cons {n : ℕ} (h : n ≤ additionalAfter) :
    offsetsAfter additionalAfter n = (n : ℤ) :: offsetsAfter additionalAfter (n + 1) := by
  rw [offsetsAfter, show additionalAfter + 1 - n = additionalAfter + 1 - (n + 1) + 1 by omega,
    List.range'_succ, List.map_cons]
  rfl

theorem offsetsAfter_nil {n : ℕ} (h : additionalAfter < n) :
    offsetsAfter additionalAfter n = [] := by
  rw [offsetsAfter, show additionalAfter + 1 - n = 0 by omega]
  rfl

theorem offsetsBefore_cons {n : ℕ} (h : n ≤ additionalBefore) :
    offsetsBefore additionalBefore n = -(n : ℤ) :: offsetsBefore additionalBefore (n + 1) := by
  rw [offsetsBefore, show additionalBefore + 1 - n = additionalBefore + 1 - (n + 1) + 1 by omega,
    List.range'_succ, List.map_cons]
  rfl

theorem offsetsBefore_nil {n : ℕ} (h : additionalBefore < n) :
    offsetsBefore additionalBefore n = [] := by
  rw [offsetsBefore, show additionalBefore + 1 - n = 0 by omega]
  rfl

/-- The index with the offset from the start. -/
def wrapped (start wrapLength : ℕ) (offset : ℤ) : ℕ :=
  ((start + offset) % wrapLength).toNat

theorem wrapped_after {n : ℕ} : wrapped start wrapLength n = (start + n) % wrapLength := by
  rw [wrapped, ← Nat.cast_add, ← Int.natCast_mod, Int.toNat_natCast]

theorem wrapped_before {n : ℕ} (h : n ≤ start + wrapLength) :
    wrapped start wrapLength (-n) = (start + wrapLength - n) % wrapLength := by
  rw [wrapped, ← Int.toNat_natCast ((start + wrapLength - n) % wrapLength), Int.natCast_mod,
    Nat.cast_sub h, Nat.cast_add, show (start : ℤ) + wrapLength - n = start + -n +
      wrapLength by ring,
    Int.add_emod_right]

/-- What holds between two steps: the two sides have taken turns, until the allowance of one of
them was used up. -/
structure Outward.Runs (additionalBefore additionalAfter : ℕ) (state : Outward) : Prop where
  count_pos : 1 ≤ state.count
  after_pos : 1 ≤ state.afterOffset
  before_pos : 1 ≤ state.beforeOffset
  count : state.afterOffset + state.beforeOffset = state.count + 1
  turn_after : state.afterOffset ≤ additionalAfter → state.beforeOffset ≤ state.afterOffset
  turn_before : state.beforeOffset ≤ additionalBefore → state.afterOffset ≤ state.beforeOffset + 1

variable {self : Outward}

theorem next_after (hshift : start + wrapLength ≤ usizeMax) (hlength : wrapLength < usizeMax)
    (h : self.Runs additionalBefore additionalAfter) (hcount : self.count < wrapLength)
    (hallowed : self.afterOffset ≤ additionalAfter)
    (hturn : self.afterOffset ≤ self.beforeOffset ∨ additionalBefore < self.beforeOffset) :
    self.next start additionalBefore additionalAfter wrapLength =
      .ok (some (wrapped start wrapLength self.afterOffset),
        ⟨self.count + 1, self.afterOffset + 1, self.beforeOffset⟩) := by
  obtain ⟨hone, hafter, hbefore, hsum, -, -⟩ := h
  rw [Outward.next, addUsize_ok (by omega), ok_bind, if_neg (by omega), if_neg (by omega),
    wrapped_after]
  by_cases hfirst : self.afterOffset ≤ self.beforeOffset
  · rw [if_pos ⟨hallowed, hfirst⟩, addUsize_ok (by simp only; omega), ok_bind,
      addUsize_ok (by simp only; omega), ok_bind]
    rfl
  · rw [if_neg (fun hboth => hfirst hboth.2), if_neg (by simp only; omega), if_pos hallowed,
      addUsize_ok (by simp only; omega), ok_bind, addUsize_ok (by simp only; omega), ok_bind]
    rfl

theorem next_before (hshift : start + wrapLength ≤ usizeMax) (hlength : wrapLength < usizeMax)
    (h : self.Runs additionalBefore additionalAfter) (hcount : self.count < wrapLength)
    (hallowed : self.beforeOffset ≤ additionalBefore)
    (hturn : self.beforeOffset < self.afterOffset ∨ additionalAfter < self.afterOffset) :
    self.next start additionalBefore additionalAfter wrapLength =
      .ok (some (wrapped start wrapLength (-self.beforeOffset)),
        ⟨self.count + 1, self.afterOffset, self.beforeOffset + 1⟩) := by
  obtain ⟨hone, hafter, hbefore, hsum, -, -⟩ := h
  rw [Outward.next, addUsize_ok (by omega), ok_bind, if_neg (by omega), if_neg (by omega),
    wrapped_before (by omega), if_neg (by simp only; omega), if_pos hallowed, addUsize_ok hshift,
    ok_bind, subUsize_ok (by simp only; omega), ok_bind, addUsize_ok (by simp only; omega), ok_bind]
  rfl

theorem next_none (hlength : wrapLength < usizeMax) (hone : 1 ≤ self.count)
    (hcount : self.count ≤ wrapLength)
    (hend : wrapLength ≤ self.count ∨
      (additionalAfter < self.afterOffset ∧ additionalBefore < self.beforeOffset)) :
    ∃ next, self.next start additionalBefore additionalAfter wrapLength = .ok (none, next) := by
  rw [Outward.next, addUsize_ok (by omega), ok_bind]
  by_cases hlast : wrapLength < self.count + 1
  · exact ⟨_, if_pos hlast⟩
  · rw [if_neg hlast, if_neg (by omega), if_neg (by simp only; omega), if_neg (by simp only; omega),
      if_neg (by simp only; omega)]
    exact ⟨_, rfl⟩

theorem left_nil (hafter : additionalAfter < self.afterOffset)
    (hbefore : additionalBefore < self.beforeOffset) :
    self.left additionalBefore additionalAfter = [] := by
  rw [Outward.left, offsetsAfter_nil hafter, offsetsBefore_nil hbefore, interleave_nil, ite_self]

theorem left_after (h : self.Runs additionalBefore additionalAfter)
    (hallowed : self.afterOffset ≤ additionalAfter)
    (hturn : self.afterOffset ≤ self.beforeOffset ∨ additionalBefore < self.beforeOffset) :
    self.left additionalBefore additionalAfter = (self.afterOffset : ℤ) ::
      Outward.left additionalBefore additionalAfter
        ⟨self.count + 1, self.afterOffset + 1, self.beforeOffset⟩ := by
  have hle := h.turn_after hallowed
  simp only [Outward.left]
  rw [offsetsAfter_cons hallowed,
    if_neg (show ¬ self.afterOffset + 1 ≤ self.beforeOffset by omega)]
  by_cases hfirst : self.afterOffset ≤ self.beforeOffset
  · rw [if_pos hfirst, interleave_cons]
  · rw [if_neg hfirst, offsetsBefore_nil (by omega), interleave_nil, interleave_nil]

theorem left_before (h : self.Runs additionalBefore additionalAfter)
    (hallowed : self.beforeOffset ≤ additionalBefore)
    (hturn : self.beforeOffset < self.afterOffset ∨ additionalAfter < self.afterOffset) :
    self.left additionalBefore additionalAfter = -(self.beforeOffset : ℤ) ::
      Outward.left additionalBefore additionalAfter
        ⟨self.count + 1, self.afterOffset, self.beforeOffset + 1⟩ := by
  have hle := h.turn_before hallowed
  simp only [Outward.left]
  rw [offsetsBefore_cons hallowed,
    if_pos (show self.afterOffset ≤ self.beforeOffset + 1 by omega)]
  by_cases hfirst : self.afterOffset ≤ self.beforeOffset
  · rw [if_pos hfirst, offsetsAfter_nil (by omega), interleave_nil, interleave_nil]
  · rw [if_neg hfirst, interleave_cons]

/-- What the iterator yields from a state on. -/
theorem collect_spec (hshift : start + wrapLength ≤ usizeMax) (hlength : wrapLength < usizeMax)
    (fuel : ℕ) : ∀ {self : Outward}, self.Runs additionalBefore additionalAfter →
    self.count ≤ wrapLength → wrapLength < fuel + self.count →
    Outward.collect start additionalBefore additionalAfter wrapLength fuel self =
      .ok (((self.left additionalBefore additionalAfter).take (wrapLength - self.count)).map
        (wrapped start wrapLength)) := by
  induction fuel with
  | zero =>
    intro self _ hcount hfuel
    omega
  | succ fuel ih =>
    intro self h hcount hfuel
    rw [Outward.collect]
    by_cases hend : wrapLength ≤ self.count ∨
        (additionalAfter < self.afterOffset ∧ additionalBefore < self.beforeOffset)
    · obtain ⟨next, hnext⟩ : ∃ next,
          self.next start additionalBefore additionalAfter wrapLength = .ok (none, next) :=
        next_none hlength h.count_pos hcount hend
      rw [hnext, ok_bind]
      rcases hend with hfull | ⟨hafter, hbefore⟩
      · rw [Nat.sub_eq_zero_of_le hfull]
        rfl
      · rw [left_nil hafter hbefore, List.take_nil]
        rfl
    · rw [not_or, not_le] at hend
      obtain ⟨hlt, hsides⟩ := hend
      rw [show wrapLength - self.count = wrapLength - (self.count + 1) + 1 by omega]
      by_cases hturn : self.afterOffset ≤ additionalAfter ∧
          (self.afterOffset ≤ self.beforeOffset ∨ additionalBefore < self.beforeOffset)
      · obtain ⟨hallowed, hturn⟩ := hturn
        have hnext : Outward.Runs additionalBefore additionalAfter
            ⟨self.count + 1, self.afterOffset + 1, self.beforeOffset⟩ := by
          obtain ⟨hone, hafter, hbefore, hsum, hturn₁, hturn₂⟩ := h
          constructor <;> simp only <;> omega
        rw [next_after hshift hlength h hlt hallowed hturn, ok_bind,
          left_after h hallowed hturn, List.take_succ_cons, List.map_cons]
        simp only
        rw [ih hnext hlt (by simp only; omega)]
        rfl
      · have hallowed : self.beforeOffset ≤ additionalBefore := by omega
        have hturn : self.beforeOffset < self.afterOffset ∨
            additionalAfter < self.afterOffset := by omega
        have hnext : Outward.Runs additionalBefore additionalAfter
            ⟨self.count + 1, self.afterOffset, self.beforeOffset + 1⟩ := by
          obtain ⟨hone, hafter, hbefore, hsum, hturn₁, hturn₂⟩ := h
          constructor <;> simp only <;> omega
        rw [next_before hshift hlength h hlt hallowed hturn, ok_bind,
          left_before h hallowed hturn, List.take_succ_cons, List.map_cons]
        simp only
        rw [ih hnext hlt (by simp only; omega)]
        rfl

theorem outward_eq (hpos : 0 < wrapLength) (hshift : start + wrapLength ≤ usizeMax)
    (hlength : wrapLength < usizeMax) :
    wrappedUsizeOutwardFrom start additionalBefore additionalAfter wrapLength =
      .ok (((outwardOffsets additionalBefore additionalAfter).take wrapLength).map
        (wrapped start wrapLength)) := by
  have hruns : Outward.Runs additionalBefore additionalAfter ⟨1, 1, 1⟩ := by
    constructor <;> simp only <;> omega
  have hfirst : Outward.next start additionalBefore additionalAfter wrapLength ⟨0, 1, 1⟩
      = .ok (some (start % wrapLength), ⟨1, 1, 1⟩) := by
    rw [Outward.next, addUsize_ok (show 0 + 1 ≤ usizeMax by omega), ok_bind,
      if_neg (show ¬ 0 + 1 > wrapLength by omega), if_pos rfl]
    rfl
  rw [wrappedUsizeOutwardFrom, Outward.collect, hfirst, ok_bind]
  simp only
  rw [collect_spec hshift hlength (wrapLength + 1) hruns hpos (by simp only; omega), outwardOffsets]
  obtain ⟨n, rfl⟩ : ∃ n, wrapLength = n + 1 := ⟨wrapLength - 1, by omega⟩
  rw [List.take_succ_cons, List.map_cons, show (0 : ℤ) = ((0 : ℕ) : ℤ) from rfl, wrapped_after]
  rfl

/-- Offsets of less than one length from one end to the other lead to different indices. -/
theorem wrapped_injOn {p q : ℕ} (hshort : p + q < wrapLength) {a b : ℤ}
    (ha : -(q : ℤ) ≤ a ∧ a ≤ p) (hb : -(q : ℤ) ≤ b ∧ b ≤ p)
    (h : wrapped start wrapLength a = wrapped start wrapLength b) : a = b := by
  have hpos : (wrapLength : ℤ) ≠ 0 := by omega
  have hmod : (start + a) % wrapLength = ((start : ℤ) + b) % wrapLength := by
    rw [← Int.toNat_of_nonneg (Int.emod_nonneg _ hpos),
      ← Int.toNat_of_nonneg (Int.emod_nonneg ((start : ℤ) + b) hpos)]
    exact congrArg _ h
  have hdvd : (wrapLength : ℤ) ∣ a - b := by
    have hsub := Int.ModEq.dvd (show (start : ℤ) + b ≡ start + a [ZMOD wrapLength] from hmod.symm)
    rwa [add_sub_add_left_eq_sub] at hsub
  have hzero := Int.eq_zero_of_abs_lt_dvd hdvd (abs_lt.mpr ⟨by omega, by omega⟩)
  omega

theorem length_outwardOffsets :
    (outwardOffsets additionalBefore additionalAfter).length
      = 1 + additionalBefore + additionalAfter := by
  rw [outwardOffsets, List.length_cons, length_interleave]
  simp only [List.length_map, List.length_range']
  omega

/-- The first indices on the way outward are different. -/
theorem nodup_outward (start additionalBefore additionalAfter wrapLength : ℕ) :
    (((outwardOffsets additionalBefore additionalAfter).take wrapLength).map
      (wrapped start wrapLength)).Nodup := by
  obtain _ | n := wrapLength
  · exact List.nodup_nil
  rw [outwardOffsets, List.take_succ_cons]
  obtain ⟨p, q, hp, hq, hsum, hperm⟩ := take_interleave_perm
    ((List.range' 1 additionalAfter).map fun n : ℕ => (n : ℤ))
    ((List.range' 1 additionalBefore).map fun n : ℕ => -(n : ℤ)) n
  simp only [List.length_map, List.length_range'] at hp hq hsum
  rw [List.Perm.nodup_iff ((hperm.cons 0).map _)]
  -- What is taken lies in an interval that is shorter than the length.
  have hafter : ∀ a ∈ ((List.range' 1 additionalAfter).map fun n : ℕ => (n : ℤ)).take p,
      1 ≤ a ∧ a ≤ p := by
    intro a ha
    rw [← List.map_take, List.take_range'_of_length_ge hp, List.mem_map] at ha
    obtain ⟨m, hm, rfl⟩ := ha
    rw [List.mem_range'_1] at hm
    omega
  have hbefore : ∀ a ∈ ((List.range' 1 additionalBefore).map fun n : ℕ => -(n : ℤ)).take q,
      -(q : ℤ) ≤ a ∧ a ≤ -1 := by
    intro a ha
    rw [← List.map_take, List.take_range'_of_length_ge hq, List.mem_map] at ha
    obtain ⟨m, hm, rfl⟩ := ha
    rw [List.mem_range'_1] at hm
    omega
  have hin : ∀ a ∈ (0 : ℤ) :: (((List.range' 1 additionalAfter).map fun n : ℕ => (n : ℤ)).take p ++
      ((List.range' 1 additionalBefore).map fun n : ℕ => -(n : ℤ)).take q),
      -(q : ℤ) ≤ a ∧ a ≤ p := by
    intro a ha
    rcases List.mem_cons.mp ha with rfl | ha
    · omega
    · rcases List.mem_append.mp ha with ha | ha
      · have := hafter a ha
        omega
      · have := hbefore a ha
        omega
  refine List.Nodup.map_on (fun a ha b hb => wrapped_injOn (by omega) (hin a ha) (hin b hb)) ?_
  rw [List.nodup_cons, List.nodup_append]
  refine ⟨fun hzero => ?_, ?_, ?_, fun a ha b hb => ?_⟩
  · rcases List.mem_append.mp hzero with hmem | hmem
    · have := hafter 0 hmem
      omega
    · have := hbefore 0 hmem
      omega
  · have hcast : Function.Injective fun n : ℕ => (n : ℤ) := Nat.cast_injective
    exact (List.Nodup.map hcast List.nodup_range').sublist (List.take_sublist _ _)
  · have hneg : Function.Injective fun n : ℕ => -(n : ℤ) := neg_injective.comp Nat.cast_injective
    exact (List.Nodup.map hneg List.nodup_range').sublist (List.take_sublist _ _)
  · have := hafter a ha
    have := hbefore b hb
    omega

end Outward

/-- The expanded range yields each of its wrapped indices once, and nothing else. -/
def ExpandsOnce (start stop additionalBefore additionalAfter wrapLength : ℕ) : Prop :=
  ∃ xs, expandedAndWrappedUsizeRange start stop additionalBefore additionalAfter wrapLength
      = .ok xs ∧ xs.Nodup ∧
    ∀ i, i ∈ xs ↔ Wraps start stop additionalBefore additionalAfter wrapLength i

/-- The way outward takes its offsets in turn, to different indices, and ends with the length or
with the allowances. -/
def GoesOutward (start additionalBefore additionalAfter wrapLength : ℕ) : Prop :=
  ∃ xs, wrappedUsizeOutwardFrom start additionalBefore additionalAfter wrapLength = .ok xs ∧
    xs = ((outwardOffsets additionalBefore additionalAfter).take wrapLength).map
      (wrapped start wrapLength) ∧
    xs.Nodup ∧ (∀ i ∈ xs, i < wrapLength) ∧
    xs.length = min wrapLength (1 + additionalBefore + additionalAfter)

theorem goesOutward {start additionalBefore additionalAfter wrapLength : ℕ}
    (hpos : 0 < wrapLength) (hshift : start + wrapLength ≤ usizeMax)
    (hlength : wrapLength < usizeMax) :
    GoesOutward start additionalBefore additionalAfter wrapLength := by
  refine ⟨_, outward_eq hpos hshift hlength, rfl, nodup_outward _ _ _ _, fun i hi => ?_, ?_⟩
  · obtain ⟨offset, -, rfl⟩ := List.mem_map.mp hi
    have := Int.emod_lt_of_pos (start + offset) (show (0 : ℤ) < wrapLength by exact_mod_cast hpos)
    rw [wrapped]
    omega
  · rw [List.length_map, List.length_take, length_outwardOffsets]

/-- **Wrapped index ranges.**  The way outward is as it should be for every start, and a range
is expanded to each index once unless its ends overlap. -/
theorem wrapped_ranges_iff (start stop additionalBefore additionalAfter wrapLength : ℕ)
    (origin allowedBefore allowedAfter : ℕ) (hpos : 0 < wrapLength) (hrange : start ≤ stop)
    (hstop : stop ≤ wrapLength) (hlength : wrapLength < usizeMax)
    (hafter : stop + additionalAfter ≤ usizeMax) (hshift : start + wrapLength ≤ usizeMax)
    (horigin : origin + wrapLength ≤ usizeMax) :
    (ExpandsOnce start stop additionalBefore additionalAfter wrapLength ∧
      GoesOutward origin allowedBefore allowedAfter wrapLength) ↔
    ¬ Overlaps start stop additionalBefore additionalAfter wrapLength := by
  obtain ⟨xs, hxs, hmem, hnodup⟩ :=
    @expanded_spec start stop additionalBefore additionalAfter wrapLength hrange hstop hpos hafter
      hshift
  rw [and_iff_left (goesOutward hpos horigin hlength), ← hnodup]
  constructor
  · rintro ⟨ys, hys, honce, -⟩
    obtain rfl : xs = ys := Except.ok.inj (hxs.symm.trans hys)
    exact honce
  · intro honce
    exact ⟨xs, hxs, honce, hmem⟩

/-- The last index is in what is added behind the range and in what is added in front. -/
theorem expands_twice : ¬ ExpandsOnce 2 4 3 4 8 := by
  rintro ⟨xs, hxs, hnodup, -⟩
  obtain rfl : [0, 1, 2, 3, 4, 5, 6, 7, 7] = xs := Except.ok.inj hxs
  exact absurd hnodup (by decide)

theorem wrapped_ranges_iff_eight :
    (ExpandsOnce 3 5 1 4 8 ∧ GoesOutward 5 10 10 8) ↔ ¬ Overlaps 3 5 1 4 8 :=
  wrapped_ranges_iff 3 5 1 4 8 5 10 10 (by decide) (by decide) (by decide) (by decide) (by decide)
    (by decide) (by decide)

end Zui.Util
