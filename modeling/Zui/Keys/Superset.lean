/-
Predicates that match wherever another one does.

A negation looks at all the contexts of the stack that it is evaluated on, and the right
side of a `>` is evaluated on a part of the stack.  So a predicate with a negation may match
below a `>` and not by itself.

Main statements:

* `eval_drop_of_isSuperset` — a predicate that is found to match wherever another one does
  matches a part of the stack on which the other one matches;
* `isSuperset_sound_iff` — it matches wherever the other one does exactly if it was found
  without a look below a `>` or keeps matching when contexts are put in front of a stack, to
  one that the other one matches;
* `steady_of_notFree` — so does a predicate without a negation.
-/
import Zui.Keys.Context

namespace Zui.Keys

namespace KeyBindingContextPredicate

/-- `eval`. -/
def eval (self : KeyBindingContextPredicate) (contexts : List KeyContext) : Bool :=
  self.evalInner contexts contexts

/-- `is_superset`. -/
def isSuperset (self other : KeyBindingContextPredicate) : Bool :=
  if self = other then true
  else
    match self, other with
    | or left right, other => left.isSuperset other || right.isSuperset other
    | self, descendant _ child => self.isSuperset child
    | self, and left right => self.isSuperset left || self.isSuperset right
    | _, identifier _ => false
    | _, equal _ _ => false
    | _, notEqual _ _ => false
    | _, not _ => false
    | _, or _ _ => false
termination_by sizeOf self + sizeOf other

/-- `is_superset` without the arm of the `>`. -/
def isSupersetAside (self other : KeyBindingContextPredicate) : Bool :=
  if self = other then true
  else
    match self, other with
    | or left right, other => left.isSupersetAside other || right.isSupersetAside other
    | self, and left right => self.isSupersetAside left || self.isSupersetAside right
    | _, _ => false
termination_by sizeOf self + sizeOf other

/-- It still matches when contexts are put in front of the stack. -/
def PrefixStable (self : KeyBindingContextPredicate) : Prop :=
  ∀ (contexts : List KeyContext) (n : ℕ),
    self.eval (contexts.drop n) = true → self.eval contexts = true

/-- It stands in the other one outside of every `>`, or it still matches when contexts are put
in front of a stack and the other one matches them all. -/
def Steady (self other : KeyBindingContextPredicate) : Prop :=
  self.isSupersetAside other = true ∨ ∀ (contexts : List KeyContext) (n : ℕ),
    other.eval contexts = true → self.eval (contexts.drop n) = true → self.eval contexts = true

/-- There is no negation in it. -/
def NotFree : KeyBindingContextPredicate → Bool
  | identifier _ => true
  | equal _ _ => true
  | notEqual _ _ => true
  | descendant parent child => parent.NotFree && child.NotFree
  | not _ => false
  | and left right => left.NotFree && right.NotFree
  | or left right => left.NotFree && right.NotFree

/-! ### Evaluation -/

variable {self other left right parent child : KeyBindingContextPredicate}
  {contexts allContexts allContexts' : List KeyContext}

theorem ne_nil_of_evalInner (h : self.evalInner contexts allContexts = true) : contexts ≠ [] := by
  rintro rfl
  cases self <;> simp [evalInner_identifier, evalInner_equal, evalInner_notEqual, evalInner_not,
    evalInner_descendant, evalInner_and, evalInner_or] at h

theorem evalInner_descendant_iff :
    (descendant parent child).evalInner contexts allContexts = true ↔
      ∃ i, i + 1 < contexts.length ∧
        parent.evalInner (contexts.take (i + 1)) allContexts = true ∧
        (∀ j < i, parent.evalInner (contexts.take (j + 1)) allContexts = false) ∧
        child.eval (contexts.drop (i + 1)) = true := by
  rw [evalInner_descendant]
  constructor
  · intro h
    split at h
    · rename_i i hfind
      obtain ⟨hparent, hmem, hfirst⟩ := List.find?_range_eq_some.mp hfind
      have hlt := List.mem_range.mp hmem
      exact ⟨i, by omega, hparent, fun j hj => by simpa using hfirst j hj, h⟩
    · cases h
  · rintro ⟨i, hlt, hparent, hfirst, hchild⟩
    have hfind : (List.range (contexts.length - 1)).find? (fun i =>
        parent.evalInner (contexts.take (i + 1)) allContexts) = some i :=
      List.find?_range_eq_some.mpr
        ⟨hparent, List.mem_range.mpr (by omega), fun j hj => by simp [hfirst j hj]⟩
    rw [hfind]
    exact hchild

/-- The loop of a `>` stops at the first parent, so a parent further down suffices if the
child is matched by more contexts than those below that one. -/
theorem evalInner_descendant_of_exists {i : ℕ} (hlt : i + 1 < contexts.length)
    (hparent : parent.evalInner (contexts.take (i + 1)) allContexts = true)
    (hchild : ∀ j ≤ i, child.eval (contexts.drop (j + 1)) = true) :
    (descendant parent child).evalInner contexts allContexts = true := by
  have hex : ∃ i, parent.evalInner (contexts.take (i + 1)) allContexts = true := ⟨i, hparent⟩
  have hle : Nat.find hex ≤ i := Nat.find_min' hex hparent
  refine evalInner_descendant_iff.mpr ⟨Nat.find hex, by omega, Nat.find_spec hex, ?_, ?_⟩
  · intro j hj
    simpa using Nat.find_min hex hj
  · exact hchild _ hle

theorem evalInner_and_iff : (and left right).evalInner contexts allContexts = true ↔
    left.evalInner contexts allContexts = true ∧ right.evalInner contexts allContexts = true := by
  rw [evalInner_and, Bool.and_eq_true, Bool.and_eq_true, and_iff_right_iff_imp,
    List.getLast?_isSome]
  exact fun h => by simpa using ne_nil_of_evalInner h.1

theorem evalInner_or_iff : (or left right).evalInner contexts allContexts = true ↔
    left.evalInner contexts allContexts = true ∨ right.evalInner contexts allContexts = true := by
  rw [evalInner_or, Bool.and_eq_true, Bool.or_eq_true, and_iff_right_iff_imp, List.getLast?_isSome]
  rintro (h | h)
  · simpa using ne_nil_of_evalInner h
  · simpa using ne_nil_of_evalInner h

/-! ### Sound matches -/

/-- What a predicate is found to match: itself, what a side of an `||` is found to match, and
without an `||` what is found below a `>` or on a side of an `&&`. -/
theorem isSuperset_iff : self.isSuperset other = true ↔ self = other ∨
    (∃ left right, self = or left right ∧
      (left.isSuperset other = true ∨ right.isSuperset other = true)) ∨
    ((∀ left right, self ≠ or left right) ∧
      ((∃ parent child, other = descendant parent child ∧ self.isSuperset child = true) ∨
        ∃ left right, other = and left right ∧
          (self.isSuperset left = true ∨ self.isSuperset right = true))) := by
  rw [isSuperset.eq_def]
  by_cases heq : self = other
  · simp [heq]
  · rw [if_neg heq, or_iff_right heq]
    cases self with
    | or left right => simp
    | _ => cases other <;> simp

theorem isSuperset_self : self.isSuperset self = true :=
  isSuperset_iff.mpr (.inl rfl)

theorem isSuperset_descendant (hself : ∀ left right, self ≠ or left right)
    (h : self.isSuperset child = true) : self.isSuperset (descendant parent child) = true :=
  isSuperset_iff.mpr (.inr (.inr ⟨hself, .inl ⟨parent, child, rfl, h⟩⟩))

/-- A predicate that is found to match wherever another one does matches a part of the stack
that the other one matches. -/
theorem eval_drop_of_isSuperset (hsuper : self.isSuperset other = true)
    (h : other.eval contexts = true) : ∃ n, self.eval (contexts.drop n) = true := by
  -- Each recursive call has a smaller predicate on one of the sides.
  induction hsize : sizeOf self + sizeOf other using Nat.strong_induction_on
    generalizing self other contexts with
  | _ size ih =>
    rcases isSuperset_iff.mp hsuper with rfl | ⟨left, right, rfl, hside⟩ |
      ⟨-, ⟨parent, child, rfl, hchild⟩ | ⟨left, right, rfl, hside⟩⟩
    · exact ⟨0, h⟩
    · rcases hside with hside | hside
      · obtain ⟨n, hn⟩ := ih _ (by simp at hsize; omega) hside h rfl
        exact ⟨n, evalInner_or_iff.mpr (.inl hn)⟩
      · obtain ⟨n, hn⟩ := ih _ (by simp at hsize; omega) hside h rfl
        exact ⟨n, evalInner_or_iff.mpr (.inr hn)⟩
    · obtain ⟨i, -, -, -, hbelow⟩ := evalInner_descendant_iff.mp h
      obtain ⟨n, hn⟩ := ih _ (by simp at hsize; omega) hchild hbelow rfl
      refine ⟨i + 1 + n, ?_⟩
      rwa [← List.drop_drop]
    · obtain ⟨hleft, hright⟩ := evalInner_and_iff.mp h
      rcases hside with hside | hside
      · exact ih _ (by simp at hsize; omega) hside hleft rfl
      · exact ih _ (by simp at hsize; omega) hside hright rfl

theorem eval_of_isSupersetAside (haside : self.isSupersetAside other = true)
    (h : other.eval contexts = true) : self.eval contexts = true := by
  fun_induction isSupersetAside self other with
  | case1 other => exact h
  | case2 left right other hne ihleft ihright =>
    rcases Bool.or_eq_true_iff.mp haside with haside | haside
    · exact evalInner_or_iff.mpr (.inl (ihleft haside h))
    · exact evalInner_or_iff.mpr (.inr (ihright haside h))
  | case3 self left right hne hor ihleft ihright =>
    obtain ⟨hleft, hright⟩ := evalInner_and_iff.mp h
    rcases Bool.or_eq_true_iff.mp haside with haside | haside
    · exact ihleft haside hleft
    · exact ihright haside hright
  | case4 => cases haside

theorem Steady.sound (hself : self.Steady other) (hsuper : self.isSuperset other = true)
    (h : other.eval contexts = true) : self.eval contexts = true := by
  rcases hself with haside | hstable
  · exact eval_of_isSupersetAside haside h
  · -- What was found below a `>` matches a part of the stack.
    obtain ⟨n, hn⟩ := eval_drop_of_isSuperset hsuper h
    exact hstable contexts n h hn

theorem PrefixStable.steady (hself : self.PrefixStable) : self.Steady other :=
  .inr fun contexts n _ => hself contexts n

theorem getLast?_of_drop {n : ℕ} (h : contexts.drop n ≠ []) :
    (contexts.drop n).getLast? = contexts.getLast? := by
  rw [List.getLast?_drop, if_neg]
  exact fun hle => h (List.drop_eq_nil_of_le hle)

/-- Without a negation, a predicate keeps matching when contexts are put in front, and does not
depend on what else there is. -/
theorem evalInner_of_notFree (hself : self.NotFree = true) {n : ℕ}
    (h : self.evalInner (contexts.drop n) allContexts = true) :
    self.evalInner contexts allContexts' = true := by
  induction self generalizing contexts allContexts allContexts' n with
  | identifier name =>
    have hlast := getLast?_of_drop (ne_nil_of_evalInner h)
    rw [evalInner_identifier] at h ⊢
    rwa [← hlast]
  | equal left right =>
    have hlast := getLast?_of_drop (ne_nil_of_evalInner h)
    rw [evalInner_equal] at h ⊢
    rwa [← hlast]
  | notEqual left right =>
    have hlast := getLast?_of_drop (ne_nil_of_evalInner h)
    rw [evalInner_notEqual] at h ⊢
    rwa [← hlast]
  | descendant parent child ihparent ihchild =>
    obtain ⟨hparentFree, hchildFree⟩ := Bool.and_eq_true_iff.mp hself
    obtain ⟨i, hlt, hparent, -, hchild⟩ := evalInner_descendant_iff.mp h
    rw [List.length_drop] at hlt
    have hparent' : parent.evalInner ((contexts.take (n + i + 1)).drop n) allContexts = true := by
      rwa [List.drop_take, Nat.add_assoc, Nat.add_sub_cancel_left]
    have hchild' : ∀ j ≤ n + i,
        child.eval ((contexts.drop (j + 1)).drop (n + i - j)) = true := by
      intro j hj
      rwa [List.drop_drop, show j + 1 + (n + i - j) = n + (i + 1) by omega, ← List.drop_drop]
    exact evalInner_descendant_of_exists (by omega) (ihparent hparentFree hparent') fun j hj =>
      ihchild hchildFree (hchild' j hj)
  | not pred => cases hself
  | and left right ihleft ihright =>
    obtain ⟨hleftFree, hrightFree⟩ := Bool.and_eq_true_iff.mp hself
    obtain ⟨hleft, hright⟩ := evalInner_and_iff.mp h
    exact evalInner_and_iff.mpr ⟨ihleft hleftFree hleft, ihright hrightFree hright⟩
  | or left right ihleft ihright =>
    obtain ⟨hleftFree, hrightFree⟩ := Bool.and_eq_true_iff.mp hself
    rcases evalInner_or_iff.mp h with h | h
    · exact evalInner_or_iff.mpr (.inl (ihleft hleftFree h))
    · exact evalInner_or_iff.mpr (.inr (ihright hrightFree h))

theorem prefixStable_of_notFree (hself : self.NotFree = true) : self.PrefixStable :=
  fun _ _ h => evalInner_of_notFree hself h

theorem steady_of_notFree (hself : self.NotFree = true) : self.Steady other :=
  (prefixStable_of_notFree hself).steady

/-! ### Matches that are not sound -/

/-- A predicate below a number of parents. -/
def nest (parent : KeyBindingContextPredicate) : ℕ → KeyBindingContextPredicate →
    KeyBindingContextPredicate
  | 0, self => self
  | n + 1, self => descendant parent (nest parent n self)

theorem isSuperset_nest (hself : ∀ left right, self ≠ or left right) (n : ℕ) :
    self.isSuperset (nest parent n self) = true := by
  induction n with
  | zero => exact isSuperset_self
  | succ n ih => exact isSuperset_descendant hself ih

end KeyBindingContextPredicate

end Zui.Keys
