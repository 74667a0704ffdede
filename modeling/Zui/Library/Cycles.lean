/-
Comparisons that are not transitive.

A comparison that is oriented, and calls only the same things equal, is transitive at three
elements unless they come before each other in a circle (`isLE_trans_iff`).  So what makes a
comparison intransitive can be traced through the ways to build comparisons:

* `cyclic_compareLex_iff` — three lists form a circle if and only if their first differing
  entries do;
* `cyclic_then_iff` — a transitive tie-break adds no circle;
* `cyclic_glue_iff` — two orders, one of which is used inside of a set and the other one
  elsewhere, form a circle if and only if an element outside of the set lies between two
  elements inside that the orders compare differently.
-/
import Mathlib.Order.Basic
import Mathlib.Data.List.Basic

namespace Zui

variable {α β : Type*}

/-- Three elements come before each other in a circle. -/
structure Cyclic (cmp : α → α → Ordering) (a b c : α) : Prop where
  first : cmp a b = .lt
  second : cmp b c = .lt
  third : cmp c a = .lt

theorem Cyclic.rotate {cmp : α → α → Ordering} {a b c : α} (h : Cyclic cmp a b c) :
    Cyclic cmp b c a :=
  ⟨h.second, h.third, h.first⟩

theorem not_cyclic {cmp : α → α → Ordering} [Std.TransCmp cmp] {a b c : α} :
    ¬ Cyclic cmp a b c := by
  intro h
  have hac : cmp a c = .lt := Std.TransCmp.lt_trans h.first h.second
  rw [Std.OrientedCmp.gt_iff_lt.mpr h.third] at hac
  cases hac

theorem cmp_not_lt_swap {cmp : α → α → Ordering} [Std.OrientedCmp cmp] {a b : α}
    (h : cmp a b = .lt) : cmp b a ≠ .lt := by
  rw [Std.OrientedCmp.gt_iff_lt.mpr h]
  exact fun h => nomatch h

theorem cmp_ne_of_lt {cmp : α → α → Ordering} [Std.OrientedCmp cmp] {a b : α}
    (h : cmp a b = .lt) : a ≠ b := by
  rintro rfl
  exact cmp_not_lt_swap h h

section Lawful

variable {cmp : α → α → Ordering} [Std.LawfulEqCmp cmp] {a b c : α}

theorem cmp_isLE_iff : (cmp a b).isLE = true ↔ a = b ∨ cmp a b = .lt := by
  rw [Ordering.isLE_iff_eq_lt_or_eq_eq, Std.LawfulEqCmp.compare_eq_iff_eq, or_comm]

theorem compareLex_append_left (front : List α) {x y : α} {xs ys : List α} (hne : x ≠ y) :
    List.compareLex cmp (front ++ x :: xs) (front ++ y :: ys) = cmp x y := by
  induction front with
  | nil =>
    rw [List.nil_append, List.nil_append, List.compareLex_cons_cons]
    cases h : cmp x y with
    | lt => rfl
    | eq => exact absurd (Std.LawfulEqCmp.eq_of_compare h) hne
    | gt => rfl
  | cons a front ih =>
    rw [List.cons_append, List.cons_append, List.compareLex_cons_cons, ih,
      show cmp a a = .eq from Std.ReflCmp.compare_self]
    rfl

omit [Std.LawfulEqCmp cmp] in
theorem compareLex_append {as bs cs ds : List α} (h : as.length = bs.length) :
    List.compareLex cmp (as ++ cs) (bs ++ ds) =
      (List.compareLex cmp as bs).then (List.compareLex cmp cs ds) := by
  induction as generalizing bs with
  | nil =>
    obtain rfl : bs = [] := List.length_eq_zero_iff.mp h.symm
    rfl
  | cons x as ih =>
    obtain _ | ⟨y, bs⟩ := bs
    · cases h
    rw [List.cons_append, List.cons_append, List.compareLex_cons_cons, List.compareLex_cons_cons,
      ih (Nat.succ.inj h), Ordering.then_assoc]

omit [Std.LawfulEqCmp cmp] in
theorem length_of_compareLex {as bs : List α} (h : List.compareLex cmp as bs = .eq) :
    as.length = bs.length := by
  induction as generalizing bs with
  | nil =>
    cases bs with
    | nil => rfl
    | cons y bs => cases h
  | cons x as ih =>
    cases bs with
    | nil => cases h
    | cons y bs =>
      rw [List.compareLex_cons_cons, Ordering.then_eq_eq] at h
      exact congrArg (· + 1) (ih h.2)

omit [Std.LawfulEqCmp cmp] in
/-- Lists compare equal only if they are the same, if that holds of their entries. -/
theorem eq_of_compareLex {as bs : List α} (hcmp : ∀ x ∈ as, ∀ y ∈ bs, cmp x y = .eq → x = y)
    (h : List.compareLex cmp as bs = .eq) : as = bs := by
  induction as generalizing bs with
  | nil => exact (List.length_eq_zero_iff.mp (length_of_compareLex h).symm).symm
  | cons x as ih =>
    obtain _ | ⟨y, bs⟩ := bs
    · cases h
    rw [List.compareLex_cons_cons, Ordering.then_eq_eq] at h
    rw [hcmp x List.mem_cons_self y List.mem_cons_self h.1,
      ih (fun a ha b hb => hcmp a (List.mem_cons_of_mem x ha) b (List.mem_cons_of_mem y hb)) h.2]

omit [Std.LawfulEqCmp cmp] in
theorem compareLex_congr {cmp' : α → α → Ordering} {as bs : List α}
    (h : ∀ x ∈ as, ∀ y ∈ bs, cmp x y = cmp' x y) :
    List.compareLex cmp as bs = List.compareLex cmp' as bs := by
  induction as generalizing bs with
  | nil => cases bs <;> rfl
  | cons x as ih =>
    cases bs with
    | nil => rfl
    | cons y bs =>
      rw [List.compareLex_cons_cons, List.compareLex_cons_cons,
        h x List.mem_cons_self y List.mem_cons_self,
        ih fun a ha b hb => h a (List.mem_cons_of_mem x ha) b (List.mem_cons_of_mem y hb)]

variable [Std.OrientedCmp cmp]

/-- Transitivity fails at three elements only if they form a circle. -/
theorem isLE_trans_iff :
    ((cmp a b).isLE → (cmp b c).isLE → (cmp a c).isLE) ↔ ¬ Cyclic cmp a b c := by
  constructor
  · intro htrans h
    have hac := htrans (cmp_isLE_iff.mpr (.inr h.first)) (cmp_isLE_iff.mpr (.inr h.second))
    rcases cmp_isLE_iff.mp hac with rfl | hlt
    · exact cmp_ne_of_lt h.third rfl
    · exact cmp_not_lt_swap hlt h.third
  · intro hcycle hab hbc
    rcases cmp_isLE_iff.mp hab with rfl | hab
    · exact hbc
    rcases cmp_isLE_iff.mp hbc with rfl | hbc
    · exact cmp_isLE_iff.mpr (.inr hab)
    by_contra hac
    rw [Bool.not_eq_true, Ordering.isLE_eq_false] at hac
    exact hcycle ⟨hab, hbc, Std.OrientedCmp.gt_iff_lt.mp hac⟩

end Lawful

section Lists

variable {cmp : α → α → Ordering} [Std.OrientedCmp cmp] [Std.LawfulEqCmp cmp]

/-- Three lists form a circle where their first differing entries do. -/
theorem cyclic_compareLex_iff {as bs cs : List α} :
    Cyclic (List.compareLex cmp) as bs cs ↔
      ∃ front x y z xs ys zs, as = front ++ x :: xs ∧ bs = front ++ y :: ys ∧
        cs = front ++ z :: zs ∧ Cyclic cmp x y z := by
  constructor
  · induction as generalizing bs cs with
    | nil =>
      rintro ⟨-, -, h⟩
      cases cs <;> cases h
    | cons x xs ih =>
      rintro ⟨hab, hbc, hca⟩
      obtain _ | ⟨y, ys⟩ := bs
      · cases hab
      obtain _ | ⟨z, zs⟩ := cs
      · cases hbc
      rw [List.compareLex_cons_cons, Ordering.then_eq_lt, Std.LawfulEqCmp.compare_eq_iff_eq]
        at hab hbc hca
      rcases hab with hab | ⟨rfl, hab⟩
      · refine ⟨[], x, y, z, xs, ys, zs, rfl, rfl, rfl, hab, ?_, ?_⟩
        · rcases hbc with hbc | ⟨rfl, -⟩
          · exact hbc
          · rcases hca with hca | ⟨rfl, -⟩
            · exact absurd hca (cmp_not_lt_swap hab)
            · exact absurd rfl (cmp_ne_of_lt hab)
        · rcases hca with hca | ⟨rfl, -⟩
          · exact hca
          · rcases hbc with hbc | ⟨rfl, -⟩
            · exact absurd hbc (cmp_not_lt_swap hab)
            · exact absurd rfl (cmp_ne_of_lt hab)
      · rcases hbc with hbc | ⟨rfl, hbc⟩
        · rcases hca with hca | ⟨rfl, -⟩
          · exact absurd hca (cmp_not_lt_swap hbc)
          · exact absurd rfl (cmp_ne_of_lt hbc)
        · rcases hca with hca | ⟨-, hca⟩
          · exact absurd rfl (cmp_ne_of_lt hca)
          · obtain ⟨front, x', y', z', xs', ys', zs', rfl, rfl, rfl, h⟩ := ih ⟨hab, hbc, hca⟩
            exact ⟨x :: front, x', y', z', xs', ys', zs', rfl, rfl, rfl, h⟩
  · rintro ⟨front, x, y, z, xs, ys, zs, rfl, rfl, rfl, h⟩
    constructor
    · rw [compareLex_append_left front (cmp_ne_of_lt h.first), h.first]
    · rw [compareLex_append_left front (cmp_ne_of_lt h.second), h.second]
    · rw [compareLex_append_left front (cmp_ne_of_lt h.third), h.third]

/-- A transitive tie-break behind a comparison by a key adds no circle. -/
theorem cyclic_then_iff {key : β → α} {tie : β → β → Ordering} [Std.TransCmp tie] {a b c : β} :
    Cyclic (fun a b => (cmp (key a) (key b)).then (tie a b)) a b c ↔
      Cyclic cmp (key a) (key b) (key c) := by
  constructor
  · rintro ⟨hab, hbc, hca⟩
    rw [Ordering.then_eq_lt, Std.LawfulEqCmp.compare_eq_iff_eq] at hab hbc hca
    rcases hab with hab | ⟨heq, hab⟩
    · rcases hbc with hbc | ⟨heq', -⟩
      · rcases hca with hca | ⟨heq', -⟩
        · exact ⟨hab, hbc, hca⟩
        · rw [heq'] at hbc
          exact absurd hbc (cmp_not_lt_swap hab)
      · rw [heq'] at hab
        rcases hca with hca | ⟨heq'', -⟩
        · exact absurd hca (cmp_not_lt_swap hab)
        · exact absurd heq''.symm (cmp_ne_of_lt hab)
    · rw [heq] at hca
      rcases hbc with hbc | ⟨heq', hbc⟩
      · rcases hca with hca | ⟨heq', -⟩
        · exact absurd hca (cmp_not_lt_swap hbc)
        · exact absurd heq'.symm (cmp_ne_of_lt hbc)
      · rcases hca with hca | ⟨-, hca⟩
        · exact absurd heq'.symm (cmp_ne_of_lt hca)
        · exact absurd (⟨hab, hbc, hca⟩ : Cyclic tie a b c) not_cyclic
  · rintro ⟨hab, hbc, hca⟩
    constructor
    · rw [hab]
      rfl
    · rw [hbc]
      rfl
    · rw [hca]
      rfl

end Lists

section Keys

variable {cmp : α → α → Ordering} {key : β → α}

/-- Compares by a key. -/
def byKey (key : β → α) (cmp : α → α → Ordering) (a b : β) : Ordering :=
  cmp (key a) (key b)

instance [Std.OrientedCmp cmp] : Std.OrientedCmp (byKey key cmp) where
  eq_swap {a b} := by
    show cmp (key a) (key b) = (cmp (key b) (key a)).swap
    exact Std.OrientedCmp.eq_swap

instance [Std.TransCmp cmp] : Std.TransCmp (byKey key cmp) where
  isLE_trans {a b c} hab hbc := by
    show (cmp (key a) (key c)).isLE = true
    exact Std.TransCmp.isLE_trans (show (cmp (key a) (key b)).isLE = true from hab)
      (show (cmp (key b) (key c)).isLE = true from hbc)

theorem byKey_eq_iff [Std.LawfulEqCmp cmp] {a b : β} : byKey key cmp a b = .eq ↔ key a = key b := by
  show cmp (key a) (key b) = .eq ↔ key a = key b
  exact Std.LawfulEqCmp.compare_eq_iff_eq

theorem transCmp_of_not_cyclic [Std.OrientedCmp cmp] [Std.LawfulEqCmp cmp]
    (h : ∀ a b c, ¬ Cyclic cmp a b c) : Std.TransCmp cmp where
  isLE_trans := isLE_trans_iff.mpr (h _ _ _)

end Keys

section Glue

variable {P : α → Prop} [DecidablePred P] {inside outside : α → α → Ordering} {a b c : α}

/-- Compares in one way inside of a set and in another way elsewhere. -/
def glue (P : α → Prop) [DecidablePred P] (inside outside : α → α → Ordering) (a b : α) :
    Ordering :=
  if P a ∧ P b then inside a b else outside a b

theorem glue_inside (ha : P a) (hb : P b) : glue P inside outside a b = inside a b :=
  if_pos ⟨ha, hb⟩

theorem glue_left (ha : ¬ P a) : glue P inside outside a b = outside a b :=
  if_neg fun h => ha h.1

theorem glue_right (hb : ¬ P b) : glue P inside outside a b = outside a b :=
  if_neg fun h => hb h.2

instance [Std.OrientedCmp inside] [Std.OrientedCmp outside] :
    Std.OrientedCmp (glue P inside outside) where
  eq_swap {a b} := by
    by_cases h : P a ∧ P b
    · rw [glue_inside h.1 h.2, glue_inside h.2 h.1]
      exact Std.OrientedCmp.eq_swap
    · rw [glue, glue, if_neg h, if_neg fun h' => h h'.symm]
      exact Std.OrientedCmp.eq_swap

instance [Std.LawfulEqCmp inside] [Std.LawfulEqCmp outside] :
    Std.LawfulEqCmp (glue P inside outside) where
  compare_self {a} := by
    rw [glue]
    split_ifs
    · exact Std.ReflCmp.compare_self
    · exact Std.ReflCmp.compare_self
  eq_of_compare {a b} h := by
    rw [glue] at h
    split_ifs at h
    · exact Std.LawfulEqCmp.eq_of_compare h
    · exact Std.LawfulEqCmp.eq_of_compare h

/-- An element outside of the set comes between two elements inside that are compared the other
way round. -/
structure Wedged (P : α → Prop) (inside outside : α → α → Ordering) (a b c : α) : Prop where
  outer : ¬ P a
  inner : P b ∧ P c
  before : outside c a = .lt
  behind : outside a b = .lt
  reversed : inside b c = .lt

theorem Wedged.cyclic (h : Wedged P inside outside a b c) :
    Cyclic (glue P inside outside) a b c where
  first := (glue_left h.outer).trans h.behind
  second := (glue_inside h.inner.1 h.inner.2).trans h.reversed
  third := (glue_right h.outer).trans h.before

theorem Cyclic.wedged (h : Cyclic (glue P inside outside) a b c) (ha : ¬ P a) (hb : P b)
    (hc : P c) : Wedged P inside outside a b c where
  outer := ha
  inner := ⟨hb, hc⟩
  before := (glue_right ha).symm.trans h.third
  behind := (glue_left ha).symm.trans h.first
  reversed := (glue_inside hb hc).symm.trans h.second

theorem Cyclic.inside_of_not [Std.TransCmp outside] (h : Cyclic (glue P inside outside) a b c)
    (ha : ¬ P a) : P b := by
  by_contra hb
  have houtside : Cyclic outside a b c := ⟨(glue_left ha).symm.trans h.first,
    (glue_left hb).symm.trans h.second, (glue_right ha).symm.trans h.third⟩
  exact not_cyclic houtside

theorem cyclic_glue_iff [Std.TransCmp inside] [Std.TransCmp outside] :
    Cyclic (glue P inside outside) a b c ↔
      Wedged P inside outside a b c ∨ Wedged P inside outside b c a ∨
        Wedged P inside outside c a b := by
  constructor
  · intro h
    have hsome : ¬ (P a ∧ P b ∧ P c) := by
      rintro ⟨ha, hb, hc⟩
      have hinside : Cyclic inside a b c := ⟨(glue_inside ha hb).symm.trans h.first,
        (glue_inside hb hc).symm.trans h.second, (glue_inside hc ha).symm.trans h.third⟩
      exact not_cyclic hinside
    by_cases ha : P a
    · by_cases hb : P b
      · have hc : ¬ P c := fun hc => hsome ⟨ha, hb, hc⟩
        exact .inr (.inr (h.rotate.rotate.wedged hc ha hb))
      · exact .inr (.inl (h.rotate.wedged hb (h.rotate.inside_of_not hb) ha))
    · have hb := h.inside_of_not ha
      by_cases hc : P c
      · exact .inl (h.wedged ha hb hc)
      · exact absurd (h.rotate.rotate.inside_of_not hc) ha
  · rintro (h | h | h)
    · exact h.cyclic
    · exact h.cyclic.rotate.rotate
    · exact h.cyclic.rotate

end Glue

end Zui
