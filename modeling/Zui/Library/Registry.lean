/-
Registries that are rolled back by their length.

A `Registry` is a list of nodes, each with the id that was last registered at it, and an index of
the nodes at which ids were registered.  A `Script` is what a caller does with one: it registers
ids at the active node, adds nodes, and runs transactions, which are rolled back when they fail.
The rollback cuts the nodes off that were added, and takes their ids out of the index.

* `own`, `inner` — what a script registers at the active node, and the nodes that it adds;
* `fate` — what happens last to an id;
* `run_nodes`, `run_index` — a run from any registry, in these terms;
* `rollback_eq_iff` — when a rollback gives the registry back from before the script.
-/
import Mathlib

namespace Zui

/-! ### Scripts -/

/-- Calls one after another, some of them inside nodes and transactions. -/
inductive Script (α : Type)
  | done
  | call (a : α) (rest : Script α)
  | node (body rest : Script α)
  | transact (body : Script α) (failed : Bool) (rest : Script α)

namespace Script

variable {α β : Type}

/-- All calls, in order. -/
def calls : Script α → List α
  | done => []
  | call a rest => a :: rest.calls
  | node body rest => body.calls ++ rest.calls
  | transact body _ rest => body.calls ++ rest.calls

/-- The script with some of its calls, changed. -/
def filterMap (f : α → Option β) : Script α → Script β
  | done => done
  | call a rest =>
    match f a with
    | some b => call b (rest.filterMap f)
    | none => rest.filterMap f
  | node body rest => node (body.filterMap f) (rest.filterMap f)
  | transact body failed rest => transact (body.filterMap f) failed (rest.filterMap f)

end Script

/-! ### Registries -/

/-- Nodes with the last id of each, and the nodes of ids. -/
@[ext] structure Registry (ι : Type) where
  nodes : List (Option ι)
  index : ι → Option ℕ

variable {ι : Type} [DecidableEq ι]

namespace Registry

/-- A new node. -/
def push (self : Registry ι) : Registry ι := { self with nodes := self.nodes ++ [none] }

/-- An id at a node. -/
def register (i : ι) (node : ℕ) (self : Registry ι) : Registry ι where
  nodes := self.nodes.set node (some i)
  index := Function.update self.index i (some node)

/-- The nodes from a number on cut off. -/
def truncate (length : ℕ) (self : Registry ι) : Registry ι where
  nodes := self.nodes.take length
  index i := if some i ∈ self.nodes.drop length then none else self.index i

theorem index_register (i j : ι) (node : ℕ) (self : Registry ι) :
    (self.register j node).index i = if j = i then some node else self.index i := by
  rw [register]
  by_cases h : i = j
  · simp [h]
  · simp [h, Ne.symm h]

theorem index_truncate (i : ι) (length : ℕ) (self : Registry ι) :
    (self.truncate length).index i = if some i ∈ self.nodes.drop length then none
      else self.index i := rfl

end Registry

namespace Script

/-- A script of registrations, with an active node. -/
def run (active : ℕ) : Script ι → Registry ι → Registry ι
  | done, self => self
  | call i rest, self => rest.run active (self.register i active)
  | node body rest, self => rest.run active (body.run self.nodes.length self.push)
  | transact body failed rest, self =>
    let after := body.run active self
    rest.run active (if failed then after.truncate self.nodes.length else after)

/-- The last id that a script registers at the active node. -/
def own : Script ι → Option ι
  | done => none
  | call i rest => rest.own.or (some i)
  | node _ rest => rest.own
  | transact body _ rest => rest.own.or body.own

/-- The nodes that a script adds and does not cut off again, with the last id of each. -/
def inner : Script ι → List (Option ι)
  | done => []
  | call _ rest => rest.inner
  | node body rest => body.own :: (body.inner ++ rest.inner)
  | transact body failed rest => (if failed then [] else body.inner) ++ rest.inner

/-- What happens last to an id when the script runs with an active node and a number of nodes:
nothing, or it is put at a node or taken out. -/
def fate (i : ι) (active : ℕ) : ℕ → Script ι → Option (Option ℕ)
  | _, done => none
  | length, call j rest =>
    (rest.fate i active length).or (if j = i then some (some active) else none)
  | length, node body rest =>
    (rest.fate i active (length + 1 + body.inner.length)).or
      (body.fate i length (length + 1))
  | length, transact body failed rest =>
    (rest.fate i active (length + if failed then 0 else body.inner.length)).or
      ((if failed ∧ some i ∈ body.inner then some none else none).or
        (body.fate i active length))

/-! ### What a run leaves -/

/-- Another last id at a node, if there is one. -/
def setAt (id : Option ι) (node : ℕ) (nodes : List (Option ι)) : List (Option ι) :=
  match id with
  | some i => nodes.set node (some i)
  | none => nodes

omit [DecidableEq ι] in
@[simp] theorem length_setAt (id : Option ι) (node : ℕ) (nodes : List (Option ι)) :
    (setAt id node nodes).length = nodes.length := by
  cases id <;> simp [setAt]

omit [DecidableEq ι] in
theorem setAt_append {id : Option ι} {node : ℕ} {nodes : List (Option ι)} (h : node < nodes.length)
    (more : List (Option ι)) : setAt id node (nodes ++ more) = setAt id node nodes ++ more := by
  cases id with
  | none => rfl
  | some i => exact List.set_append_left node (some i) h

omit [DecidableEq ι] in
theorem setAt_setAt (id id' : Option ι) (node : ℕ) (nodes : List (Option ι)) :
    setAt id' node (setAt id node nodes) = setAt (id'.or id) node nodes := by
  cases id' with
  | none => cases id <;> rfl
  | some i =>
    cases id with
    | none => rfl
    | some j => exact List.set_set (some j)

/-- **Nodes.**  A run sets the last id of the active node and adds the inner ones. -/
theorem run_nodes (script : Script ι) : ∀ {active : ℕ} {self : Registry ι},
    active < self.nodes.length →
      (script.run active self).nodes = setAt script.own active self.nodes ++ script.inner := by
  induction script with
  | done =>
    intro active self _
    simp [run, own, inner, setAt]
  | call i rest ih =>
    intro active self h
    rw [run, ih (by simpa [Registry.register] using h), own, inner]
    show setAt rest.own active (setAt (some i) active self.nodes) ++ _ = _
    rw [setAt_setAt]
  | node body rest ihbody ihrest =>
    intro active self h
    have hpush : self.nodes.length < self.push.nodes.length := by simp [Registry.push]
    have hbody := ihbody hpush
    have hnode : (body.run self.nodes.length self.push).nodes
        = self.nodes ++ (body.own :: body.inner) := by
      rw [hbody]
      cases hown : body.own <;> simp [setAt, Registry.push]
    rw [run, ihrest (by rw [hnode, List.length_append]; omega), hnode, setAt_append h, own, inner,
      List.append_assoc, List.cons_append]
  | transact body failed rest ihbody ihrest =>
    intro active self h
    have hbody := ihbody h
    rw [run, own, inner]
    cases failed with
    | true =>
      have hcut : ((body.run active self).truncate self.nodes.length).nodes
          = setAt body.own active self.nodes := by
        rw [Registry.truncate, hbody]
        exact List.take_left' (length_setAt _ _ _)
      rw [if_pos rfl, ihrest (by rwa [hcut, length_setAt]), hcut, setAt_setAt]
      rfl
    | false =>
      have hlt : active < (setAt body.own active self.nodes).length := by rwa [length_setAt]
      rw [if_neg (by simp), ihrest (by rw [hbody, List.length_append]; omega), hbody,
        setAt_append hlt, setAt_setAt, List.append_assoc]
      rfl

/-- **The index.**  What happens last to an id decides where it is. -/
theorem run_index (script : Script ι) (i : ι) : ∀ {active : ℕ} {self : Registry ι},
    active < self.nodes.length →
      (script.run active self).index i
        = (script.fate i active self.nodes.length).getD (self.index i) := by
  induction script with
  | done =>
    intro active self _
    rfl
  -- the last registration of an id counts, so the rest goes first
  | call j rest ih =>
    intro active self h
    have hlength : (self.register j active).nodes.length = self.nodes.length := List.length_set
    rw [run, ih (by rwa [hlength]), hlength, fate, Option.getD_or]
    congr 1
    rw [Registry.index_register]
    by_cases hij : j = i
    · simp [hij]
    · simp [hij]
  | node body rest ihbody ihrest =>
    intro active self h
    -- the body runs with the new node as the active one
    have hpush : self.nodes.length < self.push.nodes.length := by simp [Registry.push]
    have hlength : (body.run self.nodes.length self.push).nodes.length
        = self.nodes.length + 1 + body.inner.length := by
      rw [run_nodes body hpush, List.length_append, length_setAt]
      simp [Registry.push]
    have hbody := ihbody hpush
    rw [show self.push.nodes.length = self.nodes.length + 1 by simp [Registry.push]] at hbody
    rw [run, ihrest (by omega), hlength, hbody, fate, Option.getD_or]
    rfl
  | transact body failed rest ihbody ihrest =>
    intro active self h
    have hbody := ihbody h
    have hnodes := run_nodes body h
    rw [run, fate]
    cases failed with
    | true =>
      -- the nodes of the body are cut off, and with them the ids that they registered
      have hcut : (body.run active self).nodes.drop self.nodes.length = body.inner := by
        rw [hnodes]
        exact List.drop_left' (length_setAt _ _ _)
      have hlength : ((body.run active self).truncate self.nodes.length).nodes.length
          = self.nodes.length := by
        rw [Registry.truncate, List.length_take, hnodes, List.length_append, length_setAt]
        omega
      rw [if_pos rfl, ihrest (by omega), hlength, Registry.index_truncate, hcut, hbody,
        Option.getD_or, Option.getD_or]
      by_cases hmem : some i ∈ body.inner
      · simp [hmem]
      · simp [hmem]
    | false =>
      have hlength : (body.run active self).nodes.length
          = self.nodes.length + body.inner.length := by
        rw [hnodes, List.length_append, length_setAt]
      rw [if_neg (by simp), ihrest (by omega), hlength, hbody, Option.getD_or]
      simp

/-- A script whose rollback undoes it: the active node had the id that it has last, and each id was
where it is last, or was not there when it is taken out. -/
structure Undone (script : Script ι) (active : ℕ) (before : Registry ι) : Prop where
  own : ∀ i, script.own = some i → before.nodes[active]? = some (some i)
  index : ∀ i place, (transact script true done).fate i active before.nodes.length = some place →
    before.index i = place

/-- **Rollback.**  It gives the registry back exactly when the script is undone. -/
theorem rollback_eq_iff {script : Script ι} {active : ℕ} {self : Registry ι}
    (h : active < self.nodes.length) :
    (script.run active self).truncate self.nodes.length = self ↔ script.Undone active self := by
  have hnodes : ((script.run active self).truncate self.nodes.length).nodes
      = setAt script.own active self.nodes := by
    rw [Registry.truncate, run_nodes script h]
    exact List.take_left' (length_setAt _ _ _)
  have hindex : ∀ i, ((script.run active self).truncate self.nodes.length).index i
      = ((transact script true done).fate i active self.nodes.length).getD (self.index i) :=
    fun i => run_index (transact script true done) i h
  constructor
  · intro heq
    rw [heq] at hnodes hindex
    refine ⟨fun i hi => ?_, fun i place hplace => ?_⟩
    · rw [hnodes, hi]
      simp [setAt, h]
    · rw [hindex i, hplace]
      rfl
  · intro hundone
    refine Registry.ext ?_ (funext fun i => ?_)
    · rw [hnodes]
      cases hown : script.own with
      | none => rfl
      | some i =>
        obtain ⟨hlt, hget⟩ := List.getElem?_eq_some_iff.mp (hundone.own i hown)
        show self.nodes.set active (some i) = self.nodes
        rw [← hget]
        exact List.set_getElem_self hlt
    · rw [hindex]
      cases hfate : (transact script true done).fate i active self.nodes.length with
      | none => rfl
      | some place => exact (hundone.index i place hfate).symm

end Script

end Zui
