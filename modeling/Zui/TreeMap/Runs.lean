/-
Runs of commands on a `TreeMap`.

A `Command` is a call that changes a map.  `apply` says what it does to a finite map,
and what it returns there.  A run of commands on a `TreeMap` returns what the run on
the finite map returns, and behind it the queries agree (`Agrees`), as long as every
tree that the run comes to has at most 16 levels.
-/
import Zui.TreeMap.Refinement

namespace Zui

open SumTree Cursor

namespace TreeMap

/-- The calls that change a map. -/
inductive Command (K V R : Type)
  | insert (key : K) (value : V)
  | insertOrReplace (key : K) (value : V)
  | remove (key : K)
  | update (key : K) (f : V → V × R)
  | retain (predicate : K → V → Bool)
  | clear

/-- What a command returns. -/
inductive Output (V R : Type)
  | unit
  | value (value : Option V)
  | result (result : Option R)

namespace Command

variable {K V R : Type} [LinearOrder K]

/-- The call. -/
def run : Command K V R → TreeMap K V → Result (TreeMap K V × Output V R)
  | insert key value, self => do
    let self ← self.insert key value
    .ok (self, .unit)
  | insertOrReplace key value, self => do
    let (self, replaced) ← self.insertOrReplace key value
    .ok (self, .value replaced)
  | remove key, self => do
    let (self, removed) ← self.remove key
    .ok (self, .value removed)
  | update key f, self => do
    let (self, result) ← self.update key f
    .ok (self, .result result)
  | retain predicate, self => do
    let self ← self.retain predicate
    .ok (self, .unit)
  | clear, self => .ok (self.clear, .unit)

/-- What the command does to a finite map. -/
def apply : Command K V R → (K → Option V) → (K → Option V) × Output V R
  | insert key value, m => (Function.update m key (some value), .unit)
  | insertOrReplace key value, m => (Function.update m key (some value), .value (m key))
  | remove key, m => (Function.update m key none, .value (m key))
  | update key f, m => (Function.update m key ((m key).map fun value => (f value).1),
      .result ((m key).map fun value => (f value).2))
  | retain predicate, m => (fun key => (m key).filter (predicate key), .unit)
  | clear, _ => (fun _ => none, .unit)

/-- A run of commands, with everything that they return. -/
def runAll : List (Command K V R) → TreeMap K V → Result (TreeMap K V × List (Output V R))
  | [], self => .ok (self, [])
  | command :: commands, self => do
    let (self, output) ← command.run self
    let (self, outputs) ← runAll commands self
    .ok (self, output :: outputs)

/-- What a run does to a finite map. -/
def applyAll : List (Command K V R) → (K → Option V) → (K → Option V) × List (Output V R)
  | [], m => (m, [])
  | command :: commands, m =>
    ((applyAll commands (command.apply m).1).1,
      (command.apply m).2 :: (applyAll commands (command.apply m).1).2)

/-- All trees of a run have at most 16 levels. -/
def FitsAll : List (Command K V R) → TreeMap K V → Prop
  | [], self => self.tree.height ≤ 15
  | command :: commands, self => self.tree.height ≤ 15 ∧
      ∀ self' output, command.run self = .ok (self', output) → FitsAll commands self'

variable {self : TreeMap K V} {m : K → Option V}

/-- A command returns what it returns on the finite map, and the maps stay
together. -/
theorem run_spec (command : Command K V R) (hm : self.Refines m)
    (hheight : self.tree.height ≤ 15) :
    ∃ self', command.run self = .ok (self', (command.apply m).2) ∧
      self'.Refines (command.apply m).1 := by
  cases command with
  | insert key value =>
    obtain ⟨self', hrun, hrefines⟩ := insert_spec key value hm hheight
    exact ⟨self', by rw [run, hrun]; rfl, hrefines⟩
  | insertOrReplace key value =>
    obtain ⟨self', hrun, hrefines⟩ := insertOrReplace_spec key value hm hheight
    exact ⟨self', by rw [run, hrun]; rfl, hrefines⟩
  | remove key =>
    obtain ⟨self', hrun, hrefines⟩ := remove_spec key hm hheight
    exact ⟨self', by rw [run, hrun]; rfl, hrefines⟩
  | update key f =>
    obtain ⟨self', hrun, hrefines⟩ := update_spec key f hm hheight
    exact ⟨self', by rw [run, hrun]; rfl, hrefines⟩
  | retain predicate =>
    obtain ⟨self', hrun, hrefines⟩ := retain_spec predicate hm hheight
    exact ⟨self', by rw [run, hrun]; rfl, hrefines⟩
  | clear => exact ⟨self.clear, rfl, clear_spec⟩

theorem runAll_spec : ∀ (commands : List (Command K V R)) {self : TreeMap K V} {m : K → Option V},
    self.Refines m → FitsAll commands self →
    ∃ self', runAll commands self = .ok (self', (applyAll commands m).2) ∧
      self'.Refines (applyAll commands m).1 ∧ self'.tree.height ≤ 15 := by
  intro commands
  induction commands with
  | nil =>
    intro self m hm hfits
    exact ⟨self, rfl, hm, hfits⟩
  | cons command commands ih =>
    intro self m hm hfits
    obtain ⟨hheight, hrest⟩ := hfits
    obtain ⟨self₁, hrun, hm₁⟩ := command.run_spec hm hheight
    obtain ⟨self', hruns, hm', hheight'⟩ := ih hm₁ (hrest self₁ _ hrun)
    refine ⟨self', ?_, hm', hheight'⟩
    rw [runAll]
    simp only [hrun, hruns, ok_bind]
    rfl

end Command

variable {K V : Type} [LinearOrder K]

/-- The queries of a map return what they should on a finite map. -/
structure Agrees (map : TreeMap K V) (m : K → Option V) : Prop where
  iter : ∃ entries, map.iter = .ok entries ∧ Entries entries m ∧
    ∀ k, map.iterFrom k = .ok (entries.filter fun entry => k ≤ entry.1)
  get : ∀ k, map.get k = m k
  containsKey : ∀ k, map.containsKey k = (m k).isSome
  closest : ∀ k, ∃ entry, map.closest k = .ok entry ∧ IsClosest m k entry

theorem Refines.agrees {self : TreeMap K V} {m : K → Option V} (hm : self.Refines m)
    (hheight : self.tree.height ≤ 15) : self.Agrees m where
  iter := ⟨self.pairs, iter_spec hm hheight, hm.entries, iterFrom_spec hm hheight⟩
  get := get_spec hm
  containsKey := containsKey_spec hm
  closest := closest_spec hm hheight

/-- Runs of commands follow the finite map from a start on. -/
def Follows (start : TreeMap K V) (m : K → Option V) : Prop :=
  ∀ {R : Type} (commands : List (Command K V R)), Command.FitsAll commands start →
    ∃ self, Command.runAll commands start = .ok (self, (Command.applyAll commands m).2) ∧
      self.Agrees (Command.applyAll commands m).1

theorem Refines.follows {start : TreeMap K V} {m : K → Option V} (hm : start.Refines m) :
    start.Follows m := by
  intro R commands hfits
  obtain ⟨self, hrun, hrefines, hheight⟩ := Command.runAll_spec commands hm hfits
  exact ⟨self, hrun, hrefines.agrees hheight⟩

end TreeMap

open TreeMap

/-- **Maps.**  From the empty map, or one of ordered entries, every run of commands
returns what it returns on a finite map, none of its calls panics, and the queries
behind it agree with the finite map. -/
theorem map_refines_finite_map {K V : Type} [LinearOrder K] :
    (empty : TreeMap K V).Follows (fun _ => none) ∧
    ∀ entries : List (K × V), entries.Pairwise (fun a b => a.1 < b.1) →
      entries.length ≤ (2 * TREE_BASE) ^ 256 →
      ∃ start, fromOrderedEntries entries = .ok start ∧ start.Follows (lookupEntry entries) := by
  refine ⟨empty_spec.follows, fun entries hs hlen => ?_⟩
  obtain ⟨start, hrun, -, hm⟩ := fromOrderedEntries_spec hs hlen
  exact ⟨start, hrun, hm.follows⟩

/-- The theorem at a run of an insertion and a removal on a map of one entry. -/
theorem map_refines_finite_map_pair :
    ∃ start self : TreeMap ℕ ℕ, fromOrderedEntries [(1, 10)] = .ok start ∧
      Command.runAll (R := ℕ) [.insertOrReplace 2 20, .remove 1] start
        = .ok (self, [.value none, .value (some 10)]) ∧
      self.get 1 = none ∧ self.get 2 = some 20 := by
  obtain ⟨start, hstart, hfollows⟩ := map_refines_finite_map.2 [((1 : ℕ), (10 : ℕ))] (by simp)
    (by decide +kernel)
  have hfits : Command.FitsAll (R := ℕ) [.insertOrReplace 2 20, .remove 1] start := by
    obtain rfl := Except.ok.inj hstart
    refine ⟨by decide, fun self output hrun => ?_⟩
    obtain ⟨rfl, rfl⟩ := Prod.mk.inj (Except.ok.inj hrun)
    refine ⟨by decide, fun self output hrun => ?_⟩
    obtain ⟨rfl, rfl⟩ := Prod.mk.inj (Except.ok.inj hrun)
    show SumTree.height _ ≤ 15
    decide
  obtain ⟨self, hrun, hagrees⟩ := hfollows _ hfits
  exact ⟨start, self, hstart, hrun, hagrees.get 1, hagrees.get 2⟩

/-- Entries for more than 16 levels. -/
def manyEntries : List (ℕ × Unit) := (List.range (maxItems + 1)).map fun k => (k, ())

/-- A map of more entries than 16 levels hold cannot be enumerated. -/
theorem map_limit : manyEntries.Pairwise (fun a b => a.1 < b.1) ∧
    ∃ self, fromOrderedEntries manyEntries = .ok self ∧ self.iter = .error .capacity := by
  have hs : manyEntries.Pairwise (fun a b => a.1 < b.1) := by
    rw [manyEntries, List.pairwise_map]
    exact List.pairwise_lt_range
  have hlen : manyEntries.length = maxItems + 1 := by simp [manyEntries]
  have hroom : maxItems + 1 ≤ (2 * TREE_BASE) ^ 256 := by decide +kernel
  refine ⟨hs, ?_⟩
  obtain ⟨self, hrun, hpairs, hm⟩ := fromOrderedEntries_spec hs (by omega)
  have hitems : self.tree.toList.length = maxItems + 1 := by
    rw [← hlen, ← hpairs, pairs, List.length_map]
  -- A tree of at most 16 levels has no room for that many entries.
  have hdeep : ¬ self.tree.height ≤ 15 := by
    intro hheight
    have := hm.valid.length_toList_le hheight
    omega
  refine ⟨self, hrun, ?_⟩
  rcases hm.valid with hnew | ⟨h, hw⟩
  · rw [hnew] at hdeep
    exact absurd (Nat.zero_le 15) hdeep
  · rw [hw.height_eq] at hdeep
    rw [iter, Iter.collect_deep hw (by omega)]
    rfl

end Zui
