/-
Seeking by height.

A seek passes the items that end in front of its target, and with a right bias those that end at it.
Where it stops is thus known from the heights of the items in front of each item.

Main statements:

* `seekHeight_found` — where a seek stops, and what it has passed;
* `heightOf_take_le` — what is further down a list of heights that are not negative is not higher
  up. -/
import Zui.ListElement.Basic

namespace Zui.ListElement

/-! ### Heights -/

@[simp] theorem heightOf_nil : heightOf [] = 0 := rfl

theorem heightOf_append (items items' : List ListItem) :
    heightOf (items ++ items') = heightOf items + heightOf items' := by
  rw [heightOf, List.map_append, List.sum_append]
  rfl

theorem heightOf_take_succ {items : List ListItem} {ix : ℕ} {item : ListItem}
    (h : items[ix]? = some item) :
    heightOf (items.take (ix + 1)) = heightOf (items.take ix) + item.height := by
  rw [heightOf, heightOf, List.take_add_one, h, Option.toList_some, List.map_append,
    List.sum_append]
  simp

theorem heightOf_take_of_length_le {items : List ListItem} {ix : ℕ} (h : items.length ≤ ix) :
    heightOf (items.take ix) = heightOf items := by
  rw [List.take_of_length_le h]

/-- No item has a negative height. -/
def HeightsNonneg (items : List ListItem) : Prop := ∀ item ∈ items, 0 ≤ item.height

/-- What is further down is not higher up. -/
theorem heightOf_take_le {items : List ListItem} (h : HeightsNonneg items) {i j : ℕ} (hij : i ≤ j) :
    heightOf (items.take i) ≤ heightOf (items.take j) := by
  induction j, hij using Nat.le_induction with
  | base => exact le_rfl
  | succ j hij ih =>
    cases hitem : items[j]? with
    | none =>
      rw [List.getElem?_eq_none_iff] at hitem
      rw [heightOf_take_of_length_le (Nat.le_succ_of_le hitem), ← heightOf_take_of_length_le hitem]
      exact ih
    | some item =>
      have hnonneg := h item (List.mem_of_getElem? hitem)
      rw [heightOf_take_succ hitem]
      linarith

theorem heightOf_take_nonneg {items : List ListItem} (h : HeightsNonneg items) (i : ℕ) :
    0 ≤ heightOf (items.take i) := by
  have hle := heightOf_take_le h (Nat.zero_le i)
  rwa [List.take_zero, heightOf_nil] at hle

theorem heightOf_take_le_heightOf {items : List ListItem} (h : HeightsNonneg items) (i : ℕ) :
    heightOf (items.take i) ≤ heightOf items := by
  rcases Nat.le_total i items.length with hi | hi
  · have hle := heightOf_take_le h hi
    rwa [heightOf_take_of_length_le le_rfl] at hle
  · rw [heightOf_take_of_length_le hi]

/-! ### Seeks -/

/-- An item with such an end is passed by a seek. -/
def Passes (bias : Bias) (target childEnd : ℚ) : Prop :=
  childEnd < target ∨ (childEnd = target ∧ bias = .right)

/-- Where a seek from an item on stops. -/
structure Found (bias : Bias) (target : ℚ) (items : List ListItem) (ix : ℕ)
    (stop : ℕ × ℚ) : Prop where
  le : ix ≤ stop.1
  length : stop.1 ≤ items.length
  height : stop.2 = heightOf (items.take stop.1)
  passed : ∀ k, ix ≤ k → k < stop.1 → Passes bias target (heightOf (items.take (k + 1)))
  stops : stop.1 < items.length → ¬ Passes bias target (heightOf (items.take (stop.1 + 1)))

theorem passHeight_found (bias : Bias) (target : ℚ) (items : List ListItem) :
    ∀ (rest : List ListItem) (ix : ℕ), items.drop ix = rest → ix ≤ items.length →
      Found bias target items ix (passHeight bias target rest (ix, heightOf (items.take ix))) := by
  intro rest
  induction rest with
  | nil =>
    intro ix hdrop hix
    have hlength : items.length ≤ ix := List.drop_eq_nil_iff.mp hdrop
    exact ⟨le_rfl, hix, rfl, fun k hk hk' => absurd hk (not_le.mpr hk'),
      fun hlt => absurd hlt (not_lt.mpr hlength)⟩
  | cons item rest ih =>
    intro ix hdrop hix
    have hitem : items[ix]? = some item := by
      rw [← Nat.add_zero ix, ← List.getElem?_drop, hdrop, List.getElem?_cons_zero]
    have hlt : ix < items.length := (List.getElem?_eq_some_iff.mp hitem).1
    have hend := heightOf_take_succ hitem
    rw [passHeight]
    split
    · next hpass =>
      have hnext := ih (ix + 1) (by rw [← List.drop_drop, hdrop, List.drop_one, List.tail_cons]) hlt
      rw [hend] at hnext
      refine ⟨(Nat.le_succ ix).trans hnext.le, hnext.length, hnext.height, ?_, hnext.stops⟩
      intro k hk hk'
      rcases Nat.eq_or_lt_of_le hk with rfl | hk
      · rw [hend]
        exact hpass
      · exact hnext.passed k hk hk'
    · next hstop =>
      refine ⟨le_rfl, hix, rfl, fun k hk hk' => absurd hk (not_le.mpr hk'), fun _ => ?_⟩
      rw [hend]
      exact hstop

/-- Where a seek stops. -/
theorem seekHeight_found (bias : Bias) (target : ℚ) {items : List ListItem} {ix : ℕ}
    (hix : ix ≤ items.length) : Found bias target items ix (seekHeight bias target items ix) := by
  rw [seekHeight, min_eq_left hix]
  exact passHeight_found bias target items _ ix rfl hix

namespace Found

variable {bias : Bias} {target : ℚ} {items : List ListItem} {ix : ℕ} {stop : ℕ × ℚ}

end Found

end Zui.ListElement
