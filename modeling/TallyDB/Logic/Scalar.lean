import Mathlib.Algebra.Order.Field.Basic

/-!
# Scalars and exact arithmetic

The operations a numeric kernel asks of its numbers, and what it means that they are exact:
the finite numbers are those of an ordered field. Nothing is said of the others, nor of
roots, beyond that an operation gives the same result for the same operands.
-/

namespace Numeric

/-- An ordered field, in one class. -/
class OrderedField (K : Type) extends Field K, LinearOrder K, IsStrictOrderedRing K

class Scalar (V : Type) extends Add V, Sub V, Mul V, Div V, Neg V where
  /-- A count as a number. -/
  ofNat : Nat → V
  /-- The literal `1e<exponent>`. -/
  decimal : Int → V
  sqrt : V → V
  /-- The root of the sum of the squares. -/
  hypot : V → V → V
  max : V → V → V
  /-- The nearest number between two. -/
  clamp : V → V → V → V
  le : V → V → Bool
  lt : V → V → Bool
  isNan : V → Bool
  isFinite : V → Bool
  nan : V
  /-- A number as a count. -/
  toNat : V → Nat

namespace Scalar

variable {V : Type} [Scalar V]

def total (values : List V) : V := values.foldl (· + ·) (ofNat 0)

end Scalar

/-- The finite scalars are the numbers of an ordered field, on which arithmetic is exact. -/
structure IsExact {K V : Type} [OrderedField K] [Scalar V] (num : K → V) : Prop where
  finite : ∀ value, Scalar.isFinite value = true ↔ ∃ k, num k = value
  ofNat (count : Nat) : Scalar.ofNat count = num count
  toNat (count : Nat) : Scalar.toNat (num count) = count
  neg (a : K) : -num a = num (-a)
  add (a b : K) : num a + num b = num (a + b)
  sub (a b : K) : num a - num b = num (a - b)
  mul (a b : K) : num a * num b = num (a * b)
  div (a : K) {b : K} : b ≠ 0 → num a / num b = num (a / b)
  le (a b : K) : Scalar.le (num a) (num b) = decide (a ≤ b)
  isNan (a : K) : Scalar.isNan (num a) = false

/-- No number comes of a division of zero by zero, nor of what is computed with it. -/
structure QuietNan {K V : Type} [OrderedField K] [Scalar V] (num : K → V) : Prop where
  zero_div_zero : Scalar.isNan (num 0 / num 0) = true
  sub {a : V} (b : V) : Scalar.isNan a = true → Scalar.isNan (a - b) = true
  mul {a : V} (b : V) : Scalar.isNan a = true → Scalar.isNan (a * b) = true
  div {a : V} (b : V) : Scalar.isNan a = true → Scalar.isNan (a / b) = true
  sqrt {a : V} : Scalar.isNan a = true → Scalar.isNan (Scalar.sqrt a) = true
  le {a : V} (b : V) : Scalar.isNan a = true → Scalar.le a b = false
  sqrt_zero : Scalar.sqrt (num 0) = num 0
  max_zero : Scalar.max (num 0) (num 0) = num 0

namespace IsExact

variable {K V : Type} [OrderedField K] [Scalar V] {num : K → V}

open Classical in
noncomputable def number (_ : IsExact num) (value : V) : K :=
  if some_ : ∃ k, num k = value then some_.choose else 0

theorem num_number (exact : IsExact num) {value : V} (finite : Scalar.isFinite value = true) : num
      (exact.number value) = value := by
  have some_ := (exact.finite value).mp finite
  rw [number, dif_pos some_]
  exact some_.choose_spec

theorem total_num (exact : IsExact num) {ι : Type} (rows : List ι) (f : ι → K) :
    Scalar.total (rows.map fun row => num (f row)) = num (rows.map f).sum := by
  have from_ (start : K) : (rows.map fun row => num (f row)).foldl (· + ·) (num start) = num
      (start + (rows.map f).sum) := by
    induction rows generalizing start with
    | nil => simp
    | cons row rows ih =>
        rw [List.map_cons, List.foldl_cons, exact.add, ih, List.map_cons, List.sum_cons, add_assoc]
  rw [Scalar.total, exact.ofNat, Nat.cast_zero, from_, zero_add]

end IsExact

end Numeric
