import Mathlib.Algebra.BigOperators.Group.List.Basic
import Mathlib.Algebra.Order.Field.Basic
import Mathlib.Tactic.FieldSimp
import Mathlib.Tactic.Ring

/-!
# Moments about a shift

Sums of deviations over a list of rows. The product sum about the means does not depend on
what the deviations were taken from, and neither does the mean that is recovered from them.
-/

namespace Comoment

variable {ι K : Type} [Field K]

def total (rows : List ι) (f : ι → K) : K := (rows.map f).sum

theorem total_concat (rows : List ι) (row : ι) (f : ι → K) : total
      (rows ++ [row]) f = total rows f + f row := by
  simp [total]

theorem total_cons (row : ι) (rows : List ι) (f : ι → K) : total
      (row :: rows) f = f row + total rows f := by
  simp [total]

theorem total_shift (rows : List ι) (f : ι → K) (a : K) : total rows
      (fun row => f row - a) = total rows f - rows.length * a := by
  induction rows with
  | nil => simp [total]
  | cons row rows ih =>
    rw [total_cons, ih, total_cons, List.length_cons]
    push_cast
    ring

theorem total_product_shift (rows : List ι) (f g : ι → K) (a b : K) :
    total rows (fun row => (f row - a) * (g row - b)) =
      total rows (fun row => f row * g row) - b * total rows f - a * total rows g +
        rows.length * (a * b) := by
  induction rows with
  | nil => simp [total]
  | cons row rows ih =>
    rw [total_cons, ih, total_cons, total_cons, total_cons, List.length_cons]
    push_cast
    ring

def comoment (rows : List ι) (f g : ι → K) : K :=
  total rows (fun row => f row * g row) - total rows f * total rows g / rows.length

/-- The sum of products about the means is the same for deviations from any point. -/
theorem comoment_shift {rows : List ι} (size : (rows.length : K) ≠ 0) (f g : ι → K) (a b : K) :
    comoment rows (fun row => f row - a) (fun row => g row - b) = comoment rows f g := by
  rw [comoment, total_product_shift, total_shift, total_shift, comoment]
  field_simp
  ring

/-- The mean is the point of reference and the mean deviation from it. -/
theorem mean_shift {rows : List ι} (size : (rows.length : K) ≠ 0) (f : ι → K) (a : K) :
    a + total rows (fun row => f row - a) / rows.length = total rows f / rows.length := by
  rw [total_shift]
  field_simp
  ring

theorem total_centered {rows : List ι} (size : (rows.length : K) ≠ 0) (f : ι → K) :
    total rows (fun row => f row - total rows f / rows.length) = 0 := by
  rw [total_shift]
  field_simp
  ring

end Comoment
