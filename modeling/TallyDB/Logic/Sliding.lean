import Mathlib.Data.List.Basic
import Mathlib.Data.List.Range
import Mathlib.Tactic.Common

/-!
# Sliding windows

A sweep over rows holds one accumulator for the last `w` rows. It counts the marked rows of
the frame, holds nothing while there is one, and otherwise lets one row in and one out. The
invariant `Held` says what such a sweep has before each row.
-/

namespace TallyDB.Sliding

def span (lo hi : Nat) : List Nat := List.range' lo (hi - lo)

theorem mem_span {lo hi row : Nat} : row ∈ span lo hi ↔ lo ≤ row ∧ row < hi := by
  rw [span, List.mem_range'_1]
  omega

theorem span_length (lo hi : Nat) : (span lo hi).length = hi - lo := List.length_range'

theorem span_concat {lo hi : Nat} (inside : lo ≤ hi) : span lo (hi + 1) = span lo hi ++ [hi] := by
  rw [span, span, show hi + 1 - lo = hi - lo + 1 by
      omega, List.range'_1_concat, show lo + (hi - lo) = hi by omega]

theorem span_cons {lo hi : Nat} (inside : lo < hi) : span lo hi = lo :: span (lo + 1) hi := by
  rw [span, span, show hi - lo = hi - (lo + 1) + 1 by omega, List.range'_succ]

theorem span_self (row : Nat) : span row row = [] := by
  rw [span, Nat.sub_self, List.range'_zero]

/-- The first rows of two frames differ by the row that leaves. -/
theorem span_leaving (row bound : Nat) : span (row - (bound + 1))
      (row - bound) = if bound + 1 ≤ row then [row - (bound + 1)] else [] := by
  split
  · next leaves => rw [show row - bound = row - (bound + 1) + 1 by
        omega, span_cons (Nat.lt_succ_self _), span_self]
  · next stays => rw [show row - (bound + 1) = 0 by omega, show row - bound = 0 by omega, span_self]

theorem map_span (lo count : Nat) : (span 0 count).map (lo + ·) = span lo (lo + count) := by
  rw [span, span, List.map_add_range', Nat.add_zero, Nat.sub_zero, Nat.add_sub_cancel_left]

theorem slice_eq_map {α : Type} (fallback : α) (values : List α) {lo hi : Nat}
    (inside : hi ≤ values.length) :
    (values.drop lo).take (hi - lo) = (span lo hi).map (values.getD · fallback) := by
  refine List.ext_getElem ?_ fun i inside' inside'' => ?_
  · simp only [List.length_take, List.length_drop, List.length_map, span_length]
    omega
  · simp only [List.length_take, List.length_drop] at inside'
    simp only [List.getElem_take, List.getElem_drop, List.getElem_map, span,
      List.getElem_range', Nat.one_mul]
    rw [List.getD_eq_getElem?_getD, List.getElem?_eq_getElem, Option.getD_some]

/-! ### The frame of a row -/

variable (w : Nat)

/-- The rows that a sweep holds before a row: the `w` last ones. -/
def held (row : Nat) : List Nat := span (row - w) row

variable {w}

theorem held_zero : held w 0 = [] := by
  rw [held, Nat.zero_sub, span_self]

/-- A row enters, and the row `w` before it leaves if there is one. -/
theorem held_succ (w row : Nat) :
    held w row ++ [row] = if w ≤ row then (row - w) :: held w (row + 1) else held w (row + 1) := by
  rw [held, held, ← span_concat (Nat.sub_le row w)]
  split
  · next leaves =>
    rw [span_cons (show row - w < row + 1 by omega), show row - w + 1 = row + 1 - w by omega]
  · next stays =>
    rw [show row - w = row + 1 - w by omega]

theorem countP_held (w : Nat) (marked : Nat → Bool) (row : Nat) :
    (held w (row + 1)).countP marked + (if w ≤ row ∧ marked (row - w) then 1 else 0) =
      (held w row).countP marked + if marked row then 1 else 0 := by
  have counts := congrArg (List.countP marked) (held_succ w row)
  rw [List.countP_append, List.countP_singleton] at counts
  by_cases leaves : w ≤ row
  · rw [if_pos leaves, List.countP_cons] at counts
    simp only [leaves, true_and]
    omega
  · rw [if_neg leaves] at counts
    simp only [leaves, false_and, if_false]
    omega

/-- The count of marked rows after a row entered and another left. -/
def recount (w : Nat) (marked : Nat → Bool) (row count : Nat) : Nat :=
  let count := if marked row then count + 1 else count
  if w ≤ row ∧ marked (row - w) then count - 1 else count

theorem recount_eq (marked : Nat → Bool) (row : Nat) :
    recount w marked row ((held w row).countP marked) = (held w (row + 1)).countP marked := by
  have counts := countP_held w marked row
  unfold recount
  by_cases leaving : w ≤ row ∧ marked (row - w)
  · rw [if_pos leaving] at counts ⊢
    split at counts
    · next entering =>
      rw [if_pos entering]
      omega
    · next staying =>
      rw [if_neg staying]
      omega
  · rw [if_neg leaving] at counts ⊢
    split at counts
    · next entering =>
      rw [if_pos entering]
      omega
    · next staying =>
      rw [if_neg staying]
      omega

/-! ### The invariant of a sweep -/

variable {A : Type}

/-- What an accumulator holds is kept as unmarked rows enter at the end and leave in front. -/
structure Slides (marked : Nat → Bool) (holds : A → List Nat → Prop)
    (enter leave : A → Nat → A) : Prop where
  enter : ∀ acc rows row, holds acc rows → marked row = false → holds (enter acc row) (rows ++ [row])
  leave : ∀ acc rows row, holds acc (row :: rows) → marked row = false → holds (leave acc row) rows

/-- Before a row, the sweep has the count of the marked rows of the last frame. Unless `limit`
slides have passed since it was built, the accumulator holds the frame, in which no row is marked.
-/
structure Held (marked : Nat → Bool) (holds : A → List Nat → Prop) (w limit row : Nat) (acc : A)
    (count since : Nat) : Prop where
  counted : count = (held w row).countP marked
  holding : since < limit → count = 0 ∧ holds acc (held w row)

variable {marked : Nat → Bool} {holds : A → List Nat → Prop} {limit row count since : Nat} {acc : A}

theorem Held.start (acc : A) (rebuilds : limit ≤ since) : Held marked holds w limit 0 acc 0 since where
  counted := by rw [held_zero, List.countP_nil]
  holding slid := absurd slid (Nat.not_lt_of_le rebuilds)

theorem Held.recounted (before : Held marked holds w limit row acc count since) :
    recount w marked row count = (held w (row + 1)).countP marked := by
  rw [before.counted, recount_eq]

/-- A frame with a marked row makes the next one build the accumulator. -/
theorem Held.dirtied (before : Held marked holds w limit row acc count since) {never : Nat}
    (rebuilds : limit ≤ never) :
    Held marked holds w limit (row + 1) acc (recount w marked row count) never where
  counted := before.recounted
  holding slid := absurd slid (Nat.not_lt_of_le rebuilds)

theorem Held.unmarked (before : Held marked holds w limit row acc count since)
    (clean : recount w marked row count = 0) :
    ∀ row' ∈ held w (row + 1), marked row' = false := by
  rw [before.recounted, List.countP_eq_zero] at clean
  exact fun row' member => by simpa using clean row' member

theorem Held.built (before : Held marked holds w limit row acc count since)
    (clean : recount w marked row count = 0) {built : A}
    (holds_ : holds built (held w (row + 1))) (since : Nat) : Held marked holds w limit
      (row + 1) built (recount w marked row count) since where
  counted := before.recounted
  holding _ := ⟨clean, holds_⟩

/-- One row in and one out of an accumulator that holds the frame before. -/
theorem Held.slide {enter leave : A → Nat → A} (slides : Slides marked holds enter leave)
    (before : Held marked holds w limit row acc count since) (pos : 1 ≤ w)
    (clean : recount w marked row count = 0) (fresh : since < limit) :
    holds (if w ≤ row then leave (enter acc row) (row - w) else enter acc row) (held w (row + 1)) := by
  obtain ⟨none_, holding⟩ := before.holding fresh
  have entering : marked row = false := before.unmarked clean row (mem_span.mpr ⟨by omega, by omega⟩)
  have entered := slides.enter acc _ row holding entering
  rw [held_succ] at entered
  split
  · next leaves =>
    rw [if_pos leaves] at entered
    have leaving : marked (row - w) = false := by
      have counted := before.counted
      rw [none_, eq_comm, List.countP_eq_zero] at counted
      simpa using counted (row - w) (mem_span.mpr ⟨by omega, by omega⟩)
    exact slides.leave _ _ _ entered leaving
  · next stays =>
    rw [if_neg stays] at entered
    exact entered

end TallyDB.Sliding
