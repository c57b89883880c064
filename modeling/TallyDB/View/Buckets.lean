import Mathlib.Data.List.Dedup
import Mathlib.Data.List.Sort
import TallyDB.Logic.Ranges
import TallyDB.QueryLite.Evaluate
import TallyDB.QueryLite.Streaming

/-!
# The buckets of a view

A refresh folds the buckets that were touched since the last one and replaces them in the
materialization. The buckets are runs of indices; the fold selects them by the source's
ordering key, the replacement by the scaled index that the view stores.
-/

namespace TallyDB

open Ranges

variable {F : Type}

/-! ### Saturating arithmetic -/

namespace Saturating

def add (a b : Int64) : Int64 := .ofIntClamp (a.toInt + b.toInt)

def sub (a b : Int64) : Int64 := .ofIntClamp (a.toInt - b.toInt)

def mul (a b : Int64) : Int64 := .ofIntClamp (a.toInt * b.toInt)

theorem toInt_ofIntClamp (n : ℤ) : (Int64.ofIntClamp n).toInt = max (-2 ^ 63) (min n (2 ^ 63 - 1)) := by
  have low : Int64.minValue.toInt = -2 ^ 63 := rfl
  have high : Int64.maxValue.toInt = 2 ^ 63 - 1 := rfl
  by_cases above : Int64.minValue.toInt ≤ n
  · by_cases below : n ≤ Int64.maxValue.toInt
    · rw [Int64.toInt_ofIntClamp above below]
      omega
    · rw [Int64.ofIntClamp, dif_pos above, dif_neg below]
      omega
  · rw [Int64.ofIntClamp, dif_neg above]
    omega

end Saturating

theorem Int64.toInt_bounds (a : Int64) : -2 ^ 63 ≤ a.toInt ∧ a.toInt ≤ 2 ^ 63 - 1 :=
  ⟨a.le_toInt, by have := a.toInt_lt; omega⟩

/-! ### Runs and ranges -/

/-- The quotient and the scale of a bucket term: what an ordering key is divided by, and what
the quotient is multiplied by to give the value that the view stores. -/
def bucketArithmetic : GroupKey → Int64 × Int64
  | .column _ => (1, 1)
  | .bucket _ divide multiply => (divide, multiply.getD 1)

/-- The smallest ordering key of a bucket. Bucket 0 reaches below zero. -/
def bucketLow (index divide : Int64) : Int64 :=
  match compare index 0 with
  | .gt => Saturating.mul index divide
  | .eq => -(divide - 1)
  | .lt => Saturating.sub (Saturating.mul index divide) (divide - 1)

/-- The largest ordering key of a bucket. -/
def bucketHigh (index divide : Int64) : Int64 :=
  match compare index 0 with
  | .gt => Saturating.add (Saturating.mul index divide) (divide - 1)
  | .eq => divide - 1
  | .lt => Saturating.mul index divide

/-- A run is extended by the index after its last. -/
def extendRun (run next : Int64 × Int64) : Option (Int64 × Int64) :=
  if run.2 + 1 = next.1 then some (run.1, next.1) else none

/-- Maximal runs of consecutive indices, of the indices in order. -/
def contiguousRuns (buckets : List Int64) : List (Int64 × Int64) :=
  merge extendRun (buckets.map fun bucket => (bucket, bucket))

/-- A range is extended by one that overlaps it or follows it at once. -/
def extendRange (range next : Int64 × Int64) : Option (Int64 × Int64) :=
  if next.1 ≤ Saturating.add range.2 1 then some (range.1, max range.2 next.2) else none

def mergeKeyRanges (ranges : List (Int64 × Int64)) : List (Int64 × Int64) :=
  merge extendRange (ranges.mergeSort fun a b => a.1 < b.1 || (a.1 = b.1 && a.2 ≤ b.2))

/-- Key ranges as runs of bucket indices, which may meet where the keys do not. -/
def keyRangesToBucketRuns (ranges : List (Int64 × Int64)) (divide : Int64) : List (Int64 × Int64) :=
  if divide = 1 then ranges else mergeKeyRanges
    (ranges.map fun range => (range.1 / divide, range.2 / divide))

def rangeArm (column : String) (range : Int64 × Int64) : Predicate F :=
  .and (.compare column .ge (.int range.1)) (.compare column .le (.int range.2))

/-- Whether the column lies in one of the ranges; the source panics where there is none. -/
def rangesPredicate (column : String) : List (Int64 × Int64) → Option (Predicate F)
  | [] => none
  | first :: rest => some ((rest.map (rangeArm column)).foldl .or (rangeArm column first))

/-- A view's plan, the name of its ordering key and the arithmetic of its buckets. -/
structure Definition (F : Type) where
  plan : Plan F
  bucketName : String
  divide : Int64
  viewScale : Int64

namespace Definition

/-- The buckets of the touched ordering keys as runs, none where no row changed. -/
def touchedRuns (definition : Definition F) (touched : List Int64) : Option (List (Int64 × Int64)) :=
  let buckets := ((touched.map (· / definition.divide)).insertionSort (· ≤ ·)).dedup
  if buckets.isEmpty then none else some (contiguousRuns buckets)

/-- The plan over the source rows of the runs' buckets alone. -/
def restrictedTo (definition : Definition F) (runs : List (Int64 × Int64)) (orderingKey : String) :
    Option (Plan F) := do
  let ranges ← rangesPredicate orderingKey
    (runs.map fun run => (bucketLow run.1 definition.divide, bucketHigh run.2 definition.divide))
  some { definition.plan with
    predicate := some (match definition.plan.predicate with
      | some own => .and ranges own
      | none => ranges) }

/-- The rows of the view that store one of the runs' buckets. -/
def viewRanges (definition : Definition F) (runs : List (Int64 × Int64)) : Option (Predicate F) :=
  rangesPredicate definition.bucketName
    (runs.map fun run =>
      (Saturating.mul run.1 definition.viewScale, Saturating.mul run.2 definition.viewScale))

end Definition

/-! ### Edges -/

/-- A quotient that some key has. -/
def IsIndex (divide index : Int64) : Prop := ∃ key : Int64, key / divide = index

section Edges

variable {divide index key : Int64}

theorem toInt_div_of_pos (positive : 1 ≤ divide) (key : Int64) :
    (key / divide).toInt = key.toInt.tdiv divide.toInt := by
  have above : 1 ≤ divide.toInt := Int64.le_iff_toInt_le.mp positive
  refine Int64.toInt_div_of_ne_right _ _ fun same => ?_
  rw [same] at above
  exact absurd above (by decide)

/-- A quotient times the divisor does not overflow. -/
theorem IsIndex.times_bounds (is : IsIndex divide index) (positive : 1 ≤ divide) :
    -2 ^ 63 ≤ index.toInt * divide.toInt ∧ index.toInt * divide.toInt ≤ 2 ^ 63 - 1 := by
  obtain ⟨key, rfl⟩ := is
  have above : 1 ≤ divide.toInt := Int64.le_iff_toInt_le.mp positive
  obtain ⟨least, greatest⟩ := Int64.toInt_bounds key
  obtain ⟨nonneg, negative⟩ := tdiv_bounds above key.toInt
  rw [toInt_div_of_pos positive]
  have scale : 0 ≤ divide.toInt := by omega
  rcases lt_or_ge key.toInt 0 with below | upward
  · obtain ⟨down, _, _⟩ := negative below
    have := Int.mul_nonpos_of_nonpos_of_nonneg down scale
    omega
  · obtain ⟨up, _, _⟩ := nonneg upward
    have := Int.mul_nonneg up scale
    omega

theorem toInt_pred (positive : 1 ≤ divide) : (divide - 1).toInt = divide.toInt - 1 := by
  have above : 1 ≤ divide.toInt := Int64.le_iff_toInt_le.mp positive
  obtain ⟨_, most⟩ := Int64.toInt_bounds divide
  rw [Int64.toInt_sub]
  exact Int.bmod_eq_of_le (by simp; omega) (by simp; omega)

theorem toInt_neg_pred (positive : 1 ≤ divide) : (-(divide - 1)).toInt = -(divide.toInt - 1) := by
  have above : 1 ≤ divide.toInt := Int64.le_iff_toInt_le.mp positive
  obtain ⟨_, most⟩ := Int64.toInt_bounds divide
  rw [Int64.toInt_neg, toInt_pred positive]
  exact Int.bmod_eq_of_le (by omega) (by omega)

theorem compare_int64_cases (a : Int64) :
    (compare a 0 = .gt ∧ 0 < a.toInt) ∨ (compare a 0 = .eq ∧ a.toInt = 0) ∨
    (compare a 0 = .lt ∧ a.toInt < 0) := by
  have zero : (0 : Int64).toInt = 0 := rfl
  cases sign : compare a 0 with
  | lt => exact .inr (.inr ⟨rfl, by simpa [Int64.lt_iff_toInt_lt] using Std.compare_eq_lt.mp sign⟩)
  | eq => exact .inr (.inl ⟨rfl, by rw [Std.compare_eq_iff_eq.mp sign, zero]⟩)
  | gt => exact .inl ⟨rfl, by simpa [Int64.lt_iff_toInt_lt] using Std.compare_eq_gt.mp sign⟩

/-- The lower edge is the least key of the bucket, clamped. -/
theorem toInt_bucketLow (is : IsIndex divide index) (positive : 1 ≤ divide) :
    (bucketLow index divide).toInt = max (-2 ^ 63) (lowest divide.toInt index.toInt) := by
  have above : 1 ≤ divide.toInt := Int64.le_iff_toInt_le.mp positive
  obtain ⟨_, most⟩ := Int64.toInt_bounds divide
  obtain ⟨least, greatest⟩ := is.times_bounds positive
  unfold bucketLow lowest
  rcases compare_int64_cases index with ⟨sign, up⟩ | ⟨sign, zero⟩ | ⟨sign, down⟩
  · simp only [sign, Saturating.mul, Saturating.toInt_ofIntClamp, if_pos up]
    omega
  · simp only [sign, toInt_neg_pred positive, zero, zero_mul, lt_irrefl, if_false]
    omega
  · simp only [sign, Saturating.mul, Saturating.sub, Saturating.toInt_ofIntClamp,
      toInt_pred positive, if_neg (by omega : ¬ 0 < index.toInt)]
    omega

theorem toInt_bucketHigh (is : IsIndex divide index) (positive : 1 ≤ divide) :
    (bucketHigh index divide).toInt = min (highest divide.toInt index.toInt) (2 ^ 63 - 1) := by
  have above : 1 ≤ divide.toInt := Int64.le_iff_toInt_le.mp positive
  obtain ⟨_, most⟩ := Int64.toInt_bounds divide
  obtain ⟨least, greatest⟩ := is.times_bounds positive
  unfold bucketHigh highest
  rcases compare_int64_cases index with ⟨sign, up⟩ | ⟨sign, zero⟩ | ⟨sign, down⟩
  · simp only [sign, Saturating.mul, Saturating.add, Saturating.toInt_ofIntClamp,
      toInt_pred positive, if_neg (by omega : ¬ index.toInt < 0)]
    omega
  · simp only [sign, toInt_pred positive, zero, zero_mul, lt_irrefl, if_false]
    omega
  · simp only [sign, Saturating.mul, Saturating.toInt_ofIntClamp, if_pos down]
    omega

/-- Between the edges of a run of buckets are the keys whose quotients are in the run. -/
theorem within_edges {first last : Int64} (positive : 1 ≤ divide) (isFirst : IsIndex divide first)
    (isLast : IsIndex divide last) (key : Int64) :
    Ranges.Within (bucketLow first divide, bucketHigh last divide) key ↔ Ranges.Within (first, last)
      (key / divide) := by
  have above : 0 < divide.toInt := Int64.le_iff_toInt_le.mp positive
  obtain ⟨least, greatest⟩ := Int64.toInt_bounds key
  simp only [Ranges.Within, Int64.le_iff_toInt_le, toInt_bucketLow isFirst positive,
    toInt_bucketHigh isLast positive, toInt_div_of_pos positive,
    le_tdiv_iff above, tdiv_le_iff above]
  omega

/-- The scaled ends of a run hold between them the scaled indices of the run. -/
theorem within_scaled {first last : Int64} {multiply : Option Int64} (positive : 1 ≤ divide)
    (same : ∀ factor ∈ multiply, factor = divide)
    (isFirst : IsIndex divide first) (isLast : IsIndex divide last) (key : Int64) :
    Ranges.Within (Saturating.mul first (multiply.getD 1), Saturating.mul last (multiply.getD 1))
      (GroupTerm.bucketValue divide multiply key) ↔
      Ranges.Within (first, last) (key / divide) := by
  have above : 1 ≤ divide.toInt := Int64.le_iff_toInt_le.mp positive
  cases multiply with
  | none =>
    have one : (1 : Int64).toInt = 1 := rfl
    obtain ⟨_, _⟩ := Int64.toInt_bounds first
    obtain ⟨_, _⟩ := Int64.toInt_bounds last
    simp only [Ranges.Within, GroupTerm.bucketValue, Option.getD_none, Saturating.mul,
      Int64.le_iff_toInt_le, Saturating.toInt_ofIntClamp, one, mul_one]
    omega
  | some factor =>
    obtain rfl := same factor rfl
    have is : IsIndex factor (key / factor) := ⟨key, rfl⟩
    obtain ⟨_, _⟩ := is.times_bounds positive
    obtain ⟨_, _⟩ := isFirst.times_bounds positive
    obtain ⟨_, _⟩ := isLast.times_bounds positive
    have exact_ : (key / factor * factor).toInt = (key / factor).toInt * factor.toInt := by
      rw [Int64.toInt_mul]
      exact Int.bmod_eq_of_le (by omega) (by omega)
    simp only [Ranges.Within, GroupTerm.bucketValue, Option.getD_some, Saturating.mul,
      Int64.le_iff_toInt_le, Saturating.toInt_ofIntClamp, exact_]
    have lower : first.toInt * factor.toInt ≤ (key / factor).toInt * factor.toInt ↔
        first.toInt ≤ (key / factor).toInt :=
      mul_le_mul_iff_left₀ (by omega)
    have upper : (key / factor).toInt * factor.toInt ≤ last.toInt * factor.toInt ↔
        (key / factor).toInt ≤ last.toInt :=
      mul_le_mul_iff_left₀ (by omega)
    omega

end Edges

/-! ### What the runs cover -/

section Coverage

variable {ranges : List (Int64 × Int64)} {divide x : Int64}

theorem toInt_max (a b : Int64) : (max a b).toInt = max a.toInt b.toInt := by
  change (if a ≤ b then b else a).toInt = _
  split
  · next le => exact (max_eq_right (Int64.le_iff_toInt_le.mp le)).symm
  · next more => exact (max_eq_left (not_le.mp fun le => more (Int64.le_iff_toInt_le.mpr le)).le).symm

def RunOrder (run next : Int64 × Int64) : Prop := run.1 ≤ run.2 ∧ run.2 < next.1 ∧ next.1 = next.2

theorem extendRun_joins : Joins RunOrder extendRun where
  ordered {run next joined later} found here _ after := by
    unfold extendRun at found
    split at found
    · obtain rfl := Option.some.inj found
      obtain ⟨low, above, single⟩ := here
      obtain ⟨-, following, alone⟩ := after
      refine ⟨?_, single ▸ following, alone⟩
      exact Int64.le_of_lt (Int64.lt_of_le_of_lt low above)
    · cases found
  union {run next joined} found here x := by
    unfold extendRun at found
    split at found
    · next follows =>
      obtain rfl := Option.some.inj found
      obtain ⟨low, above, single⟩ := here
      have step : next.1.toInt = run.2.toInt + 1 := by
        rw [Int64.lt_iff_toInt_lt] at above
        obtain ⟨_, most⟩ := Int64.toInt_bounds next.1
        obtain ⟨least, _⟩ := Int64.toInt_bounds run.2
        rw [← follows, Int64.toInt_add]
        exact Int.bmod_eq_of_le (by simp; omega) (by simp; omega)
      simp only [Ranges.Within, ← single, Int64.le_iff_toInt_le] at low ⊢
      omega
    · cases found

theorem extendRange_joins : Joins (fun range next => range.1 ≤ next.1) extendRange where
  ordered {range next joined later} found _ after _ := by
    unfold extendRange at found
    split at found
    · obtain rfl := Option.some.inj found
      exact after
    · cases found
  union {range next joined} found after x := by
    unfold extendRange at found
    split at found
    · next meets =>
      obtain rfl := Option.some.inj found
      have one : (1 : Int64).toInt = 1 := rfl
      obtain ⟨_, _⟩ := Int64.toInt_bounds range.2
      obtain ⟨_, _⟩ := Int64.toInt_bounds x
      simp only [Int64.le_iff_toInt_le, Saturating.add, Saturating.toInt_ofIntClamp, one] at meets after
      simp only [Ranges.Within, Int64.le_iff_toInt_le, toInt_max]
      omega
    · cases found

/-- Merging leaves what the ranges cover as it was. -/
theorem covers_mergeKeyRanges (ranges : List (Int64 × Int64)) (x : Int64) : Ranges.Covers
      (mergeKeyRanges ranges) x ↔ Ranges.Covers ranges x := by
  rw [mergeKeyRanges, covers_merge extendRange_joins]
  · simp only [Ranges.Covers, List.mem_mergeSort]
  · refine (List.pairwise_mergeSort (fun a b c ab bc => ?_) (fun a b => ?_) ranges).imp
      fun {a b} ordered => ?_
    · simp only [Bool.or_eq_true, Bool.and_eq_true, decide_eq_true_eq, Int64.le_iff_toInt_le,
        Int64.lt_iff_toInt_lt, ← Int64.toInt_inj] at ab bc ⊢
      omega
    · simp only [Bool.or_eq_true, Bool.and_eq_true, decide_eq_true_eq, Int64.le_iff_toInt_le,
        Int64.lt_iff_toInt_lt, ← Int64.toInt_inj]
      omega
    · simp only [Bool.or_eq_true, Bool.and_eq_true, decide_eq_true_eq, Int64.le_iff_toInt_le,
        Int64.lt_iff_toInt_lt, ← Int64.toInt_inj] at ordered ⊢
      omega

theorem max_int64 (a b : Int64) : max a b = a ∨ max a b = b := by
  change (if a ≤ b then b else a) = a ∨ (if a ≤ b then b else a) = b
  split
  · exact .inr rfl
  · exact .inl rfl

theorem mergeKeyRanges_ends {ends : Int64 → Prop}
    (ended : ∀ range ∈ ranges, ends range.1 ∧ ends range.2) :
    ∀ range ∈ mergeKeyRanges ranges, ends range.1 ∧ ends range.2 := by
  refine merge_forall (fun range next joined found here after => ?_) fun range member =>
    ended range (List.mem_mergeSort.mp member)
  unfold extendRange at found
  split at found
  · obtain rfl := Option.some.inj found
    refine ⟨here.1, ?_⟩
    rcases max_int64 range.2 next.2 with same | same
    · exact same.symm ▸ here.2
    · exact same.symm ▸ after.2
  · cases found

/-- Merging ranges that end no earlier than they start gives such ranges. -/
theorem mergeKeyRanges_proper (proper : ∀ range ∈ ranges, range.1 ≤ range.2) :
    ∀ range ∈ mergeKeyRanges ranges, range.1 ≤ range.2 := by
  refine merge_forall (fun range next joined found here after => ?_) fun range member =>
    proper range (List.mem_mergeSort.mp member)
  unfold extendRange at found
  split at found
  · obtain rfl := Option.some.inj found
    change range.1 ≤ max range.2 next.2
    rw [Int64.le_iff_toInt_le, toInt_max]
    exact (Int64.le_iff_toInt_le.mp here).trans (le_max_left _ _)
  · cases found

theorem mergeKeyRanges_ne_nil (some_ : ranges ≠ []) : mergeKeyRanges ranges ≠ [] := by
  rw [mergeKeyRanges, Ne, merge_eq_nil, ← List.length_eq_zero_iff, List.length_mergeSort,
    List.length_eq_zero_iff]
  exact some_

theorem contiguousRuns_ends {ends : Int64 → Prop} {buckets : List Int64}
    (ended : ∀ bucket ∈ buckets, ends bucket) :
    ∀ run ∈ contiguousRuns buckets, ends run.1 ∧ ends run.2 := by
  refine merge_forall (fun run next joined found here after => ?_) fun run member => ?_
  · unfold extendRun at found
    split at found
    · obtain rfl := Option.some.inj found
      exact ⟨here.1, after.1⟩
    · cases found
  · obtain ⟨bucket, inside, rfl⟩ := List.mem_map.mp member
    exact ⟨ended bucket inside, ended bucket inside⟩

/-- The runs of a strictly ascending list cover its members. -/
theorem covers_contiguousRuns {buckets : List Int64}
    (ascending : buckets.Pairwise (· < ·)) (x : Int64) :
    Ranges.Covers (contiguousRuns buckets) x ↔ x ∈ buckets := by
  rw [contiguousRuns, covers_merge extendRun_joins]
  · simp only [Ranges.Covers, List.mem_map, exists_exists_and_eq_and, Ranges.Within]
    constructor
    · rintro ⟨bucket, inside, low, high⟩
      rw [Int64.le_iff_toInt_le] at low high
      obtain rfl : bucket = x := Int64.toInt_inj.mp (by omega)
      exact inside
    · exact fun inside => ⟨x, inside, Int64.le_refl x, Int64.le_refl x⟩
  · exact List.pairwise_map.mpr (ascending.imp fun less => ⟨Int64.le_refl _, less, rfl⟩)

/-- Between the quotients of two keys lie the quotients of the keys between them. -/
theorem within_quotients {low high : Int64} (positive : 1 ≤ divide) (proper : low ≤ high) :
    Ranges.Within (low / divide, high / divide) x ↔ ∃ key, Ranges.Within (low, high) key ∧
    key / divide = x := by
  have above : 1 ≤ divide.toInt := Int64.le_iff_toInt_le.mp positive
  constructor
  · rintro ⟨first, last⟩
    simp only [Int64.le_iff_toInt_le, toInt_div_of_pos positive] at first last proper
    -- The least key of the bucket, or the start of the range where that lies above it.
    let key := max low.toInt (lowest divide.toInt x.toInt)
    have upper : lowest divide.toInt x.toInt ≤ high.toInt := (le_tdiv_iff above).mp last
    have narrow : lowest divide.toInt x.toInt ≤ highest divide.toInt x.toInt := by
      unfold lowest highest
      split <;> split <;> omega
    have start : low.toInt ≤ highest divide.toInt x.toInt := (tdiv_le_iff above).mp first
    have quotient : key.tdiv divide.toInt = x.toInt :=
      le_antisymm ((tdiv_le_iff above).mpr (max_le start narrow))
        ((le_tdiv_iff above).mpr (le_max_right _ _))
    have bounded : low.toInt ≤ key ∧ key ≤ high.toInt := ⟨le_max_left _ _, max_le proper upper⟩
    have := Int64.toInt_bounds low
    have := Int64.toInt_bounds high
    have fits : (Int64.ofIntClamp key).toInt = key := by
      rw [Saturating.toInt_ofIntClamp]
      omega
    refine ⟨.ofIntClamp key, ?_, Int64.toInt_inj.mp ?_⟩
    · simp only [Ranges.Within, Int64.le_iff_toInt_le, fits]
      exact bounded
    · rw [toInt_div_of_pos positive, fits, quotient]
  · rintro ⟨key, ⟨above_, below_⟩, rfl⟩
    have nonneg : 0 < divide := Int64.lt_iff_toInt_lt.mpr above
    exact ⟨GroupTerm.div_mono nonneg above_, GroupTerm.div_mono nonneg below_⟩

/-- The bucket runs of key ranges cover what the quotients of the ranges do. -/
theorem covers_keyRangesToBucketRuns (ranges : List (Int64 × Int64)) (divide x : Int64) :
    Ranges.Covers (keyRangesToBucketRuns ranges divide) x ↔ Ranges.Covers
      (ranges.map fun range => (range.1 / divide, range.2 / divide)) x := by
  unfold keyRangesToBucketRuns
  split
  · next one => simp [one]
  · exact covers_mergeKeyRanges _ x

theorem keyRangesToBucketRuns_ne_nil (some_ : ranges ≠ []) :
    keyRangesToBucketRuns ranges divide ≠ [] := by
  unfold keyRangesToBucketRuns
  split
  · exact some_
  · exact mergeKeyRanges_ne_nil (by simpa using some_)

theorem keyRangesToBucketRuns_indices (ranges : List (Int64 × Int64)) (divide : Int64) :
    ∀ run ∈ keyRangesToBucketRuns ranges divide, IsIndex divide run.1 ∧ IsIndex divide run.2 := by
  unfold keyRangesToBucketRuns
  split
  · next one => exact fun run _ => ⟨⟨run.1, by simp [one]⟩, ⟨run.2, by simp [one]⟩⟩
  · refine mergeKeyRanges_ends fun run member => ?_
    obtain ⟨range, -, rfl⟩ := List.mem_map.mp member
    exact ⟨⟨range.1, rfl⟩, ⟨range.2, rfl⟩⟩

/-- The touched buckets in order, each once. -/
theorem touched_buckets (divide : Int64) (touched : List Int64) :
    (((touched.map (· / divide)).insertionSort (· ≤ ·)).dedup).Pairwise (· < ·) ∧
      ∀ bucket, bucket ∈ ((touched.map (· / divide)).insertionSort (· ≤ ·)).dedup ↔ ∃ key ∈ touched,
      key / divide = bucket := by
  refine ⟨?_, fun bucket => by simp [List.mem_insertionSort]⟩
  have sorted := (List.pairwise_insertionSort (· ≤ ·) (touched.map (· / divide))).sublist
    (List.dedup_sublist _)
  refine (sorted.and (List.nodup_dedup _)).imp fun {a b} ordered => ?_
  exact Int64.lt_of_le_of_ne ordered.1 ordered.2

end Coverage

/-! ### The rows that the ranges select -/

section Rows

variable [F64Math F] {scalars : ViewScalars F} {column : String} {row : Nat} {value : Int64}

namespace ViewScalars

/-- The name means an `i64` column that holds the value at the row. -/
def HoldsI64 (scalars : ViewScalars F) (column : String) (row : Nat) (value : Int64) : Prop :=
  row < scalars.view.segment.numRows ∧ ∃ index values validity,
    columnIndex scalars.schema column = .ok index ∧
    scalars.view.segment.batch.column index = .i64 values validity ∧
      Bitmap.validAt validity row = true ∧ values.getD row 0 = value

def Keeps (scalars : ViewScalars F) (predicate : Option (Predicate F)) (row : Nat) : Prop :=
  ∀ test ∈ predicate, ∃ bits, evaluatePredicate scalars test = .ok bits ∧ bits.get row = true

/-- The predicate is evaluated, and at the row it comes out as the proposition. -/
def Decides (scalars : ViewScalars F) (predicate : Predicate F) (row : Nat) (holds : Prop) : Prop :=
  ∃ result, evaluate3vl scalars predicate = .ok result ∧ scalars.Sized result ∧
    (result.truth.get row = true ↔ holds)

namespace Decides

variable {left right : Predicate F} {l r : Prop}

theorem and (first : scalars.Decides left row l) (second : scalars.Decides right row r) :
    scalars.Decides (.and left right) row (l ∧ r) := by
  obtain ⟨first, inLeft, sizedLeft, tellsLeft⟩ := first
  obtain ⟨second, inRight, sizedRight, tellsRight⟩ := second
  refine ⟨first.and second, by rw [evaluate3vl, inLeft, inRight]; rfl, ?_, ?_⟩
  · simp_all [Sized, ThreeValued.and, Bitmap.and, Bitmap.or]
  · rw [ThreeValued.and, Bitmap.get_and, Bool.and_eq_true, tellsLeft, tellsRight]

theorem or (first : scalars.Decides left row l) (second : scalars.Decides right row r) :
    scalars.Decides (.or left right) row (l ∨ r) := by
  obtain ⟨first, inLeft, sizedLeft, tellsLeft⟩ := first
  obtain ⟨second, inRight, sizedRight, tellsRight⟩ := second
  refine ⟨first.or second, by rw [evaluate3vl, inLeft, inRight]; rfl, ?_, ?_⟩
  · simp_all [Sized, ThreeValued.or, Bitmap.and, Bitmap.or]
  · rw [ThreeValued.or, Bitmap.get_or sizedLeft.1 sizedRight.1, Bool.or_eq_true, tellsLeft, tellsRight]

end Decides

namespace HoldsI64

theorem compare (holds : scalars.HoldsI64 column row value) (op : CmpOp) (target : Int64) :
    scalars.Decides (.compare column op (.int target)) row (op.holds value target = true) := by
  obtain ⟨inside, index, values, validity, found, shape, valid, rfl⟩ := holds
  refine ⟨_, by simp only [evaluate3vl, found, bind, Except.bind, shape]; rfl, leafResult_sized _, ?_⟩
  rw [(leafResult_get _ inside).1]
  simp [valid]

theorem arm (holds : scalars.HoldsI64 column row value) (range : Int64 × Int64) :
    scalars.Decides (rangeArm column range) row (Ranges.Within range value) := by
  have both := (holds.compare .ge range.1).and (holds.compare .le range.2)
  simp only [CmpOp.holds, decide_eq_true_eq] at both
  exact both

/-- The chain of ranges holds at the row just where one of them covers the value. -/
theorem ranges (holds : scalars.HoldsI64 column row value) (ranges : List (Int64 × Int64))
    (some_ : ranges ≠ []) :
    ∃ predicate, rangesPredicate column ranges = some predicate ∧ scalars.Decides predicate row
      (Ranges.Covers ranges value) := by
  cases ranges with
  | nil => exact absurd rfl some_
  | cons first rest =>
    refine ⟨_, rfl, ?_⟩
    have chain (before : Predicate F) (seen : Prop) (already : scalars.Decides before row seen)
      (rest : List (Int64 × Int64)) :
        scalars.Decides ((rest.map (rangeArm column)).foldl .or before) row
          (seen ∨ Ranges.Covers rest value) := by
      induction rest generalizing before seen with
      | nil => simpa [Ranges.Covers] using already
      | cons range rest ih =>
        rw [List.map_cons, List.foldl_cons, covers_cons, ← or_assoc]
        exact ih _ _ (already.or (holds.arm range))
    rw [covers_cons]
    exact chain _ _ (holds.arm first) rest

end HoldsI64

namespace Decides

theorem keeps {predicate : Predicate F} {holds : Prop} (decides : scalars.Decides predicate row holds) :
    scalars.Keeps (some predicate) row ↔ holds := by
  obtain ⟨result, evaluated, -, tells⟩ := decides
  simp [Keeps, evaluatePredicate, evaluated, Except.map, tells]

theorem and_keeps {predicate own : Predicate F} {holds : Prop}
    (decides : scalars.Decides predicate row holds) :
    scalars.Keeps (some (.and predicate own)) row ↔ holds ∧ scalars.Keeps (some own) row := by
  obtain ⟨result, evaluated, -, tells⟩ := decides
  cases other : evaluate3vl scalars own with
  | error error =>
      simp [Keeps, evaluatePredicate, evaluate3vl, evaluated, other, Except.map, bind, Except.bind]
  | ok value =>
    simp [Keeps, evaluatePredicate, evaluate3vl, evaluated, other, Except.map, bind, Except.bind,
      ThreeValued.and, Bitmap.get_and, tells]

end Decides

end ViewScalars

end Rows

/-! ### Folds and victims -/

/-- The bucket terms of a view: a width of at least one, and no multiplier but the width. -/
def GroupKey.OfView : GroupKey → Prop
  | .column _ => True
  | .bucket _ divide multiply => 1 ≤ divide ∧ ∀ factor ∈ multiply, factor = divide

/-- What the view stores for the bucket of an ordering key. -/
def GroupKey.stored : GroupKey → Int64 → Int64
  | .column _, key => GroupTerm.bucketValue 1 none key
  | .bucket _ divide multiply, key => GroupTerm.bucketValue divide multiply key

namespace Definition

variable {definition : Definition F} {bucket : GroupKey} {runs : List (Int64 × Int64)}

/-- The definition was built for the bucket term. -/
structure Spells (definition : Definition F) (bucket : GroupKey) : Prop where
  ofView : bucket.OfView
  arithmetic : (definition.divide, definition.viewScale) = bucketArithmetic bucket

theorem Spells.positive (spells : definition.Spells bucket) : 1 ≤ definition.divide := by
  have divide : definition.divide = (bucketArithmetic bucket).1 := congrArg Prod.fst spells.arithmetic
  rw [divide]
  cases bucket with
  | column name => exact Int64.le_refl 1
  | bucket name divide multiply => exact spells.ofView.1

/-- The scaled ends of a run hold between them what the view stores for its buckets. -/
theorem Spells.within_scaled (spells : definition.Spells bucket) {first last : Int64}
    (isFirst : IsIndex definition.divide first)
    (isLast : IsIndex definition.divide last) (key : Int64) :
    Ranges.Within (Saturating.mul first definition.viewScale,
      Saturating.mul last definition.viewScale) (bucket.stored key) ↔
      Ranges.Within (first, last) (key / definition.divide) := by
  have divide : definition.divide = (bucketArithmetic bucket).1 := congrArg Prod.fst spells.arithmetic
  have scale : definition.viewScale = (bucketArithmetic bucket).2 := congrArg Prod.snd spells.arithmetic
  rw [divide] at isFirst isLast ⊢
  rw [scale]
  cases bucket with
  | column name =>
    have none_ : ∀ factor ∈ (none : Option Int64), factor = 1 := fun factor absent => by cases absent
    simp only [bucketArithmetic, GroupKey.stored] at isFirst isLast ⊢
    exact TallyDB.within_scaled (Int64.le_refl 1) none_ isFirst isLast key
  | bucket name divide multiply =>
      exact TallyDB.within_scaled spells.ofView.1 spells.ofView.2 isFirst isLast key

variable [F64Math F]

/-- Over any source the runs fold just the rows of their buckets that the definition takes, and over
any view they name just the rows that store those buckets. -/
structure Names (definition : Definition F) (bucket : GroupKey)
    (runs : List (Int64 × Int64)) : Prop where
  fold : ∀ (orderingKey : String) (scalars : ViewScalars F) (row : Nat) (key : Int64),
    scalars.HoldsI64 orderingKey row key →
    ∃ restricted, definition.restrictedTo runs orderingKey = some restricted ∧
      (scalars.Keeps restricted.predicate row ↔ Ranges.Covers runs (key / definition.divide) ∧
        scalars.Keeps definition.plan.predicate row)
  victims : ∀ (scalars : ViewScalars F) (row : Nat) (key : Int64),
    scalars.HoldsI64 definition.bucketName row (bucket.stored key) →
    ∃ predicate, definition.viewRanges runs = some predicate ∧
      (scalars.Keeps (some predicate) row ↔ Ranges.Covers runs (key / definition.divide))

theorem Spells.names (spells : definition.Spells bucket) (some_ : runs ≠ [])
    (indices : ∀ run ∈ runs, IsIndex definition.divide run.1 ∧ IsIndex definition.divide run.2) :
    definition.Names bucket runs where
  fold orderingKey scalars row key holds := by
    have cover : Ranges.Covers
      (runs.map fun run => (bucketLow run.1 definition.divide, bucketHigh run.2 definition.divide))
      key ↔
        Ranges.Covers runs (key / definition.divide) := by
      simp only [Ranges.Covers, List.mem_map, exists_exists_and_eq_and]
      refine exists_congr fun run => and_congr_right fun member => ?_
      exact within_edges spells.positive (indices run member).1 (indices run member).2 key
    obtain ⟨ranges, chained, decides⟩ := holds.ranges
      (runs.map fun run => (bucketLow run.1 definition.divide, bucketHigh run.2 definition.divide))
        (by simpa using some_)
    refine ⟨_, by rw [restrictedTo, chained]; rfl, ?_⟩
    rw [← cover]
    cases definition.plan.predicate with
    | none => rw [decides.keeps]; simp [ViewScalars.Keeps]
    | some own => exact decides.and_keeps
  victims scalars row key holds := by
    have cover : Ranges.Covers
      (runs.map fun run =>
      (Saturating.mul run.1 definition.viewScale, Saturating.mul run.2 definition.viewScale))
      (bucket.stored key) ↔
        Ranges.Covers runs (key / definition.divide) := by
      simp only [Ranges.Covers, List.mem_map, exists_exists_and_eq_and]
      refine exists_congr fun run => and_congr_right fun member => ?_
      exact spells.within_scaled (indices run member).1 (indices run member).2 key
    obtain ⟨ranges, chained, decides⟩ := holds.ranges
      (runs.map fun run =>
        (Saturating.mul run.1 definition.viewScale, Saturating.mul run.2 definition.viewScale))
        (by simpa using some_)
    exact ⟨ranges, chained, by rw [decides.keeps, cover]⟩

/-- Touched keys and key ranges alike come to runs that cover just their buckets, and that name the
same buckets to the fold and to the replacement. -/
theorem Spells.same_buckets (spells : definition.Spells bucket) :
    (∀ touched, touched ≠ [] → ∃ runs, definition.touchedRuns touched = some runs ∧
      definition.Names bucket runs ∧ ∀ index, Ranges.Covers runs index ↔ ∃ key ∈ touched,
      key / definition.divide = index) ∧
    ∀ ranges, ranges ≠ [] →
      definition.Names bucket (keyRangesToBucketRuns (mergeKeyRanges ranges) definition.divide) ∧
        ((∀ range ∈ ranges, range.1 ≤ range.2) → ∀ index,
          Ranges.Covers (keyRangesToBucketRuns (mergeKeyRanges ranges) definition.divide) index ↔
            ∃ key, Ranges.Covers ranges key ∧ key / definition.divide = index) := by
  refine ⟨fun touched some_ => ?_, fun ranges some_ => ⟨spells.names ?_ ?_, fun proper index => ?_⟩⟩
  · obtain ⟨ascending, members⟩ := touched_buckets definition.divide touched
    have nonempty : ((touched.map (· / definition.divide)).insertionSort (· ≤ ·)).dedup ≠ [] := by
      obtain ⟨key, inside⟩ := List.exists_mem_of_ne_nil _ some_
      exact List.ne_nil_of_mem ((members _).mpr ⟨key, inside, rfl⟩)
    refine ⟨_, by rw [touchedRuns, if_neg (by simpa [List.isEmpty_iff] using nonempty)],
      spells.names (fun none_ => nonempty ?_) (contiguousRuns_ends fun bucket member => ?_),
      fun index => ?_⟩
    · rw [contiguousRuns, merge_eq_nil, List.map_eq_nil_iff] at none_
      exact none_
    · obtain ⟨key, -, same⟩ := (members bucket).mp member
      exact ⟨key, same⟩
    · rw [covers_contiguousRuns ascending, members]
  · exact keyRangesToBucketRuns_ne_nil (mergeKeyRanges_ne_nil some_)
  · exact keyRangesToBucketRuns_indices _ _
  · rw [covers_keyRangesToBucketRuns]
    simp only [Ranges.Covers, List.mem_map, exists_exists_and_eq_and]
    have merged := mergeKeyRanges_proper proper
    constructor
    · rintro ⟨range, member, within⟩
      obtain ⟨key, inside, quotient⟩ :=
        (within_quotients spells.positive (merged range member)).mp within
      exact ⟨key, (covers_mergeKeyRanges ranges key).mp ⟨range, member, inside⟩, quotient⟩
    · rintro ⟨key, inside, quotient⟩
      obtain ⟨range, member, inside⟩ := (covers_mergeKeyRanges ranges key).mpr inside
      exact ⟨range, member,
        (within_quotients spells.positive (merged range member)).mpr ⟨key, inside, quotient⟩⟩

end Definition

def starts : Definition UInt64 where
  plan := ⟨"trades", none, .items [], false, none, none, none, none, none⟩
  bucketName := "bar"
  divide := 4
  viewScale := 4

theorem starts_same_buckets :
    starts.Names (.bucket "ts" 4 (some 4))
      (keyRangesToBucketRuns
        (mergeKeyRanges [(-9, -3), (5, 7), (-2, 2), (Int64.minValue, Int64.minValue)])
        starts.divide) := by
  have spells : starts.Spells (.bucket "ts" 4 (some 4)) :=
    ⟨⟨by decide, fun factor same => (Option.some.inj same).symm⟩, rfl⟩
  exact (spells.same_buckets.2 _ (List.cons_ne_nil _ _)).1

end TallyDB
