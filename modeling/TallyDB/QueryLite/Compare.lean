import TallyDB.QueryLite.Predicate

/-!
# The engine's comparisons

Every comparison of numbers is the order of the exact values they hold.
-/

namespace TallyDB

variable {F : Type}

theorem cmpF64_eq [F64 F] (left right : F) : cmpF64 left right = compare (F64.exact left)
      (F64.exact right) := by
  unfold cmpF64 F64.isNan
  by_cases l : F64.exact left = .nan <;> by_cases r : F64.exact right = .nan
  · simp [l, r]
  · have above := Exact.lt_nan_of_ne r
    simp [l, r, compare_gt_iff_gt.mpr above]
  · have below := Exact.lt_nan_of_ne l
    simp [l, r, compare_lt_iff_lt.mpr below]
  · simp [l, r]

theorem Exact.compare_finite (x y : ℚ) : compare (Exact.finite x) (Exact.finite y) = compare x y := by
  rcases lt_trichotomy x y with less | rfl | more
  · rw [compare_lt_iff_lt.mpr less, compare_lt_iff_lt.mpr (Exact.finite_lt_finite.mpr less)]
  · simp
  · rw [compare_gt_iff_gt.mpr more, compare_gt_iff_gt.mpr (Exact.finite_lt_finite.mpr more)]

theorem Exact.finite_lt_posInf (x : ℚ) : Exact.finite x < .posInf := by
  simp [Exact.lt_iff_rank, Exact.rank]

theorem Exact.negInf_lt_finite (x : ℚ) : Exact.negInf < .finite x :=
  Exact.lt_iff_rank.mpr (WithTop.coe_lt_coe.mpr (WithTop.coe_lt_coe.mpr (WithBot.bot_lt_coe x)))

theorem cmpI64F64_eq [F64 F] (v : Int64) (t : F) : cmpI64F64 v t = compare (Exact.finite v.toInt)
      (F64.exact t) := by
  have low : -(2 : ℚ) ^ 63 ≤ v.toInt := by
    have := v.le_toInt
    have : (-2 ^ 63 : ℤ) ≤ v.toInt := this
    exact_mod_cast this
  have high : (v.toInt : ℚ) < 2 ^ 63 := by
    have := v.toInt_lt
    exact_mod_cast this
  unfold cmpI64F64
  split
  · next nan => rw [nan, compare_lt_iff_lt.mpr (Exact.finite_lt_nan _)]
  · next inf => rw [inf, compare_lt_iff_lt.mpr (Exact.finite_lt_posInf _)]
  · next inf => rw [inf, compare_gt_iff_gt.mpr (Exact.negInf_lt_finite _)]
  · next q finite =>
    rw [finite, Exact.compare_finite]
    split
    · next above => exact (compare_lt_iff_lt.mpr (high.trans_le above)).symm
    · split
      · next below => exact (compare_gt_iff_gt.mpr (below.trans_le low)).symm
      · next above below =>
        have least : -2 ^ 63 ≤ ⌊q⌋ := Int.le_floor.mpr (by push_cast; exact not_lt.mp below)
        have greatest : ⌊q⌋ < 2 ^ 63 := Int.floor_lt.mpr (by push_cast; exact not_le.mp above)
        dsimp only
        rw [Int64.toInt_ofIntClamp least (Int.le_sub_one_of_lt greatest)]
        rcases lt_trichotomy v.toInt ⌊q⌋ with less | same | more
        · have : (v.toInt : ℚ) < q := lt_of_lt_of_le (by exact_mod_cast less) (Int.floor_le q)
          rw [compare_lt_iff_lt.mpr less, compare_lt_iff_lt.mpr this]
        · rw [same, compare_eq_iff_eq.mpr rfl]
          simp only
          split
          · next part => exact (compare_lt_iff_lt.mpr part).symm
          · next whole => exact (compare_eq_iff_eq.mpr
              (le_antisymm (Int.floor_le q) (not_lt.mp whole))).symm
        · have : q < (v.toInt : ℚ) := Int.floor_lt.mp more
          rw [compare_gt_iff_gt.mpr more, compare_gt_iff_gt.mpr this]

theorem CmpOp.holds_int64 (op : CmpOp) (left right : Int64) :
    op.holds left right = op.holdsOrdering
      (compare (Exact.finite left.toInt) (Exact.finite right.toInt)) := by
  rw [Exact.compare_finite]
  rcases lt_trichotomy left.toInt right.toInt with less | same | more
  · have ordered : compare (left.toInt : ℚ) right.toInt = .lt :=
      compare_lt_iff_lt.mpr (by exact_mod_cast less)
    have lt : left < right := Int64.lt_iff_toInt_lt.mpr less
    have ne : left ≠ right := fun same => by simp [same] at less
    rw [ordered]
    cases op <;> simp [CmpOp.holds, CmpOp.holdsOrdering, ne, lt, Int64.lt_iff_toInt_lt,
      Int64.le_iff_toInt_le] <;> omega
  · obtain rfl := Int64.toInt_inj.mp same
    cases op <;> simp [CmpOp.holds, CmpOp.holdsOrdering]
  · have ordered : compare (left.toInt : ℚ) right.toInt = .gt :=
      compare_gt_iff_gt.mpr (by exact_mod_cast more)
    have ne : left ≠ right := fun same => by simp [same] at more
    rw [ordered]
    cases op <;> simp [CmpOp.holds, CmpOp.holdsOrdering, ne, Int64.lt_iff_toInt_lt,
      Int64.le_iff_toInt_le] <;> omega

/-! ### One order -/

/-- A number of either type. -/
inductive MixedNumber (F : Type) where
  | i64 (value : Int64)
  | f64 (value : F)

namespace MixedNumber

variable [F64 F]

def exact : MixedNumber F → Exact
  | i64 value => .finite value.toInt
  | f64 value => F64.exact value

def cmp : MixedNumber F → MixedNumber F → Ordering
  | i64 left, i64 right => compare left.toInt right.toInt
  | i64 left, f64 right => cmpI64F64 left right
  | f64 left, i64 right => (cmpI64F64 right left).swap
  | f64 left, f64 right => cmpF64 left right

theorem cmp_eq (left right : MixedNumber F) : left.cmp right = compare left.exact right.exact := by
  cases left with
  | i64 left =>
    cases right with
    | i64 right =>
      show compare left.toInt right.toInt = compare (Exact.finite left.toInt) (Exact.finite right.toInt)
      rw [Exact.compare_finite]
      rcases lt_trichotomy left.toInt right.toInt with less | same | more
      · rw [compare_lt_iff_lt.mpr less, compare_lt_iff_lt.mpr (by exact_mod_cast less)]
      · rw [same, compare_eq_iff_eq.mpr rfl, compare_eq_iff_eq.mpr rfl]
      · rw [compare_gt_iff_gt.mpr more, compare_gt_iff_gt.mpr (by exact_mod_cast more)]
    | f64 right => exact cmpI64F64_eq left right
  | f64 left =>
    cases right with
    | i64 right =>
      show (cmpI64F64 right left).swap = compare (F64.exact left) (Exact.finite right.toInt)
      rw [cmpI64F64_eq]
      exact Std.OrientedOrd.eq_swap.symm
    | f64 right => exact cmpF64_eq left right

/-- An integer against a float has the order of the exact values, and all comparisons together are
one total preorder. -/
theorem cmp_total_preorder :
    (∀ (v : Int64) (t : F), cmpI64F64 v t = compare (Exact.finite v.toInt) (F64.exact t)) ∧
    (∀ a b c : MixedNumber F, a.cmp b ≠ .gt → b.cmp c ≠ .gt → a.cmp c ≠ .gt) ∧
    (∀ a b c : MixedNumber F, a.cmp b = .eq → b.cmp c = .eq → a.cmp c = .eq) ∧
    ∀ a b : MixedNumber F, b.cmp a = (a.cmp b).swap := by
  refine ⟨cmpI64F64_eq, ?_, ?_, ?_⟩
  · intro a b c first second
    rw [cmp_eq, compare_le_iff_le] at first second ⊢
    exact first.trans second
  · intro a b c first second
    rw [cmp_eq, compare_eq_iff_eq] at first second ⊢
    exact first.trans second
  · intro a b
    rw [cmp_eq, cmp_eq]
    exact Std.OrientedOrd.eq_swap

end MixedNumber

end TallyDB
