import TallyDB.QueryLite.Streaming

/-!
# Lowering

How `GROUP BY` terms become group keys. The only arithmetic among them is a bucket of the
ordering key, whose width and multiplier are positive literals, each on its own.
-/

namespace TallyDB

/-! ### Expressions -/

namespace Sql

inductive BinaryOperator where
  | multiply | divide | duckIntegerDivide
  | other (text : String)
  deriving DecidableEq

/-- A parsed expression, of the forms that a group term can have. -/
inductive Expr where
  | identifier (name : String)
  | number (text : String)
  | nested (inner : Expr)
  | binary (left : Expr) (op : BinaryOperator) (right : Expr)
  | other (text : String)
  deriving DecidableEq

end Sql

def parseI64 (text : String) : Option Int64 :=
  let (negative, digits) := match text.toList with
    | '-' :: digits => (true, digits)
    | '+' :: digits => (false, digits)
    | digits => (false, digits)
  if digits.isEmpty || !digits.all Char.isDigit then none
  else
    let magnitude : ℤ := digits.foldl (fun value digit => value * 10 + (digit.toNat - '0'.toNat : ℕ)) 0
    let value := if negative then -magnitude else magnitude
    if -2 ^ 63 ≤ value ∧ value < 2 ^ 63 then some (.ofInt value) else none

section Lowering

variable (display : Sql.Expr → String)

def bucketLiteral (expr : Sql.Expr) : Except QueryError Int64 :=
  match expr with
  | .number number => match parseI64 number with
    | some width =>
      if 0 < width then .ok width
      else .error (.unsupported
        s!"bucket width '{number}' must be positive — a bucket's width is what makes the arithmetic monotone")
    | none =>
        .error (.unsupported
          s!"bucket width '{number}' must be an integer (in the ordering key's own units — no INTERVAL type)")
  | _ => .error (.unsupported s!"bucket width '{display expr}' must be an integer literal")

def lowerGroupKey : Sql.Expr → Except QueryError GroupKey
  -- Parentheses around the quotient are passed over as anywhere else.
  | expr@(.binary left .multiply right) => do
    match ← lowerGroupKey left with
    | .bucket column divide none => .ok (.bucket column divide (some (← bucketLiteral display right)))
    | _ =>
        .error (.unsupported
          (s!"GROUP BY '{display expr}' — the only arithmetic GROUP BY admits is a bucket of the " ++
            "ordering key: ts / <width>, or (ts / <width>) * <width> for the bucket's start"))
  | .identifier column => .ok (.column column)
  | .nested inner => lowerGroupKey inner
  | .binary (.identifier column) .divide right | .binary
      (.identifier column) .duckIntegerDivide right => do
    .ok (.bucket column (← bucketLiteral display right) none)
  | .binary other .divide _ | .binary other .duckIntegerDivide _ =>
    .error (.unsupported
      s!"GROUP BY '{display other} / …' — a bucket divides the ordering key itself, not an expression")
  | other =>
      .error (.unsupported
        s!"GROUP BY '{display other}' (a column, or a bucket of the ordering key: ts / <width>)")

variable {display}

theorem bucketLiteral_pos {expr : Sql.Expr} {width : Int64}
    (read : bucketLiteral display expr = .ok width) : 0 < width := by
  unfold bucketLiteral at read
  split at read
  · split at read
    · split at read
      · next positive => exact Except.ok.inj read ▸ positive
      · cases read
    · cases read
  · cases read

/-- A bucket that the planner accepts has a positive width, and a positive multiplier if it has one.
-/
theorem lowerGroupKey_pos {expr : Sql.Expr} {column : String} {divide : Int64} {multiply : Option Int64}
    (lowered : lowerGroupKey display expr = .ok (.bucket column divide multiply)) : 0 < divide ∧
    ∀ factor ∈ multiply, 0 < factor := by
  induction expr generalizing column divide multiply with
  | identifier | number | other => simp [lowerGroupKey] at lowered
  | nested inner ih => exact ih (by simpa [lowerGroupKey] using lowered)
  | binary left op right ih =>
    cases op with
    | multiply =>
      rw [lowerGroupKey] at lowered
      obtain ⟨key, inner, lowered⟩ := except_bind_ok lowered
      split at lowered
      · obtain ⟨factor, read, lowered⟩ := except_bind_ok lowered
        obtain ⟨rfl, rfl, rfl⟩ := GroupKey.bucket.inj (Except.ok.inj lowered)
        exact ⟨(ih inner).1, fun other same => Option.some.inj same ▸ bucketLiteral_pos read⟩
      · cases lowered
    | divide | duckIntegerDivide =>
      cases left with
      | identifier name =>
        rw [lowerGroupKey] at lowered
        obtain ⟨width, read, lowered⟩ := except_bind_ok lowered
        obtain ⟨rfl, rfl, rfl⟩ := GroupKey.bucket.inj (Except.ok.inj lowered)
        exact ⟨bucketLiteral_pos read, fun factor absent => by cases absent⟩
      | _ => simp [lowerGroupKey] at lowered
    | other text => simp [lowerGroupKey] at lowered

end Lowering

/-! ### Buckets -/

namespace GroupTerm

/-- What a bucket is for: no value overflows it, a greater value has no lesser bucket, and values
share a bucket just where their quotients agree. -/
structure Buckets (divide : Int64) (multiply : Option Int64) : Prop where
  exact_ : ∀ clock, ExactAt divide multiply clock
  monotone : ∀ a b, a ≤ b → bucketValue divide multiply a ≤ bucketValue divide multiply b
  separates : ∀ a b, bucketValue divide multiply a = bucketValue divide multiply b ↔
    a / divide = b / divide

/-- The least and the greatest quotient times the multiplier are `i64` values. -/
def Fits (divide : Int64) (multiply : Option Int64) : Prop :=
  ∀ factor ∈ multiply, -2 ^ 63 ≤ Int64.minValue.toInt.tdiv divide.toInt * factor.toInt ∧
    Int64.maxValue.toInt.tdiv divide.toInt * factor.toInt < 2 ^ 63

variable {divide : Int64} {multiply : Option Int64}

theorem buckets_iff (positive : 0 < divide) (times : ∀ factor ∈ multiply, 0 < factor) :
    Buckets divide multiply ↔ Fits divide multiply := by
  have above : 0 < divide.toInt := Int64.lt_iff_toInt_lt.mp positive
  have notMinus : divide ≠ -1 := fun same => by rw [same] at above; exact absurd above (by decide)
  constructor
  · intro buckets factor is
    have least := buckets.exact_ Int64.minValue factor is
    have greatest := buckets.exact_ Int64.maxValue factor is
    rw [Int64.toInt_div_of_ne_right _ _ notMinus] at least greatest
    rw [← least, ← greatest]
    exact ⟨Int64.le_toInt _, Int64.toInt_lt _⟩
  · intro fits
    have exact_ (clock : Int64) : ExactAt divide multiply clock := by
      intro factor is
      obtain ⟨least, greatest⟩ := fits factor is
      have factorPos : 0 ≤ factor.toInt := (Int64.lt_iff_toInt_lt.mp (times factor is)).le
      have low := Int.mul_le_mul_of_nonneg_right
        (Int.tdiv_le_tdiv above (Int64.minValue_le_toInt clock)) factorPos
      have high := Int.mul_le_mul_of_nonneg_right
        (Int.tdiv_le_tdiv above (Int64.toInt_le clock)) factorPos
      rw [Int64.toInt_mul, Int64.toInt_div_of_ne_right _ _ notMinus]
      refine Int.bmod_eq_of_le ?_ ?_
      · exact least.trans low
      · exact lt_of_le_of_lt high greatest
    refine ⟨exact_, fun a b le => bucketValue_mono positive times (exact_ a) (exact_ b) le,
      fun a b => ⟨fun same => ?_, fun same => ?_⟩⟩
    · cases multiply with
      | none => exact same
      | some factor =>
        have factorPos := Int64.lt_iff_toInt_lt.mp (times factor rfl)
        have same := congrArg Int64.toInt same
        simp only [bucketValue] at same
        rw [exact_ a factor rfl, exact_ b factor rfl] at same
        exact Int64.toInt_inj.mp (mul_right_cancel₀ (ne_of_gt factorPos) same)
    · cases multiply with
      | none => exact same
      | some factor => simp only [bucketValue, same]

end GroupTerm

/-- The bucket that a lowered term resolves to is what it is for exactly if its extremes fit. -/
theorem resolved_bucket_iff {display : Sql.Expr → String} {expr : Sql.Expr} {key : GroupKey}
    {schema : Schema} {orderingKey index : Nat}
    {divide : Int64} {multiply : Option Int64} (lowered : lowerGroupKey display expr = .ok key)
    (resolved : resolveGroupKey schema (some orderingKey) key = .ok (.bucket index divide multiply)) :
    GroupTerm.Buckets divide multiply ↔ GroupTerm.Fits divide multiply := by
  obtain ⟨-, ⟨rfl, rfl⟩ | ⟨name, rfl⟩⟩ := resolveGroupKey_bucket resolved
  · exact GroupTerm.buckets_iff (by decide) fun factor absent => by cases absent
  · obtain ⟨positive, times⟩ := lowerGroupKey_pos lowered
    exact GroupTerm.buckets_iff positive times

/-- `(ts / width) * multiplier` -/
def bucketStart (width multiplier : String) : Sql.Expr :=
  .binary (.nested (.binary (.identifier "ts") .divide (.number width))) .multiply (.number multiplier)

theorem minutes_bucket : GroupTerm.Buckets 60 (some 60) :=
  (resolved_bucket_iff
    (show lowerGroupKey (fun _ => "") (bucketStart "60" "60") = .ok (.bucket "ts" 60 (some 60)) by
      decide +kernel)
    (show resolveGroupKey ⟨[.new "ts" .i64 false]⟩ (some 0) (.bucket "ts" 60 (some 60)) =
    .ok (.bucket 0 60 (some 60)) by
      decide +kernel)).mpr (by rintro factor ⟨⟩; decide)

/-- An accepted term whose product wraps: the bucket of 4 lies below that of 1 and is that of 0. -/
theorem wrapped_product :
    lowerGroupKey (fun _ => "") (bucketStart "1" "4611686018427387904") = .ok
      (.bucket "ts" 1 (some 4611686018427387904)) ∧
      resolveGroupKey ⟨[.new "ts" .i64 false]⟩ (some 0) (.bucket "ts" 1 (some 4611686018427387904)) =
        .ok (.bucket 0 1 (some 4611686018427387904)) ∧
      GroupTerm.bucketValue 1 (some 4611686018427387904) 4 < GroupTerm.bucketValue 1
        (some 4611686018427387904) 1 ∧
      GroupTerm.bucketValue 1 (some 4611686018427387904) 4 = GroupTerm.bucketValue 1
        (some 4611686018427387904) 0 ∧
      ¬ GroupTerm.Buckets 1 (some 4611686018427387904) := by
  refine ⟨by decide +kernel, by decide +kernel, by decide +kernel, by decide +kernel, fun buckets => ?_⟩
  exact absurd ((buckets.separates 4 0).mp (by decide +kernel)) (by decide +kernel)

end TallyDB
