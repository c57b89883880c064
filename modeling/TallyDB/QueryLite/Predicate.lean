import Mathlib.Order.Compare
import TallyDB.ArrowLite.Arithmetic
import TallyDB.QueryLite.Plan
import TallyDB.StorageLite.Store

/-!
# Row predicates

A predicate is evaluated over one segment into the rows where it is true and the rows where
it is false; a row in neither is unknown. Zone maps rule out segments beforehand.
-/

namespace TallyDB

variable {F : Type}

/-! ### Comparison -/

/-- NaN equals itself and lies above every number. -/
def cmpF64 [F64 F] (left right : F) : Ordering :=
  match F64.isNan left, F64.isNan right with
  | true, true => .eq
  | true, false => .gt
  | false, true => .lt
  | false, false => compare (F64.exact left) (F64.exact right)

/-- The order of an integer against a float, without rounding the integer. -/
def cmpI64F64 [F64 F] (v : Int64) (t : F) : Ordering :=
  match F64.exact t with
  | .nan => .lt
  | .posInf => .lt
  | .negInf => .gt
  | .finite q =>
    if (2 : ℚ) ^ 63 ≤ q then .lt
    else if q < -(2 : ℚ) ^ 63 then .gt
    else
      let floor := ⌊q⌋
      -- The cast to `i64` saturates.
      let floorI := Int64.ofIntClamp floor
      match compare v.toInt floorI.toInt with
      -- A fractional part makes `t` strictly greater.
      | .eq => if (floor : ℚ) < q then .lt else .eq
      | other => other

namespace CmpOp

def holds {T : Type} [DecidableEq T] [LT T] [LE T] [DecidableLT T] [DecidableLE T] (op : CmpOp)
    (left right : T) : Bool :=
  match op with
  | eq => left = right
  | ne => left ≠ right
  | lt => left < right
  | le => left ≤ right
  | gt => right < left
  | ge => right ≤ left

def holdsOrdering (op : CmpOp) (ordering : Ordering) : Bool :=
  match op with
  | eq => ordering = .eq
  | ne => ordering ≠ .eq
  | lt => ordering = .lt
  | le => ordering ≠ .gt
  | gt => ordering = .gt
  | ge => ordering ≠ .lt

def holdsF64 [F64 F] (op : CmpOp) (left right : F) : Bool := op.holdsOrdering (cmpF64 left right)

end CmpOp

def Number.asF64 [F64Arith F] : Number F → F
  | int value => F64Arith.ofInt64 value
  | float value => value

/-! ### LIKE -/

/-- Where the last `%` stands in the pattern and in the text, at or before `s`. -/
structure Star (s : Nat) where
  pattern : Nat
  text : Nat
  before : text ≤ s

/-- The matcher at positions `p` and `s`; the last `%` swallows one more character whenever
the rest does not match. -/
def likeLoop (pattern text : List Char) (p s : Nat) (star : Option (Star s)) : Bool :=
  if _inText : s < text.length then
    if _here : p < pattern.length ∧ (pattern[p]? = some '_' ∨ pattern[p]? = text[s]?) then
      likeLoop pattern text (p + 1) (s + 1)
        (star.map fun at_ => ⟨at_.pattern, at_.text, at_.before.trans s.le_succ⟩)
    else if percent : p < pattern.length ∧ pattern[p]? = some '%' then
      likeLoop pattern text (p + 1) s (some ⟨p + 1, s, le_rfl⟩)
    else match star with
      | some at_ =>
          likeLoop pattern text at_.pattern (at_.text + 1) (some ⟨at_.pattern, at_.text + 1, le_rfl⟩)
      | none => false
  else (pattern.drop p).all (· = '%')
termination_by (text.length + 1 - star.elim 0 (·.text + 1), (text.length - s) + (pattern.length - p))
decreasing_by
  · cases star with
    | none => exact Prod.Lex.right _ (by omega)
    | some at_ => exact Prod.Lex.right _ (by omega)
  · cases star with
    | none => exact Prod.Lex.left _ _ (by simp only [Option.elim]; omega)
    | some at_ =>
      obtain ⟨pattern', text', before⟩ := at_
      simp only [Option.elim]
      rcases before.lt_or_eq with less | rfl
      · exact Prod.Lex.left _ _ (by omega)
      · exact Prod.Lex.right _ (by omega)
  · have := at_.before
    exact Prod.Lex.left _ _ (by simp only [Option.elim]; omega)

/-- `%` is any run of characters, `_` any one character. -/
def likeMatch (pattern text : String) : Bool := likeLoop pattern.toList text.toList 0 0 none

/-! ### Evaluation -/

/-- The rows where a predicate is true and those where it is false. -/
structure ThreeValued where
  truth : Bitmap
  falsity : Bitmap

namespace ThreeValued

def and (left right : ThreeValued) : ThreeValued where
  truth := left.truth.and right.truth
  falsity := left.falsity.or right.falsity

def or (left right : ThreeValued) : ThreeValued where
  truth := left.truth.or right.truth
  falsity := left.falsity.and right.falsity

def not (value : ThreeValued) : ThreeValued where
  truth := value.falsity
  falsity := value.truth

end ThreeValued

/-- A leaf's result from each row's verdict, whether it is valid and whether the test holds. -/
def leafResult (rows : Nat) (verdict : Nat → Bool × Bool) : ThreeValued where
  truth := (List.range rows).map fun row => (verdict row).1 && (verdict row).2
  falsity := (List.range rows).map fun row => (verdict row).1 && !(verdict row).2

def columnIndex (schema : Schema) (name : String) : Except QueryError Nat :=
  match schema.fields.findIdx? (·.name = name) with
  | some index => .ok index
  | none => .error (noSuchColumn name)

def RecordBatch.column (batch : RecordBatch F) (index : Nat) : Column F :=
  batch.columns.getD index (.f64 [] none)

/-- Local row indices a reader sees, in stored order. -/
def SegmentView.liveIndices (view : SegmentView F) : List Nat :=
  (List.range view.segment.numRows).filter view.isLive

/-- Evaluates a string predicate once for each distinct value, then by code for each row. -/
def keyPredicate (schema : Schema) (view : SegmentView F) (column : String) (negated : Bool)
    (matches_ : String → Bool) : Except QueryError ThreeValued := do
  let index ← columnIndex schema column
  match view.segment.batch.column index with
  | .key codes validity dictionary =>
    let allowed := dictionary.values.map fun value => matches_ value != negated
    .ok (leafResult codes.length fun row =>
      (Bitmap.validAt validity row, allowed.getD (codes.getD row 0) false))
  | _ => .error (.typeError s!"column '{column}' is numeric; compare it to a number")

def keyMembership (schema : Schema) (view : SegmentView F) (column : String) (values : List String)
    (negated : Bool) :
    Except QueryError ThreeValued :=
  keyPredicate schema view column negated fun value => values.any (· = value)

/-- A verdict for each stored row from the verdicts of the live ones; a dead row's is never read. -/
def scatter (isLive : Nat → Bool) (verdict : Nat → Bool × Bool) : List Nat → Nat → List (Bool × Bool)
  | [], _ => []
  | row :: rest, livePosition =>
    if isLive row then verdict livePosition :: scatter isLive verdict rest (livePosition + 1)
    else (false, false) :: scatter isLive verdict rest livePosition

section Evaluation

variable [F64Math F]

def ArithOp.apply (op : ArithOp) (a b : F) : F :=
  match op with
  | add => F64Math.add a b
  | sub => F64Math.sub a b
  | mul => F64Arith.mul a b
  | div => F64Math.div a b
  | mod => F64Math.rem a b

def ScalarFunction.apply (function : ScalarFunction) (arg : Nat → F) : F :=
  match function with
  | abs => F64Math.abs (arg 0)
  | round => F64Math.round (arg 0)
  | floor => F64Math.floor (arg 0)
  | ceil => F64Math.ceil (arg 0)
  | sqrt => F64Math.sqrt (arg 0)
  | ln => F64Math.ln (arg 0)
  | exp => F64Math.exp (arg 0)
  | power => F64Math.powf (arg 0) (arg 1)

/-- One view's rows, the registry and the window results already computed for this item. -/
structure ViewScalars (F : Type) where
  schema : Schema
  view : SegmentView F
  registry : Registry F
  windows : List (List F × List Bool)

abbrev Scalars (F : Type) := List F × List Bool

def ViewScalars.column (scalars : ViewScalars F) (name : String) : Except QueryError (Scalars F) := do
  let index ← columnIndex scalars.schema name
  match scalars.view.segment.batch.column index with
  | .f64 values validity =>
    -- Without a mask every row is live in stored order.
    if scalars.view.live.isNone then
      .ok (values, (List.range scalars.view.segment.numRows).map (Bitmap.validAt validity))
    else
      let rows := scalars.view.liveIndices
      .ok (rows.map (values.getD · F64.zero), rows.map (Bitmap.validAt validity))
  | .i64 _ _ =>
      .error (.typeError
        (s!"column '{name}' is i64: exact integer expression arithmetic is not built (#40); cast at " ++
          "ingest or use an f64 column"))
  | .key _ _ _ =>
      .error (.typeError s!"column '{name}' is a key: expressions are numeric (numeric-or-key)")

/-- The first true arm of a `CASE` at a live row, else the fallback. -/
def chooseArm (row out : Nat) (otherwise : Option (Scalars F)) : List (Bitmap × Scalars F) → F × Bool
  | [] => match otherwise with
    | some (values, validity) => (values.getD out F64.zero, validity.getD out false)
    | none => (F64.zero, false)
  | (condition, values, validity) :: rest =>
    if condition.get row then (values.getD out F64.zero, validity.getD out false) else chooseArm row
      out otherwise rest

def ViewScalars.registered (scalars : ViewScalars F) (name : String) (argCount : Nat)
    (evaluated : Except QueryError (List (Scalars F))) : Except QueryError (Scalars F) :=
  match scalars.registry.columns name with
  | none =>
      .error (.unsupported
        (s!"no registered column function '{name}' on this table (a window function needs OVER; " ++
          "register column functions through the table handle)"))
  | some function =>
    if argCount ≠ function.arity then
      .error (.typeError s!"{name} takes {function.arity} argument(s), got {argCount}")
    else do
      let args ← evaluated
      match function.evaluate args with
      | .error message => .error (.compute message)
      | .ok results =>
        let rows := scalars.view.liveIndices.length
        if results.length ≠ rows then
          .error (.compute s!"{name} returned {results.length} results for {rows} rows")
        else .ok (results.map (·.getD F64.zero), results.map Option.isSome)

mutual

def evaluateScalar (scalars : ViewScalars F) : ScalarExpr F → Except QueryError (Scalars F)
  | .window index => .ok (scalars.windows.getD index ([], []))
  | .column name => scalars.column name
  | .literal value =>
    let rows := scalars.view.liveIndices.length
    .ok (List.replicate rows value, List.replicate rows true)
  | .negate inner => do
    let (values, validity) ← evaluateScalar scalars inner
    .ok (values.map F64Math.neg, validity)
  | .binary op left right => do
    let (lv, lval) ← evaluateScalar scalars left
    let (rv, rval) ← evaluateScalar scalars right
    .ok (lv.zipWith op.apply rv, lval.zipWith (· && ·) rval)
  | .call function args => do
    let evaluated ← evaluateScalars scalars args
    let rows := List.range scalars.view.liveIndices.length
    .ok (rows.map fun row => function.apply fun i => (evaluated.getD i ([], [])).1.getD row F64.zero,
      rows.map fun row => evaluated.all fun arg => arg.2.getD row false)
  | .case whens otherwise => do
    let arms ← evaluateWhens scalars whens
    let fallback ← evaluateElse scalars otherwise
    let chosen := scalars.view.liveIndices.zipIdx.map fun (row, out) => chooseArm row out fallback arms
    .ok (chosen.map (·.1), chosen.map (·.2))
  | .registered name args => scalars.registered name args.length (evaluateScalars scalars args)

def evaluateScalars (scalars : ViewScalars F) : List (ScalarExpr F) → Except QueryError
      (List (Scalars F))
  | [] => .ok []
  | expr :: rest => do
    let value ← evaluateScalar scalars expr
    let values ← evaluateScalars scalars rest
    .ok (value :: values)

def evaluateWhens (scalars : ViewScalars F) :
    List (Predicate F × ScalarExpr F) → Except QueryError (List (Bitmap × Scalars F))
  | [] => .ok []
  | (predicate, arm) :: rest => do
    let matched ← evaluate3vl scalars predicate
    let value ← evaluateScalar scalars arm
    let arms ← evaluateWhens scalars rest
    .ok ((matched.truth, value) :: arms)

def evaluateElse (scalars : ViewScalars F) : Option (ScalarExpr F) → Except QueryError
      (Option (Scalars F))
  | none => .ok none
  | some expr => do
    let value ← evaluateScalar scalars expr
    .ok (some value)

/-- A predicate over every row of one view, dead ones included. -/
def evaluate3vl (scalars : ViewScalars F) : Predicate F → Except QueryError ThreeValued
  | .compareExpr left op right => do
    let (left, leftValid) ← evaluateScalar scalars left
    let (right, rightValid) ← evaluateScalar scalars right
    -- Scalars are indexed by live position, a predicate by stored row.
    let rows := scalars.view.segment.numRows
    let verdict := scatter scalars.view.isLive (fun livePosition =>
      (leftValid.getD livePosition false && rightValid.getD livePosition false,
        op.holdsOrdering (cmpF64 (left.getD livePosition F64.zero)
        (right.getD livePosition F64.zero)))) (List.range rows) 0
    .ok (leafResult rows fun row => verdict.getD row (false, false))
  | .compare column op value => do
    let index ← columnIndex scalars.schema column
    let rows := scalars.view.segment.numRows
    match scalars.view.segment.batch.column index with
    | .f64 values validity =>
      .ok (leafResult rows fun row =>
        (Bitmap.validAt validity row, op.holdsF64 (values.getD row F64.zero) value.asF64))
    | .i64 values validity =>
      .ok (leafResult rows fun row => (Bitmap.validAt validity row, match value with
        | .int target => op.holds (values.getD row 0) target
        | .float target => op.holdsOrdering (cmpI64F64 (values.getD row 0) target)))
    | .key _ _ _ => .error (.typeError s!"column '{column}' is a key; compare it to a string")
  | .isNull column negated => do
    let index ← columnIndex scalars.schema column
    let values := scalars.view.segment.batch.column index
    .ok (leafResult scalars.view.segment.numRows fun row => (true, values.isValid row == negated))
  | .keyEquals column value negated => keyMembership scalars.schema scalars.view column [value] negated
  | .keyIn column values negated => keyMembership scalars.schema scalars.view column values negated
  | .keyLike column pattern negated =>
      keyPredicate scalars.schema scalars.view column negated (likeMatch pattern)
  | .and left right => do
    let l ← evaluate3vl scalars left
    let r ← evaluate3vl scalars right
    .ok (l.and r)
  | .or left right => do
    let l ← evaluate3vl scalars left
    let r ← evaluate3vl scalars right
    .ok (l.or r)
  | .not inner => do
    let value ← evaluate3vl scalars inner
    .ok value.not

end

def evaluatePredicate (scalars : ViewScalars F) (predicate : Predicate F) : Except QueryError Bitmap :=
  (evaluate3vl scalars predicate).map ThreeValued.truth

end Evaluation

/-! ### Pruning -/

/-- Whether a value between `min` and `max` may compare so. -/
def intervalMayHold (op : CmpOp) (min max target : Int64) : Bool :=
  match op with
  | .eq => min ≤ target && target ≤ max
  | .ne => !(min = target && max = target)
  | .lt => min < target
  | .le => min ≤ target
  | .gt => target < max
  | .ge => target ≤ max

/-- As `intervalMayHold`; a NaN lies above every number and outside the range. -/
def floatIntervalMayHold [F64 F] (op : CmpOp) (min max : F) (hasNan : Bool) (target : F) : Bool :=
  match op with
  | .eq => cmpF64 min target ≠ .gt && cmpF64 target max ≠ .gt
  | .ne => hasNan || !(cmpF64 min target = .eq && cmpF64 max target = .eq)
  | .lt => cmpF64 min target = .lt
  | .le => cmpF64 min target ≠ .gt
  | .gt => hasNan || cmpF64 max target = .gt
  | .ge => hasNan || cmpF64 max target ≠ .lt

def zoneMayHold [F64Arith F] (op : CmpOp) (value : Number F) : ZoneMap F → Bool
  | .f64 min max hasNan =>
      if F64.isNan value.asF64 then true else floatIntervalMayHold op min max hasNan value.asF64
  | .i64 min max => match value with
    | .int target => intervalMayHold op min max target
    -- A rounded bound could prune a matching segment.
    | .float _ => true

namespace SegmentHandle

def zoneMapsPresent (handle : SegmentHandle F) : Bool := !handle.slot.info.zoneMaps.isEmpty

def zoneMap (handle : SegmentHandle F) (index : Nat) : Option (ZoneMap F) :=
  (handle.slot.info.zoneMaps[index]?).join

end SegmentHandle

/-- The zone map that a test of `column` is judged by: `none` where the test prunes nothing,
`some none` where the column holds no value at all. -/
def judgedBy (schema : Schema) (handle : SegmentHandle F) (column : String) : Option
      (Option (ZoneMap F)) :=
  match schema.fields.findIdx? (·.name = column) with
  | none => none
  | some index =>
      if (schema.fields[index]?).any (·.columnType = .key) then none else some (handle.zoneMap index)

/-- Whether any row of the segment could satisfy the predicate, judged from zone maps alone. -/
def canMatch [F64Arith F] (schema : Schema) (handle : SegmentHandle F)
    (predicate : Predicate F) : Bool :=
  if !handle.zoneMapsPresent then true
  else match predicate with
    | .compare column op value => match judgedBy schema handle column with
      | none => true
      | some none => false
      | some (some zoneMap) => zoneMayHold op value zoneMap
    | .and left right => canMatch schema handle left && canMatch schema handle right
    | .or left right => canMatch schema handle left || canMatch schema handle right
    | .isNull column true => match judgedBy schema handle column with
      | none => true
      | some zoneMap => zoneMap.isSome
    | _ => true

end TallyDB
