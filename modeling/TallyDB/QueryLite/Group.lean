import TallyDB.Logic.GroupBy
import TallyDB.QueryLite.Output

/-!
# Grouping

Live rows are grouped by symbols and by integer buckets of the ordering key. Over ordered
rows a bucket's groups close as soon as it is left; otherwise all groups stay open to the end.
-/

namespace TallyDB

variable {F : Type}

/-! ### Order -/

/-- An ordering-key column's values; the source panics on a column of another kind. -/
def orderingClocks : Column F → List Int64
  | .i64 values _ => values
  | _ => []

def liveOrderingBounds (view : SegmentView F) : Option (Int64 × Int64) :=
  let values := orderingClocks (view.segment.batch.column view.segment.orderingKey)
  match view.liveIndices with
  | [] => none
  | first :: rest => some (values.getD first 0, values.getD (rest.getLastD first) 0)

inductive Disorder where
  | wrongColumn | withinSegment | acrossSegments
  deriving DecidableEq

def orderingProblemAfter (orderIndex : Nat) : Option Int64 → List (SegmentView F) → Option Disorder
  | _, [] => none
  | previousLast, view :: rest =>
    if orderIndex ≠ view.segment.orderingKey then some .wrongColumn
    else if !view.segment.ordered then some .withinSegment
    else match liveOrderingBounds view with
      | none => orderingProblemAfter orderIndex previousLast rest
      | some (first, last) =>
        if previousLast.any (first < ·) then some .acrossSegments
        else orderingProblemAfter orderIndex (some last) rest

/-- Whether the live rows are known to be in the order of the key, within every segment and
across them. -/
def orderingProblem (views : List (SegmentView F)) (orderIndex : Nat) : Option Disorder :=
  orderingProblemAfter orderIndex none views

/-! ### Terms -/

inductive GroupCode where
  /-- A symbol's code in the unified key space; `none` is the group of nulls. -/
  | label (code : Option Nat)
  | bucket (value : Int64)
  deriving DecidableEq

inductive GroupTerm where
  | label (index : Nat)
  | bucket (index : Nat) (divide : Int64) (multiply : Option Int64)
  deriving DecidableEq

namespace GroupTerm

def isBucket : GroupTerm → Bool
  | bucket _ _ _ => true
  | label _ => false

/-- The bucket of an ordering-key value. The multiplication is a release build's, which wraps. -/
def bucketValue (divide : Int64) (multiply : Option Int64) (value : Int64) : Int64 :=
  match multiply with
  | none => value / divide
  | some multiply => value / divide * multiply

def code (batch : RecordBatch F) (row : Nat) : GroupTerm → List Nat → GroupCode
  | label index, remap => match batch.column index with
    | .key codes validity _ =>
        .label (if Bitmap.validAt validity row then some (remap.getD (codes.getD row 0) 0) else none)
    | _ => .label none
  | bucket index divide multiply, _ =>
      .bucket (bucketValue divide multiply ((orderingClocks (batch.column index)).getD row 0))

def columnType : GroupTerm → ColumnType
  | label _ => .key
  | bucket _ _ _ => .i64

def remap (batch : RecordBatch F) : GroupTerm → Dictionary → List Nat × Dictionary
  | label index, unified => match batch.column index with
    | .key _ _ dictionary => internAll (dictionary.values.map some) unified
    | _ => ([], unified)
  | bucket _ _ _, unified => ([], unified)

end GroupTerm

def remaps (batch : RecordBatch F) (terms : List GroupTerm) (unified : List Dictionary) : List
      (List Nat) × List Dictionary :=
  (terms.zipWith (GroupTerm.remap batch) unified).unzip

def groupKey (batch : RecordBatch F) (terms : List GroupTerm) (remaps : List (List Nat))
    (row : Nat) : List GroupCode :=
  terms.zipWith (GroupTerm.code batch row) remaps

/-- Resolves a `GROUP BY` term against the schema and the ordering key, where that is known. -/
def resolveGroupKey (schema : Schema) (orderingKey : Option Nat) (key : GroupKey) :
    Except QueryError GroupTerm := do
  let (index, field) ← schema.resolve key.columnName
  let isOrderingKey := orderingKey.all (· = index)
  match key with
  | .column name => match field.columnType with
    | .key => .ok (.label index)
    | .i64 =>
      if isOrderingKey then .ok (.bucket index 1 none)
      else .error (.typeError
        (s!"GROUP BY '{name}': grouping is what symbol columns are for, and the one number that " ++
          s!"groups is the ordering key (whole or bucketed: {name} / <width>)"))
    | .f64 =>
        .error (.typeError
          (s!"GROUP BY '{name}': a DOUBLE cannot key a group — equality on floats is not group " ++
            "identity. Group by a symbol column or a bucket of the ordering key"))
  | .bucket name divide multiply =>
    if field.columnType ≠ .i64 || !isOrderingKey then
      .error (.typeError
        (s!"GROUP BY '{name} / {divide}': a bucket divides the declared ordering key, which is what " ++
          s!"makes the buckets come out in order — '{name}' is not it"))
    else .ok (.bucket index divide multiply)

/-! ### Accumulators -/

inductive CellNumber (F : Type) where
  | f64 (value : F)
  | i64 (value : Int64)

def CellNumber.asF64 [F64Arith F] : CellNumber F → F
  | f64 value => value
  | i64 value => F64Arith.ofInt64 value

/-- A running aggregate. All but the counts know whether they have seen a value. -/
inductive Accumulator (F : Type) where
  | countStar (count : Int64)
  | countColumn (count : Int64)
  | sumF64 (sum : F) (seen : Bool)
  | sumI64 (sum : Int64) (seen : Bool)
  | avg (sum : F) (count : Int64)
  | minMaxF64 (value : F) (seen max : Bool)
  | minMaxI64 (value : Int64) (seen max : Bool)
  | firstLastF64 (clock : Int64) (value : F) (seen last : Bool)
  | firstLastI64 (clock value : Int64) (seen last : Bool)
  deriving DecidableEq

inductive AggCell (F : Type) where
  | i64 (value : Option Int64)
  | f64 (value : Option F)
  deriving DecidableEq

def ColumnType.debug : Option ColumnType → String
  | none => "None"
  | some .f64 => "Some(F64)"
  | some .i64 => "Some(I64)"
  | some .key => "Some(Key)"

/-- Whether a first or last value held since `held` gives way to one at `clock`. Of equal
clocks the later row is the last one. -/
def firstLastReplaces (seen last : Bool) (clock held : Int64) : Bool :=
  !seen || if last then held ≤ clock else clock < held

namespace Accumulator

section Start

variable [F64 F]

def new (call : AggCall) (argumentType : Option ColumnType) : Except QueryError (Accumulator F) :=
  let typeError (what : String) : Except QueryError (Accumulator F) :=
    .error (.typeError s!"{what} needs a numeric argument, got {ColumnType.debug argumentType}")
  match call.function, argumentType with
  | .count, none => .ok (countStar 0)
  | .count, some _ => .ok (countColumn 0)
  | .sum, some .f64 => .ok (sumF64 F64.zero false)
  | .sum, some .i64 => .ok (sumI64 0 false)
  | .avg, some .f64 | .avg, some .i64 => .ok (avg F64.zero 0)
  | .min, some .f64 => .ok (minMaxF64 F64.zero false false)
  | .max, some .f64 => .ok (minMaxF64 F64.zero false true)
  | .min, some .i64 => .ok (minMaxI64 0 false false)
  | .max, some .i64 => .ok (minMaxI64 0 false true)
  | .first, some .f64 => .ok (firstLastF64 0 F64.zero false false)
  | .last, some .f64 => .ok (firstLastF64 0 F64.zero false true)
  | .first, some .i64 => .ok (firstLastI64 0 0 false false)
  | .last, some .i64 => .ok (firstLastI64 0 0 false true)
  | .sum, _ => typeError "SUM"
  | .avg, _ => typeError "AVG"
  | .min, _ => typeError "MIN"
  | .max, _ => typeError "MAX"
  | .first, _ => typeError "FIRST"
  | .last, _ => typeError "LAST"

end Start

def columnType : Accumulator F → ColumnType
  | countStar _ | countColumn _ | sumI64 _ _ | minMaxI64 _ _ _ | firstLastI64 _ _ _ _ => .i64
  | sumF64 _ _ | avg _ _ | minMaxF64 _ _ _ | firstLastF64 _ _ _ _ => .f64

variable [F64Math F]

def cell : Accumulator F → AggCell F
  | countStar count | countColumn count => .i64 (some count)
  | sumI64 sum seen => .i64 (if seen then some sum else none)
  | minMaxI64 value seen _ | firstLastI64 _ value seen _ => .i64 (if seen then some value else none)
  | sumF64 sum seen => .f64 (if seen then some sum else none)
  | avg sum count => .f64 (if 0 < count then some (F64Math.div sum (F64Arith.ofInt64 count)) else none)
  | minMaxF64 value seen _ | firstLastF64 _ value seen _ => .f64 (if seen then some value else none)

def update (clock : Int64) : Accumulator F → Option (CellNumber F) → Except QueryError (Accumulator F)
  | countStar count, _ => .ok (countStar (count + 1))
  | countColumn count, none => .ok (countColumn count)
  | countColumn count, some _ => .ok (countColumn (count + 1))
  | accumulator, none => .ok accumulator
  | sumF64 sum _, some cell => .ok (sumF64 (F64Math.add sum cell.asF64) true)
  | sumI64 sum _, some (.i64 value) =>
    if (sum + value).toInt = sum.toInt + value.toInt then .ok (sumI64 (sum + value) true)
    else .error (.compute "SUM overflows i64 — refusing a wrong answer")
  | avg sum count, some cell => .ok (avg (F64Math.add sum cell.asF64) (count + 1))
  | minMaxF64 value seen max, some cell =>
    let candidate := cell.asF64
    let replace := !seen || (max && cmpF64 candidate value = .gt) ||
      (!max && cmpF64 candidate value = .lt)
    .ok (minMaxF64 (if replace then candidate else value) true max)
  | minMaxI64 value seen max, some (.i64 candidate) =>
    let replace := !seen || (max && value < candidate) || (!max && candidate < value)
    .ok (minMaxI64 (if replace then candidate else value) true max)
  | firstLastF64 held value seen last, some cell =>
    if firstLastReplaces seen last clock held then .ok (firstLastF64 clock cell.asF64 true last)
    else .ok (firstLastF64 held value true last)
  | firstLastI64 held value seen last, some (.i64 candidate) =>
    if firstLastReplaces seen last clock held then .ok (firstLastI64 clock candidate true last)
    else .ok (firstLastI64 held value true last)
  -- An integer accumulator meets no float: its kind was chosen from the column's type.
  | accumulator, some (.f64 _) => .ok accumulator

end Accumulator

/-! ### The fold -/

def callCell [F64 F] (batch : RecordBatch F) (row : Nat) (argument : Option Nat) : Except QueryError
      (Option (CellNumber F)) :=
  match argument with
  | none => .ok none
  | some index => match batch.column index with
    | .f64 values validity =>
        .ok (if Bitmap.validAt validity row then some (.f64 (values.getD row F64.zero)) else none)
    | .i64 values validity =>
        .ok (if Bitmap.validAt validity row then some (.i64 (values.getD row 0)) else none)
    | .key _ _ _ => .error (.typeError "aggregates take numeric arguments; keys are labels")

abbrev OpenGroup (F : Type) := List GroupCode × List (Accumulator F)

/-- One closed group: its key and its finished aggregates. -/
abbrev ClosedGroup (F : Type) := List GroupCode × List (AggCell F)

/-- Groups closed so far and those open; a bucket is named by the codes of the bucket terms. -/
abbrev Grouping (F : Type) := GroupBy.Groups (List GroupCode) (List (Accumulator F))
    (List GroupCode) (ClosedGroup F)

section Fold

variable [F64Math F]

def updateAll (batch : RecordBatch F) (row : Nat) (clock : Int64) :
    List (Option Nat) → List (Accumulator F) → Except QueryError (List (Accumulator F))
  | argument :: arguments, accumulator :: accumulators => do
    let cell ← callCell batch row argument
    let accumulator ← accumulator.update clock cell
    let accumulators ← updateAll batch row clock arguments accumulators
    .ok (accumulator :: accumulators)
  | _, accumulators => .ok accumulators

def closeGroup (group : OpenGroup F) : ClosedGroup F := (group.1, group.2.map Accumulator.cell)

structure GroupPlan (F : Type) where
  terms : List GroupTerm
  arguments : List (Option Nat)
  template : List (Accumulator F)
  orderingKey : Option Nat
  streaming : Bool
  deriving DecidableEq

namespace GroupPlan

def bucketOf (plan : GroupPlan F) (key : List GroupCode) : List GroupCode :=
  ((key.zip plan.terms).filter (·.2.isBucket)).map Prod.fst

def clock (plan : GroupPlan F) (batch : RecordBatch F) (row : Nat) : Int64 :=
  plan.orderingKey.elim 0 fun index => (orderingClocks (batch.column index)).getD row 0

/-- A row's full group key and what the row does to its group. -/
def row (plan : GroupPlan F) (batch : RecordBatch F) (remaps : List (List Nat)) (row : Nat) :
    List GroupCode × (List (Accumulator F) → Except QueryError (List (Accumulator F))) :=
  (groupKey batch plan.terms remaps row, updateAll batch row (plan.clock batch row) plan.arguments)

def takeRow (plan : GroupPlan F) (batch : RecordBatch F) (remaps : List (List Nat))
    (state : Grouping F) (row : Nat) :
    Except QueryError (Grouping F) :=
  state.take plan.bucketOf closeGroup plan.streaming plan.template (plan.row batch remaps row)

def takeViews (plan : GroupPlan F) :
    List (SegmentView F) → List Dictionary → Grouping F → Except QueryError
      (Grouping F × List Dictionary)
  | [], unified, state => .ok (state, unified)
  | view :: rest, unified, state => do
    let (codes, unified) := remaps view.segment.batch plan.terms unified
    let state ← view.liveIndices.foldlM (plan.takeRow view.segment.batch codes) state
    plan.takeViews rest unified state

end GroupPlan

/-! ### The output -/

def assembleAggregate (name : String) (columnType : ColumnType) (cells : List (AggCell F)) :
    Field × Column F :=
  match columnType with
  | .i64 =>
    let values := cells.map fun cell => match cell with
      | .i64 value => value
      | .f64 _ => none
    (.new name .i64 (values.any Option.isNone), assembleI64 values)
  | _ =>
    let values := cells.map fun cell => match cell with
      | .f64 value => value
      | .i64 _ => none
    (.new name .f64 (values.any Option.isNone), assembleF64 values)

def assembleGroupKey (name : String) (term : GroupTerm) (unified : Dictionary)
    (codes : List GroupCode) : Field × Column F :=
  match term with
  | .bucket _ _ _ =>
    (.new name .i64 false, .i64 (codes.map fun code => match code with
      | .bucket value => value
      | .label _ => 0) none)
  | .label _ =>
    let values := codes.map fun code => match code with
      | .label (some code) => some (unified.value code)
      | _ => none
    let (codes, dictionary) := internAll values .empty
    (.new name .key (values.any Option.isNone), assembleKey codes (values.map Option.isSome) dictionary)

/-- The output columns in the order of the SELECT list; `call` counts the aggregates before. -/
def assembleItems (keys : List GroupKey) (plan : GroupPlan F) (unified : List Dictionary)
    (groups : List (ClosedGroup F)) :
    List AggItem → Nat → List (Field × Column F)
  | [], _ => []
  | .key key as :: rest, call =>
    let position := keys.idxOf key
    assembleGroupKey (as.getD key.outputName) (plan.terms.getD position (.label 0))
      (unified.getD position .empty)
      (groups.map (·.1.getD position (.label none))) :: assembleItems keys plan unified groups rest call
  | .call aggregate :: rest, call =>
    assembleAggregate (aggregate.as.getD aggregate.function.name)
      ((plan.template.map Accumulator.columnType).getD call .f64)
      (groups.map (·.2.getD call (.f64 none))) :: assembleItems keys plan unified groups rest (call + 1)

def resolveArgument (schema : Schema) (call : AggCall) : Except QueryError (Option (Nat × Field)) :=
  match call.argument with
  | none => .ok none
  | some name => (schema.resolve name).map some

def groupPlan (schema : Schema) (views : List (SegmentView F)) (orderingKey : Option Nat)
    (keys : List GroupKey)
    (items : List AggItem) : Except QueryError (GroupPlan F) := do
  let terms ← keys.mapM (resolveGroupKey schema orderingKey)
  let calls := items.filterMap fun item => match item with
    | .call aggregate => some aggregate
    | .key _ _ => none
  let arguments ← calls.mapM (resolveArgument schema)
  let template ← (calls.zip arguments).mapM fun (call, argument) =>
    Accumulator.new call (argument.map (·.2.columnType))
  let bucketed := terms.any GroupTerm.isBucket
  .ok {
    terms
    arguments := arguments.map (·.map Prod.fst)
    template
    orderingKey
    streaming := bucketed && orderingKey.any fun index => (orderingProblem views index).isNone }

namespace GroupPlan

/-- No `GROUP BY` term means one group, also over no row. -/
def start (plan : GroupPlan F) : Grouping F :=
  .start (if plan.terms.isEmpty then [([], plan.template)] else [])

def groups (plan : GroupPlan F) (views : List (SegmentView F)) : Except QueryError
      (List (ClosedGroup F) × List Dictionary) := do
  let (state, unified) ← plan.takeViews views (plan.terms.map fun _ => .empty) plan.start
  .ok (state.emit closeGroup, unified)

end GroupPlan

def projectAggregate (schema : Schema) (views : List (SegmentView F)) (orderingKey : Option Nat)
    (keys : List GroupKey)
    (items : List AggItem) : Except QueryError (QueryOutput F) := do
  let plan ← groupPlan schema views orderingKey keys items
  let (groups, unified) ← plan.groups views
  let assembled := assembleItems keys plan unified groups items 0
  let output : Schema := ⟨assembled.map Prod.fst⟩
  .ok {
    schema := output
    batches := if groups.isEmpty then []
      else [{ schema := output, columns := assembled.map Prod.snd }] }

end Fold

end TallyDB
