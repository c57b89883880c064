import TallyDB.QueryLite.Group

/-!
# Windows

A window call runs over the live rows of the whole snapshot, or over one run of them for
each partition; its results land on the rows they were computed for.
-/

namespace TallyDB

variable {F : Type}

/-! ### Frames -/

def frameOf (columns : List (List F)) (bounds : Nat × Nat) : List (List F) :=
  columns.map fun column => (column.drop bounds.1).take (bounds.2 - bounds.1)

def windowBounds (position : Nat) (preceding : Option Nat) : Nat × Nat :=
  (preceding.elim 0 (position - ·), position + 1)

/-- Evaluates every trailing frame by itself. -/
def recomputeFrames (evaluate : List (List F) → Except String (Option F)) (columns : List (List F))
    (preceding : Option Nat) :
    Except String (List (Option F)) :=
  (List.range (columns.head?.elim 0 List.length)).mapM fun position =>
    evaluate (frameOf columns (windowBounds position preceding))

def recomputeBoundedFrames (evaluate : List (List F) → Except String (Option F))
    (columns : List (List F)) (bounds : List (Nat × Nat)) :
    Except String (List (Option F)) :=
  bounds.mapM fun bound => evaluate (frameOf columns bound)

/-- `key - span`, at least the least integer. -/
def saturatingSubUnsigned (key : Int64) (span : UInt64) : Int64 :=
  Int64.ofInt (max (-2 ^ 63) (key.toInt - span.toNat))

/-- Both pointers only advance: to the first key in the span and past the last peer. -/
def rangeBoundsFrom (keys : List Int64) (span : UInt64) : List (Int64 × Nat) → Nat → Nat →
    List (Nat × Nat)
  | [], _, _ => []
  | (key, position) :: rest, start, end_ =>
    let floor := saturatingSubUnsigned key span
    let start := start + ((keys.drop start).takeWhile (· < floor)).length
    let end_ := max end_ (position + 1)
    let end_ := end_ + ((keys.drop end_).takeWhile (· = key)).length
    (start, end_) :: rangeBoundsFrom keys span rest start end_

def rangeBounds (keys : List Int64) (span : UInt64) : List (Nat × Nat) :=
  rangeBoundsFrom keys span keys.zipIdx 0 0

def evaluateRun (aggregate : WindowAggregate F) (columns : List (List F)) (rows : Nat)
    (frame : Frame) (keys : List Int64) :
    Except QueryError (List (Option F)) :=
  let results := match frame with
    | .rows preceding => aggregate.evaluateFrames columns preceding
    | .range span => aggregate.evaluateBoundedFrames columns (rangeBounds keys span)
    | .partition => aggregate.evaluateBoundedFrames columns (List.replicate rows (0, rows))
  match results with
  | .error message => .error (.compute message)
  | .ok results =>
    if results.length ≠
      rows then .error (.compute
      s!"window aggregate returned {results.length} results for {rows} frames")
    else .ok results

/-! ### Standard aggregates -/

section Builtin

variable [F64Math F]

def minOf (first : F) (rest : List F) : F :=
  rest.foldl (fun best value => if cmpF64 best value = .gt then value else best) first

def maxOf (first : F) (rest : List F) : F :=
  rest.foldl (fun best value => if cmpF64 best value = .gt then best else value) first

def AggFunction.evaluateWindow (function : AggFunction) (args : List (List F)) :
    Except String (Option F) :=
  match args.headD [] with
  | [] => .ok none
  | value :: rest =>
    let total := (value :: rest).foldl F64Math.add F64.zero
    let size : F := F64Arith.ofInt64 (Int64.ofNat (rest.length + 1))
    .ok (some (match function with
      | .count => size
      | .sum => total
      | .avg => F64Math.div total size
      | .min => minOf value rest
      | .max => maxOf value rest
      | .first => value
      | .last => rest.getLastD value))

def AggFunction.window (function : AggFunction) : WindowAggregate F where
  arity := 1
  evaluateFrames := recomputeFrames function.evaluateWindow
  evaluateBoundedFrames := recomputeBoundedFrames function.evaluateWindow
  outputType := if function = .count then .i64 else .f64

def AggFunction.fromName : String → Option AggFunction
  | "count" => some .count
  | "sum" => some .sum
  | "avg" => some .avg
  | "min" => some .min
  | "max" => some .max
  | "first" => some .first
  | "last" => some .last
  | _ => none

/-- The embedder's function of that name, else the standard one. -/
def Registry.window (registry : Registry F) (function : String) : Except QueryError
      (WindowAggregate F) :=
  match registry.aggregates function with
  | some aggregate => .ok aggregate
  | none => match AggFunction.fromName function with
    | some standard => .ok standard.window
    | none => .error (.unknownFunction function)

end Builtin

/-! ### Rows and partitions -/

def checkOrder (views : List (SegmentView F)) (orderIndex : Nat) (orderBy : String) :
    Except QueryError Unit :=
  match orderingProblem views orderIndex with
  | none => .ok ()
  | some .wrongColumn =>
      .error (.unsupported s!"ORDER BY '{orderBy}' — windows order by the declared ordering key only")
  | some .withinSegment =>
      .error (.unordered s!"ingest was not sorted on '{orderBy}' (compaction restores order)")
  | some .acrossSegments => .error (.unordered s!"ingest was not sorted on '{orderBy}' across segments")

def orderingValues (views : List (SegmentView F)) (index : Nat) : List (List Int64) :=
  views.map fun view => view.liveIndices.map fun row =>
    (orderingClocks (view.segment.batch.column index)).getD row 0

def argumentColumn [F64 F] (index : Nat) (name : String) (view : SegmentView F) :
    Except QueryError (List F) :=
  match view.segment.batch.column index with
  | .f64 values validity =>
    if validity.isSome && view.liveIndices.any fun row => !Bitmap.validAt validity row then
      .error (.unsupported s!"window argument '{name}' has nulls (unsupported as a window argument)")
    else if view.live.isNone then .ok values
    else .ok (view.liveIndices.map (values.getD · F64.zero))
  | _ => .error (.typeError s!"window argument '{name}' must be f64")

def argumentValues [F64 F] (views : List (SegmentView F)) (index : Nat) (name : String) :
    Except QueryError (List (List F)) :=
  views.mapM (argumentColumn index name)

/-- Resolves a `PARTITION BY` term: a symbol, any integer by its value, or a bucket of the
ordering key. -/
def resolvePartitionKey (schema : Schema) (orderingKey : Option Nat) (key : GroupKey) :
    Except QueryError GroupTerm := do
  let (index, field) ← schema.resolve key.columnName
  match key with
  | .column name => match field.columnType with
    | .key => .ok (.label index)
    | .i64 => .ok (.bucket index 1 none)
    | .f64 =>
        .error (.typeError
          s!"PARTITION BY '{name}': a DOUBLE cannot key a partition — equality on floats is not partition identity")
  | .bucket name divide multiply =>
    if field.columnType ≠ .i64 || !orderingKey.all (· = index) then
      .error (.typeError
        s!"PARTITION BY '{name} / {divide}': a bucket divides the declared ordering key — '{name}' is not it")
    else .ok (.bucket index divide multiply)

/-- A null has no partition. -/
def refuseNulls (view : SegmentView F) : GroupTerm → Except QueryError Unit
  | .label index => match view.segment.batch.column index with
    | .key _ validity _ =>
      if validity.isSome && view.liveIndices.any fun row => !Bitmap.validAt validity row then
        .error (.unsupported "PARTITION BY on a column with nulls (unsupported as a partition key)")
      else .ok ()
    | _ => .ok ()
  | .bucket _ _ _ => .ok ()

/-- The live rows of one partition, as (view, live position), in order. -/
abbrev RowRun := List (Nat × Nat)

def pushRun (key : List GroupCode) (place : Nat × Nat) : List (List GroupCode × RowRun) → List
      (List GroupCode × RowRun)
  | [] => [(key, [place])]
  | (other, run) :: rest =>
    if other = key then (other, run ++ [place]) :: rest else (other, run) :: pushRun key place rest

def partitionRuns (terms : List GroupTerm) :
    List (SegmentView F × Nat) → List Dictionary → List (List GroupCode × RowRun) →
    Except QueryError (List (List GroupCode × RowRun))
  | [], _, runs => .ok runs
  | (view, index) :: rest, unified, runs => do
    let _ ← terms.mapM (refuseNulls view)
    let (codes, unified) := remaps view.segment.batch terms unified
    partitionRuns terms rest unified (view.liveIndices.zipIdx.foldl
      (fun runs (row, position) => pushRun (groupKey view.segment.batch terms codes row) (index,
      position) runs) runs)

def orderingKeyOfViews (views : List (SegmentView F)) : Option Nat :=
  views.head?.map (·.segment.orderingKey)

/-- One run of everything, or one for each partition in first-seen order. -/
def valueRuns (schema : Schema) (views : List (SegmentView F)) (partitionBy : List GroupKey) :
    Except QueryError (List RowRun) :=
  if partitionBy.isEmpty then
    .ok [views.zipIdx.flatMap fun (view, index) => (List.range view.liveIndices.length).map (index, ·)]
  else do
    let terms ← partitionBy.mapM (resolvePartitionKey schema (orderingKeyOfViews views))
    let runs ← partitionRuns terms views.zipIdx (terms.map fun _ => .empty) []
    .ok (runs.map Prod.snd)

/-! ### Window calls -/

/-- The value at a place; the source panics outside. -/
def atPlace {α : Type} (fallback : α) (values : List (List α)) (place : Nat × Nat) : α :=
  (values.getD place.1 []).getD place.2 fallback

def scatterResults {α : Type} (fallback : α) (views : List (SegmentView F))
    (landed : List ((Nat × Nat) × α)) : List (List α) :=
  views.zipIdx.map fun (view, index) => (List.range view.liveIndices.length).map fun position =>
    (landed.lookup (index, position)).getD fallback

def landRun [F64 F] (aggregate : WindowAggregate F) (args : List (List (List F)))
    (keys : List (List Int64)) (frame : Frame) (run : RowRun) :
    Except QueryError (List ((Nat × Nat) × Option F)) := do
  let results ← evaluateRun aggregate (args.map fun arg => run.map (atPlace F64.zero arg))
    run.length frame (run.map (atPlace 0 keys))
  .ok (run.zip results)

/-- `x as i64` of an integral float. -/
def truncateI64 [F64 F] (value : F) : Int64 :=
  match F64.exact value with
  | .finite q => Int64.ofInt (max (-2 ^ 63) (min (2 ^ 63 - 1) (if 0 ≤ q then ⌊q⌋ else -⌊-q⌋)))
  | .posInf => Int64.ofInt (2 ^ 63 - 1)
  | .negInf => Int64.ofInt (-2 ^ 63)
  | .nan => 0

def windowAggregate [F64Math F] (schema : Schema) (views : List (SegmentView F))
    (registry : Registry F) (function : String)
    (argNames : List String) (partitionBy : List GroupKey) (orderBy : Option String) (frame : Frame)
    (as : Option String) :
    Except QueryError (Field × List (Column F)) := do
  let aggregate ← registry.window function
  if argNames.length ≠ aggregate.arity then
    .error (.typeError s!"{function} takes {aggregate.arity} arguments, got {argNames.length}")
  else
    let keys ← match orderBy with
      | some orderBy => do
        let (index, _) ← schema.resolve orderBy
        checkOrder views index orderBy
        .ok (orderingValues views index)
      | none => .ok (views.map fun view => List.replicate view.liveIndices.length 0)
    let args ← argNames.mapM fun name => do
      let (index, _) ← schema.resolve name
      argumentValues views index name
    let runs ← valueRuns schema views partitionBy
    let landed ← runs.mapM (landRun aggregate args keys frame)
    let results := scatterResults none views landed.flatten
    .ok (.new (as.getD function) aggregate.outputType true, results.map fun result =>
      if aggregate.outputType = .i64 then assembleI64
        (result.map fun value => value.map truncateI64) else assembleF64 result)

/-- Where `LAG` and `LEAD` read, where that is inside the run. -/
def sourcePosition (lead : Bool) (offset length position : Nat) : Option Nat :=
  if lead then (if position + offset < length then some (position + offset) else none)
  else if offset ≤ position then some (position - offset) else none

def RowValue.asI64 : RowValue F → Option Int64
  | .i64 value => some value
  | _ => none

def RowValue.asF64 : RowValue F → Option F
  | .f64 value => some value
  | _ => none

/-- `LAG` and `LEAD`: the value so many rows away in the same run, in the column's own type. -/
def windowValue [F64 F] (schema : Schema) (views : List (SegmentView F)) (lead : Bool)
    (column : String) (offset : Nat)
    (partitionBy : List GroupKey) (orderBy : String) (as : Option String) : Except QueryError
      (Field × List (Column F)) := do
  let (index, field) ← schema.resolve column
  if field.columnType = .key then
    .error (.typeError
      (s!"LAG/LEAD on symbol column '{column}': symbols are labels whose codes are per-segment, so " ++
        "a lagged code would name nothing — lag a number, or group by the symbol"))
  else
    let (orderIndex, _) ← schema.resolve orderBy
    checkOrder views orderIndex orderBy
    let cells := views.map fun view => view.liveIndices.map fun row =>
      cellValue (view.segment.batch.column index) row
    let runs ← valueRuns schema views partitionBy
    let landed := runs.flatMap fun run => run.zipIdx.map fun (place, position) =>
      (place, ((sourcePosition lead offset run.length position).bind (run[·]?)).elim .null
        (atPlace .null cells))
    let results := scatterResults .null views landed
    .ok (.new (as.getD (if lead then "lead" else "lag")) field.columnType true,
        results.map fun result =>
      if field.columnType = .i64 then assembleI64 (result.map RowValue.asI64) else assembleF64
        (result.map RowValue.asF64))

def evaluateWindowCall [F64Math F] (schema : Schema) (views : List (SegmentView F))
    (registry : Registry F) (call : WindowCall)
    (as : Option String) : Except QueryError (Field × List (Column F)) :=
  match call with
  | .agg function args partitionBy orderBy frame =>
      windowAggregate schema views registry function args partitionBy orderBy frame as
  | .value lead column offset partitionBy orderBy =>
      windowValue schema views lead column offset partitionBy orderBy as

end TallyDB
