import TallyDB.QueryLite.Window

/-!
# Execution

A plan runs over a snapshot: `WHERE` folds into each segment's live mask, then the
projection or the grouping, `DISTINCT`, the order and the limit. Segments are read from
storage through `read`, and only where their zone maps let a row match.
-/

namespace TallyDB

variable {F : Type}

abbrev SegmentReader (F : Type) := SegmentSlot F → Except StorageError (Segment F)

namespace SegmentHandle

def resident (segment : Segment F) (live : Option Bitmap) : SegmentHandle F :=
  ⟨.ofSegment segment none, live⟩

/-- Rows that a reader will see, from metadata alone. -/
def liveRowCount (handle : SegmentHandle F) : Nat :=
  handle.live.elim handle.slot.info.rows Bitmap.countSet

/-- The decoded segment under the handle's live mask. -/
def fetch (read : SegmentReader F) (handle : SegmentHandle F) : Except QueryError (SegmentView F) :=
  match handle.slot.resident with
  | some segment => .ok { segment, live := handle.live }
  | none => match read handle.slot with
    | .ok segment => .ok { segment, live := handle.live }
    | .error e => .error (.storage e)

end SegmentHandle

def SegmentView.liveRowCount (view : SegmentView F) : Nat :=
  view.live.elim view.segment.numRows Bitmap.countSet

def Segment.fromBatchUnpruned (batch : RecordBatch F) : Segment F where
  batch
  orderingKey := 0
  ordered := false
  baseRowId := 0
  zoneMaps := []
  sequence := .rowIds
  superseded := none

def SegmentView.allLive (segment : Segment F) : SegmentView F := ⟨segment, none⟩

/-! ### Stored columns -/

def pickRows [F64 F] (column : Column F) (keep : List Nat) : Column F :=
  let validity := column.validity.map fun bits => keep.map bits.get
  match column with
  | .f64 values _ => .f64 (keep.map (values.getD · F64.zero)) validity
  | .i64 values _ => .i64 (keep.map (values.getD · 0)) validity
  | .key codes _ dictionary => .key (keep.map (codes.getD · 0)) validity dictionary

def filterColumn [F64 F] (column : Column F) (view : SegmentView F) : Column F :=
  pickRows column view.liveIndices

def sequenceColumnOf (views : List (SegmentView F)) (name : String) : Field × List (Column F) :=
  (.new name .i64 false, views.map fun view =>
    .i64 (view.liveIndices.map fun row => Int64.ofNat (view.segment.sequenceAt row)) none)

def passthrough [F64 F] (schema : Schema) (views : List (SegmentView F)) (name : String)
    (as : Option String) :
    Except QueryError (Field × List (Column F)) :=
  if name = sequenceColumn then .ok (sequenceColumnOf views (as.getD name))
  else do
    let (index, field) ← schema.resolve name
    .ok ({ field with name := as.getD name }, views.map fun view =>
      let column := view.segment.batch.column index
      if view.live.isNone then column else filterColumn column view)

/-! ### Computed columns -/

section Computed

variable [F64Math F]

def columnAsF64 : Column F → Scalars F
  | .f64 values validity => (values, (List.range values.length).map (Bitmap.validAt validity))
  | .i64 values validity =>
      (values.map F64Arith.ofInt64, (List.range values.length).map (Bitmap.validAt validity))
  | .key _ _ _ => ([], [])

def assembleScalars (scalars : Scalars F) : Column F := .f64 scalars.1 (assembledValidity scalars.2)

mutual

/-- The columns that an expression with a registered function reads; `CASE` is refused there. -/
def registeredColumns : ScalarExpr F → Except QueryError (List String)
  | .column name => .ok [name]
  | .literal _ | .window _ => .ok []
  | .negate inner => registeredColumns inner
  | .binary _ left right => do
    let names ← registeredColumns left
    let more ← registeredColumns right
    .ok (names ++ more)
  | .call _ args | .registered _ args => registeredArgColumns args
  | .case _ _ =>
      .error (.unsupported
        "CASE combined with a registered function in one expression (lift the function out of the CASE)")

def registeredArgColumns : List (ScalarExpr F) → Except QueryError (List String)
  | [] => .ok []
  | expr :: rest => do
    let names ← registeredColumns expr
    let more ← registeredArgColumns rest
    .ok (names ++ more)

end

def gatherScalars (schema : Schema) (registry : Registry F) (name : String) : List (SegmentView F) →
    Except QueryError (Scalars F)
  | [] => .ok ([], [])
  | view :: rest => do
    let here ← evaluateScalar ⟨schema, view, registry, []⟩ (.column name)
    let others ← gatherScalars schema registry name rest
    .ok (here.1 ++ others.1, here.2 ++ others.2)

def splitScalars : List Nat → Scalars F → List (Scalars F)
  | [], _ => []
  | count :: rest, scalars =>
    (scalars.1.take count, scalars.2.take count) :: splitScalars rest
      (scalars.1.drop count, scalars.2.drop count)

/-- Evaluates once over one segment that holds every live row, for a registered function. -/
def computedColumnWhole (schema : Schema) (views : List (SegmentView F)) (expr : ScalarExpr F)
    (windowColumns : List (List (Column F)))
    (name : String) (registry : Registry F) : Except QueryError (Field × List (Column F)) := do
  let whole := windowColumns.map fun perView =>
    ((perView.flatMap (columnAsF64 · |>.1), perView.flatMap (columnAsF64 · |>.2)) : Scalars F)
  let names ← registeredColumns expr
  let names := (names.mergeSort fun left right => left ≤ right).dedup
  let total := (views.map fun view => view.liveIndices.length).sum
  let gathered ← names.mapM fun column => gatherScalars schema registry column views
  let reduced : Schema := ⟨.new "__row" .i64 false :: names.map fun column => .new column .f64 true⟩
  let batch : RecordBatch F := {
    schema := reduced
    columns := .i64 ((List.range total).map Int64.ofNat) none :: gathered.map assembleScalars }
  let result ← evaluateScalar ⟨reduced, .allLive (.fromBatchUnpruned batch), registry, whole⟩ expr
  .ok (.new name .f64 true,
    (splitScalars (views.map fun view => view.liveIndices.length) result).map assembleScalars)

def computedColumn (schema : Schema) (views : List (SegmentView F)) (expr : ScalarExpr F)
    (windowCalls : List WindowCall)
    (name : String) (registry : Registry F) : Except QueryError (Field × List (Column F)) := do
  let windowColumns ← windowCalls.mapM fun call =>
    (evaluateWindowCall schema views registry call none).map Prod.snd
  -- A registered function sees the rows as one column, however they are segmented.
  if expr.usesRegistered then computedColumnWhole schema views expr windowColumns name registry
  else do
    let columns ← views.zipIdx.mapM fun (view, index) => do
      let windows := windowColumns.map fun perView => columnAsF64 (perView.getD index (.f64 [] none))
      (evaluateScalar ⟨schema, view, registry, windows⟩ expr).map assembleScalars
    .ok (.new name .f64 true, columns)

def projectItem (schema : Schema) (views : List (SegmentView F)) (registry : Registry F) :
    PlanItem F → Except QueryError (Field × List (Column F))
  | .column name as => passthrough schema views name as
  | .computed expr windows name => computedColumn schema views expr windows name registry
  | .window call as => evaluateWindowCall schema views registry call as

def projectItems (schema : Schema) (views : List (SegmentView F)) (items : List (PlanItem F))
    (registry : Registry F) :
    Except QueryError (QueryOutput F) := do
  let projected ← items.mapM (projectItem schema views registry)
  let output : Schema := ⟨projected.map Prod.fst⟩
  .ok {
    schema := output
    batches := (List.range views.length).map fun index =>
      { schema := output, columns := projected.map fun item => item.2.getD index (.f64 [] none) } }

/-! ### HAVING -/

def havingPicks (schema : Schema) (predicate : Predicate F) (registry : Registry F)
    (batch : RecordBatch F × Nat) :
    Except QueryError (List (Nat × Nat)) := do
  let matched ← evaluatePredicate ⟨schema, .allLive (.fromBatchUnpruned batch.1),
    registry, []⟩ predicate
  .ok (((List.range batch.1.numRows).filter matched.get).map (batch.2, ·))

def filterHaving (output : QueryOutput F) (predicate : Predicate F) (visible : Nat)
    (registry : Registry F) :
    Except QueryError (QueryOutput F) := do
  let picks ← output.batches.zipIdx.mapM (havingPicks output.schema predicate registry)
  let filtered := QueryOutput.takeRows output.schema output.batches picks.flatten
  let schema : Schema := ⟨output.schema.fields.take visible⟩
  .ok { schema, batches := [{ schema, columns := filtered.columns.take visible }] }

/-! ### The pipeline -/

/-- `WHERE` over one decoded segment: the predicate folds into the live mask. -/
def restrict (schema : Schema) (registry : Registry F) (predicate : Option (Predicate F))
    (view : SegmentView F) :
    Except QueryError (SegmentView F) :=
  match predicate with
  | none => .ok view
  | some predicate => do
    let matched ← evaluatePredicate ⟨schema, view, registry, []⟩ predicate
    .ok { segment := view.segment, live := some (view.live.elim matched (·.and matched)) }

/-- The views that pass: a segment is read only where `mayMatch` lets it, and one that keeps
no row is dropped. -/
def materialize (schema : Schema) (registry : Registry F) (read : SegmentReader F)
    (predicate : Option (Predicate F))
    (mayMatch : SegmentHandle F → Bool) : List (SegmentHandle F) → Except QueryError
      (List (SegmentView F))
  | [] => .ok []
  | handle :: rest =>
    if handle.liveRowCount = 0 then materialize schema registry read predicate mayMatch rest
    else if !mayMatch handle then materialize schema registry read predicate mayMatch rest
    else do
      let view ← handle.fetch read
      let view ← restrict schema registry predicate view
      let views ← materialize schema registry read predicate mayMatch rest
      .ok (if 0 < view.liveRowCount then view :: views else views)

/-- The column that `ORDER BY` names and the projection does not: it is carried hidden, for
plain projections only. -/
def hiddenOrder (plan : Plan F) : Option String :=
  match plan.projection, plan.distinct, plan.orderBy with
  | .items items, false, some orderBy =>
    if items.any fun item => item.outputName = orderBy.column then none else some orderBy.column
  | _, _, _ => none

/-- The rows that the SELECT list computes, with the hidden column where there is one. -/
def project (schema : Schema) (registry : Registry F) (orderingKey : Option Nat) (plan : Plan F)
    (views : List (SegmentView F)) :
    Except QueryError (QueryOutput F) :=
  match plan.projection with
  | .items items =>
      projectItems schema views
        (items ++ ((hiddenOrder plan).map fun name => PlanItem.column name none).toList) registry
  | .aggregate keys items none => projectAggregate schema views orderingKey keys items
  | .aggregate keys items (some having_) => do
    let output ← projectAggregate schema views orderingKey keys (items ++ having_.items)
    filterHaving output having_.predicate items.length registry

def dropLastColumn (output : QueryOutput F) : QueryOutput F :=
  let schema : Schema := ⟨output.schema.fields.dropLast⟩
  { schema
    batches := output.batches.map fun batch =>
      { schema, columns := batch.columns.take schema.fields.length } }

/-- How many leading rows `LIMIT` and `OFFSET` can reach; the sum saturates. -/
def reach (limit : Option Nat) (offset : Nat) : Option Nat :=
  limit.map fun limit => min (limit + offset) (2 ^ 64 - 1)

/-- What follows the projection: duplicates, order, limit. -/
def arrange (plan : Plan F) (output : QueryOutput F) : Except QueryError (QueryOutput F) := do
  let output := if plan.distinct then distinctOutput output else output
  let output ← match plan.orderBy with
    | some orderBy => sortOutput output orderBy (reach plan.limit (plan.offset.getD 0))
    | none => .ok output
  let output := if plan.limit.isSome || plan.offset.isSome then limitOutput output
    (plan.offset.getD 0) plan.limit else output
  .ok (if (hiddenOrder plan).isSome then dropLastColumn output else output)

def finish (schema : Schema) (registry : Registry F) (orderingKey : Option Nat) (plan : Plan F)
    (views : List (SegmentView F)) :
    Except QueryError (QueryOutput F) := do
  let output ← project schema registry orderingKey plan views
  arrange plan output

/-- The single-input pipeline under any test of which segments to read. -/
def executeOver (mayMatch : SegmentHandle F → Bool) (schema : Schema)
    (handles : List (SegmentHandle F)) (orderingKey : Option Nat)
    (plan : Plan F) (registry : Registry F) (read : SegmentReader F) : Except QueryError
      (QueryOutput F) := do
  let views ← materialize schema registry read plan.predicate mayMatch handles
  finish schema registry orderingKey plan views

/-- The single-input pipeline; zone maps rule out segments before they are read. -/
def executeSingle (schema : Schema) (handles : List (SegmentHandle F)) (orderingKey : Option Nat)
    (plan : Plan F) (registry : Registry F)
    (read : SegmentReader F) : Except QueryError (QueryOutput F) :=
  executeOver (fun handle => plan.predicate.all (canMatch schema handle)) schema handles orderingKey
    plan registry read

def executeWithOrderingKey (schema : Schema) (handles : List (SegmentHandle F)) (orderingKey : Nat)
    (plan : Plan F) (registry : Registry F)
    (read : SegmentReader F) : Except QueryError (QueryOutput F) :=
  if plan.join.isSome then
    .error (.unsupported "joins execute through the multi-table doorway (Database), not a single table")
  else executeSingle schema handles (some orderingKey) plan registry read

end Computed

end TallyDB
