import TallyDB.QueryLite.Exec

/-!
# Joins

The fact side is joined to one dimension on key columns, each fact row to at most one
dimension row, and the single-table pipeline runs over the widened rows.
-/

namespace TallyDB

variable {F : Type}

structure JoinSide (F : Type) where
  schema : Schema
  handles : List (SegmentHandle F)
  orderingKey : Nat

abbrev Pick := Nat × Nat

structure HistoryRow where
  clock : Int64
  sequence : Nat
  pick : Pick

inductive DimensionIndex where
  | unique (lookup : List (String × Pick))
  | history (rows : String → List HistoryRow) (matching : AsOfMatch)

def keyedRows [F64 F] (keyIndex : Nat) (view : SegmentView F × Nat) : List (String × Pick) :=
  view.1.liveIndices.filterMap fun row => ((view.1.segment.batch.column keyIndex).valueAt row).map
    (·, (view.2, row))

/-- Refuses a key that comes twice. -/
def insertUnique (keyName : String) : List (String × Pick) → List (String × Pick) →
    Except QueryError (List (String × Pick))
  | lookup, [] => .ok lookup
  | lookup, (value, pick) :: rest =>
    if (lookup.lookup value).isSome then
      .error (.typeError
        s!"dimension key '{keyName}' is not unique (value '{value}'): a star-schema dimension is a lookup table")
    else insertUnique keyName ((value, pick) :: lookup) rest

namespace DimensionIndex

def ofUnique [F64 F] (views : List (SegmentView F)) (keyIndex : Nat) (keyName : String) :
    Except QueryError DimensionIndex :=
  (insertUnique keyName [] (views.zipIdx.flatMap (keyedRows keyIndex))).map unique

/-- Every row a key, by clock and then by birth sequence. -/
def ofHistory [F64 F] (views : List (SegmentView F)) (keyIndex timeIndex : Nat)
    (matching : AsOfMatch) : DimensionIndex :=
  let entries := views.zipIdx.flatMap fun view =>
    (keyedRows keyIndex view).map fun entry => (entry.1, ({
    clock := (orderingClocks (view.1.segment.batch.column timeIndex)).getD entry.2.2 0
    sequence := view.1.segment.sequenceAt entry.2.2
    pick := entry.2 } : HistoryRow))
  history (fun value => ((entries.filter (·.1 = value)).map Prod.snd).mergeSort fun left right =>
    left.clock < right.clock || (left.clock = right.clock && left.sequence ≤ right.sequence)) matching

def pick (index : DimensionIndex) (value : String) (clock : Int64) : Option Pick :=
  match index with
  | unique lookup => lookup.lookup value
  | history rows matching =>
    let reached := (rows value).takeWhile fun row => match matching with
      | .atOrBefore => row.clock ≤ clock
      | .strictlyBefore => row.clock < clock
    reached.getLast?.map HistoryRow.pick

def picks [F64 F] (index : DimensionIndex) (batch : RecordBatch F) (keyIndex timeIndex : Nat) : List
      (Option Pick) :=
  (List.range batch.numRows).map fun row =>
    ((batch.column keyIndex).valueAt row).bind fun value =>
      index.pick value ((orderingClocks (batch.column timeIndex)).getD row 0)

end DimensionIndex

/-- An explicit time comparison can only restate the two ordering keys. -/
def checkAsOfAxis (join : JoinPlan) (fact dimension : JoinSide F) : Except QueryError Unit :=
  match join.asOfNamed with
  | none => .ok ()
  | some (namedFact, namedDimension) =>
    let name (side : JoinSide F) : String := (side.schema.fields[side.orderingKey]?).elim "" Field.name
    if namedFact ≠ name fact || namedDimension ≠ name dimension then
      .error (.unsupported
        (s!"ASOF JOIN matches on the tables' declared ordering keys — '{name fact}' and " ++
          s!"'{name dimension}' — so its time comparison can only restate them; '{namedFact}' and " ++
          s!"'{namedDimension}' name something else"))
    else .ok ()

def dimensionIndex [F64 F] (join : JoinPlan) (fact dimension : JoinSide F)
    (dimensionViews : List (SegmentView F)) (dimensionKey : Nat) :
    Except QueryError DimensionIndex :=
  match join.asOf with
  | none => DimensionIndex.ofUnique dimensionViews dimensionKey join.dimensionKey
  | some matching => do
    checkAsOfAxis join fact dimension
    .ok (.ofHistory dimensionViews dimensionKey dimension.orderingKey matching)

def resolveJoinKey (schema : Schema) (name : String) : Except QueryError Nat := do
  let (index, field) ← schema.resolve name
  if field.columnType ≠ .key then
    .error (.typeError s!"join column '{name}' must be a key column — joining is what keys are for")
  else .ok index

/-- The dimension's columns that the joined rows carry: all the query reads but the key. A
name that both tables have is refused whether the query reads it or not. -/
def joinedColumns (factSchema : Schema) (keyIndex : Nat) (referenced : List String) : List
      (Field × Nat) → Except QueryError (List (Field × Nat))
  | [] => .ok []
  | (field, index) :: rest =>
    if index = keyIndex then joinedColumns factSchema keyIndex referenced rest
    else if factSchema.fields.any (·.name = field.name) then
      .error (.unsupported
        s!"column '{field.name}' exists in both tables — star-schema dimensions need distinct attribute names")
    else do
      let columns ← joinedColumns factSchema keyIndex referenced rest
      .ok (if field.name ∈ referenced then (field, index) :: columns else columns)

/-- The fact table's fields, then the dimension's, which LEFT may leave null. -/
def joinedSchema (factSchema : Schema) (columns : List (Field × Nat)) : Schema :=
  ⟨factSchema.fields ++ columns.map fun column => .new column.1.name column.1.columnType true⟩

/-- The source of a picked dimension cell. -/
def dimensionSource (views : List (SegmentView F)) (index : Nat) (pick : Option Pick) : Option
      (Column F × Nat) :=
  pick.bind fun place => (views[place.1]?).map fun view => (view.segment.batch.column index, place.2)

def joinView [F64 F] (schema : Schema) (left : Bool) (dimensionViews : List (SegmentView F))
    (columns : List (Field × Nat))
    (picks : List (Option Pick)) (view : SegmentView F) : SegmentView F :=
  let matched := picks.map Option.isSome
  let batch : RecordBatch F := {
    schema
    columns := view.segment.batch.columns ++ columns.map fun column =>
      gatherColumn column.1.columnType (picks.map (dimensionSource dimensionViews column.2)) }
  { segment := {
      batch
      orderingKey := view.segment.orderingKey
      ordered := view.segment.ordered
      baseRowId := 0
      zoneMaps := batch.columns.map computeZoneMap
      -- The fact row's birth stays readable; row ids start at 0 here.
      sequence := match view.segment.sequence with
        | .rowIds => .contiguous view.segment.baseRowId
        | carried => carried
      superseded := none }
    live := if left then view.live else some (view.live.elim matched (·.and matched)) }

section Execute

variable [F64Math F]

def executeJoinOver (mayMatch : SegmentHandle F → Bool)
    (mayMatchJoined : Schema → SegmentHandle F → Bool) (join : JoinPlan)
    (fact dimension : JoinSide F) (plan : Plan F) (registry : Registry F) (read : SegmentReader F) :
    Except QueryError (QueryOutput F) := do
  let factViews ← (fact.handles.filter mayMatch).mapM (SegmentHandle.fetch read)
  let dimensionViews ← dimension.handles.mapM (SegmentHandle.fetch read)
  let factKey ← resolveJoinKey fact.schema join.factKey
  let dimensionKey ← resolveJoinKey dimension.schema join.dimensionKey
  let index ← dimensionIndex join fact dimension dimensionViews dimensionKey
  let columns ← joinedColumns fact.schema dimensionKey plan.referencedColumns
    dimension.schema.fields.zipIdx
  let schema := joinedSchema fact.schema columns
  let views := factViews.map fun view =>
    joinView schema join.left dimensionViews columns
      (index.picks view.segment.batch factKey fact.orderingKey) view
  executeOver (mayMatchJoined schema) schema
    (views.map fun view => .resident view.segment view.live) (some fact.orderingKey) plan registry read

/-- Joins the fact side to the dimension and runs the single-table pipeline; zone maps rule
out fact segments before they are read. -/
def executeJoin (fact dimension : JoinSide F) (plan : Plan F) (registry : Registry F)
    (read : SegmentReader F) :
    Except QueryError (QueryOutput F) :=
  match plan.join with
  | none => executeWithOrderingKey fact.schema fact.handles fact.orderingKey plan registry read
  | some join => executeJoinOver (fun handle => plan.predicate.all (canMatch fact.schema handle))
      (fun schema handle => plan.predicate.all (canMatch schema handle)) join fact dimension
        plan registry read

end Execute

end TallyDB
