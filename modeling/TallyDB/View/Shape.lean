import TallyDB.Table.Mutate

/-!
# Definitions that can be maintained

A definition is classified by its plan and the tables under it, or refused by name.
-/

namespace TallyDB

variable {F : Type}

structure TableInfo where
  name : String
  schema : Schema
  orderingKey : Nat

/-- The name of the ordering key; the source panics outside the schema. -/
def TableInfo.orderingKeyName (table : TableInfo) : String :=
  (table.schema.fields[table.orderingKey]?).elim "" Field.name

inductive Shape where
  | bucketed (bucket : GroupKey) (name : String)
  | running
  | cumulative
  | joined (orderingKey : String)
  | joinedBucketed (bucket : GroupKey) (name : String)
  deriving DecidableEq

def ineligible {α : Type} (what : String) : Except EngineError α := .error (.query (.unsupported what))

/-- Passes where the condition fails. -/
def ineligibleIf (condition : Bool) (what : String) : Except EngineError Unit :=
  if condition then ineligible what else .ok ()

/-! ### Reserved names -/

def AggItem.alias_ : AggItem → Option String
  | key _ as => as
  | call aggregate => aggregate.as

def PlanItem.alias_ : PlanItem F → Option String
  | column _ as => as
  | computed _ _ name => some name
  | window _ as => as

def Projection.aliases : Projection F → List String
  | .items list => list.filterMap PlanItem.alias_
  | .aggregate _ list _ => list.filterMap AggItem.alias_

def reservedName (name : String) : Bool := ['_', '_'].isPrefixOf name.toList

/-- Refuses names of the materialization's own. Where there are several, which of them the error
tells is left open. -/
def reservedNamesFree (plan : Plan F) (shape : String) : Except EngineError Unit :=
  match (plan.referencedColumns ++ plan.projection.aliases).find? reservedName with
  | none => .ok ()
  | some name =>
      ineligible (s!"'{name}' in a {shape} view definition — names beginning with '__' are reserved " ++
        "for the materialization's internal columns")

/-! ### Aggregates -/

/-- Whether the term is a bucket of the ordering key, by its form. -/
def GroupKey.bucketTerm (orderingKey : String) : GroupKey → Bool
  | bucket _ _ _ => true
  | column name => name = orderingKey

def AggItem.selects (key : GroupKey) : AggItem → Bool
  | .key term _ => term = key
  | .call _ => false

def AggItem.outputName : AggItem → String
  | .key term as => as.getD term.outputName
  | .call aggregate => aggregate.as.getD aggregate.function.name

/-- A bucket start multiplies back by its own width. -/
def GroupKey.sameWidth : GroupKey → Bool
  | bucket _ divide (some multiply) => multiply = divide
  | _ => true

/-- The bucket has one width and is selected; its output name is the view's ordering key. -/
def selectedName (bucket : GroupKey) (items : List AggItem) : Except EngineError String := do
  ineligibleIf (!bucket.sameWidth)
    "a bucket whose multiplier differs from its width in a view definition — a bucket start is (ts / w) * w, same w"
  match items.find? (AggItem.selects bucket) with
  | some item => .ok item.outputName
  | none =>
      ineligible ("a view whose SELECT list omits its bucket — the bucket is the view's ordering " ++
        "key, so select it (alias it to taste)")

def nonSymbol (source : TableInfo) : GroupKey → Bool
  | .column name =>
      name ≠ source.orderingKeyName && source.schema.fields.any fun field =>
        field.name = name && field.columnType ≠ .key
  | .bucket _ _ _ => false

def classifyAggregate (plan : Plan F) (source : TableInfo) (keys : List GroupKey)
    (items : List AggItem) (having_ : Option (Having F)) :
    Except EngineError Shape := do
  ineligibleIf having_.isSome "HAVING in a view definition — a view stores every group; filter at read"
  ineligibleIf (keys.any (nonSymbol source))
    ("a non-symbol, non-bucket GROUP BY key in a view definition — group by symbols and at most one " ++
      "bucket of the ordering key")
  match keys.filter (GroupKey.bucketTerm source.orderingKeyName) with
  | [] => do
    reservedNamesFree plan "running"
    ineligibleIf (keys.any fun key => !items.any (AggItem.selects key))
      ("a running view whose SELECT list omits a GROUP BY key — the combine reads keys from the " ++
        "materialization, so select every key (alias it to taste)")
    .ok .running
  | [bucket] => do
    let name ← selectedName bucket items
    .ok (.bucketed bucket name)
  | _ => ineligible "two buckets of the ordering key in one GROUP BY"

/-! ### Windows -/

/-- The windows that a cumulative view can maintain, by the aggregates of their buckets. -/
def expandingWindowFunction : String → Option AggFunction
  | "sum" => some .sum
  | "count" => some .count
  | "avg" => some .avg
  | "min" => some .min
  | "max" => some .max
  | _ => none

def partitionColumn (orderingKey : String) : GroupKey → Except EngineError String
  | .column name =>
    if name ≠ orderingKey then .ok name
    else ineligible ("a cross-sectional partition in a cumulative view definition — partition by " ++
      "symbols; the instant direction is not running state")
  | .bucket _ _ _ =>
    ineligible ("a cross-sectional partition in a cumulative view definition — partition by " ++
      "symbols; the instant direction is not running state")

/-- The partition columns of a window that a cumulative view can maintain. -/
def classifyWindow (orderingKey : String) : WindowCall → Except EngineError (List String)
  | .value _ _ _ _ _ =>
      ineligible "LAG/LEAD in a view definition — positional lookups are not running state; query them over the base"
  | .agg function _ partitionBy orderBy frame => do
    ineligibleIf (expandingWindowFunction function).isNone
      "a window outside sum/count/avg/min/max in a view definition — only those decompose into bucket partials today"
    ineligibleIf (frame ≠ .rows none)
      ("a bounded window frame in a view definition — a maintained view holds running state; " ++
        "rolling windows derive at read (from the base, or by differencing a cumulative view)")
    ineligibleIf (orderBy ≠ some orderingKey)
      "a cumulative window not ordered by the ordering key in a view definition"
    partitionBy.mapM (partitionColumn orderingKey)

/-- The columns that one item selects and those that it partitions by, none of these for a plain
column. -/
def classifyItem (orderingKey : String) : PlanItem F → Except EngineError (Option (List String))
  | .column _ _ => .ok none
  | .window call _ => (classifyWindow orderingKey call).map some
  | .computed _ _ _ =>
    ineligible ("a computed expression in a cumulative view definition — select columns and whole " ++
      "windows; compose expressions at read")

def PlanItem.selected : PlanItem F → Option String
  | .column name _ => some name
  | _ => none

/-- In the order of their first appearance. -/
def firstAppearances : List String → List String
  | [] => []
  | name :: rest => name :: (firstAppearances rest).filter (· ≠ name)

def sortedNames (names : List String) : List String := names.mergeSort fun left right => left ≤ right

def classifyCumulative (plan : Plan F) (source : TableInfo) (items : List (PlanItem F)) :
    Except EngineError Shape := do
  let windows ← items.mapM (classifyItem source.orderingKeyName)
  let partitions := windows.filterMap id
  let columns := firstAppearances partitions.flatten
  let selected := items.filterMap PlanItem.selected
  ineligibleIf partitions.isEmpty
    "a row-per-row view with no window — a maintained view maintains aggregates; a plain projection is just a query"
  ineligibleIf (source.orderingKeyName ∉ selected)
    "a cumulative view whose SELECT list omits the ordering key — it is the output's axis, so select it"
  ineligibleIf (columns.any (· ∉ selected))
    ("a cumulative view whose SELECT list omits a partition symbol — the boundary adjustment reads " ++
      "it from the output, so select it")
  -- The boundary is computed once for each combination of partition symbols.
  ineligibleIf (partitions.any fun names => sortedNames names ≠ sortedNames columns)
    ("cumulative windows with different PARTITION BY lists in one view definition — one " ++
      "partitioning per view; split the view")
  reservedNamesFree plan "cumulative"
  .ok .cumulative

/-! ### Joins -/

def joinedNonSymbol (source dimension : TableInfo) : GroupKey → Bool
  | .column name => name ≠ source.orderingKeyName &&
    !(source.schema.fields ++ dimension.schema.fields).any fun field =>
      field.name = name && field.columnType = .key
  | .bucket _ _ _ => false

/-- Whether the term is a bucket of the fact ordering key. -/
def GroupKey.bucketOf (orderingKey : String) (key : GroupKey) : Bool := key.columnName = orderingKey

def GroupKey.isBucket : GroupKey → Bool
  | bucket _ _ _ => true
  | column _ => false

def classifyJoinedAggregate (source dimension : TableInfo) (keys : List GroupKey)
    (items : List AggItem) (having_ : Option (Having F)) :
    Except EngineError Shape := do
  ineligibleIf having_.isSome "HAVING in a view definition — a view stores every group; filter at read"
  ineligibleIf (keys.any (joinedNonSymbol source dimension))
    ("a non-symbol, non-bucket GROUP BY key in a join view definition — group by symbols (either " ++
      "side's) and at most one bucket of the fact ordering key")
  match keys.filter (GroupKey.bucketOf source.orderingKeyName) with
  | [] =>
    ineligible ("an aggregate over a join with no bucket of the fact ordering key — running and " ++
      "cumulative shapes over joins hold their seats; bucket the fact axis, or maintain a " ++
      "single-table view")
  | [bucket] => do
    ineligibleIf (keys.any fun key => key.isBucket && !key.bucketOf source.orderingKeyName)
      "a bucket of a non-fact column in a join view definition — the view's axis is the fact ordering key"
    let name ← selectedName bucket items
    .ok (.joinedBucketed bucket name)
  | _ => ineligible "two buckets of the ordering key in one GROUP BY"

def classifyJoinedItem : PlanItem F → Except EngineError Unit
  | .column _ _ => .ok ()
  | .window _ _ =>
      ineligible "a window over a join in a view definition — windows compose at read, over the blotter"
  | .computed _ _ _ =>
      ineligible "a computed expression in a join view definition — select columns; compose expressions at read"

def PlanItem.plainName (orderingKey : String) : PlanItem F → Option String
  | .column name as => if name = orderingKey then some (as.getD name) else none
  | _ => none

def refuseDistinct (plan : Plan F) : Except EngineError Unit :=
  ineligibleIf plan.distinct "DISTINCT in a view definition — deduplicate at read"

def refuseOrder (plan : Plan F) : Except EngineError Unit :=
  ineligibleIf (plan.orderBy.isSome || plan.limit.isSome || plan.offset.isSome)
    "ORDER BY / LIMIT / OFFSET in a view definition — a view is a table; order and limit at read, where they compose"

def classifyJoined (plan : Plan F) (join : JoinPlan) (source : TableInfo)
    (dimension : Option TableInfo) : Except EngineError Shape :=
  match dimension with
  | none => ineligible s!"a join view needs its dimension table: pass '{join.dimension}'"
  | some dimension => do
    refuseDistinct plan
    refuseOrder plan
    match plan.projection with
    | .aggregate keys items having_ => classifyJoinedAggregate source dimension keys items having_
    | .items items => do
      let _ ← items.mapM classifyJoinedItem
      match items.findSome? (PlanItem.plainName source.orderingKeyName) with
      | none =>
        ineligible ("a join view whose SELECT list omits the fact ordering key — it is the view's " ++
          "axis, so select it (alias it to taste)")
      | some name => do
        ineligibleIf (dimension.orderingKeyName = source.orderingKeyName)
          ("a join view whose two tables share an ordering-key NAME — rename the dimension's (the " ++
            "as-of executor refuses the clash)")
        .ok (.joined name)

/-! ### The check -/

def eligibleShape (plan : Plan F) (source : TableInfo) (dimension : Option TableInfo) :
    Except EngineError Shape := do
  ineligibleIf plan.asOf.isSome
    ("ASOF in a view definition — a definition reads one knowledge snapshot, or 'view AS OF s = " ++
      "query(base AS OF s)' stops being well-defined; query the view with ASOF instead")
  ineligibleIf (sequenceColumn ∈ plan.referencedColumns)
    "'_seq' in a view definition — the ingest sequence is knowledge time, and a definition reads one knowledge snapshot"
  match plan.join with
  | some join => classifyJoined plan join source dimension
  | none => do
    refuseDistinct plan
    refuseOrder plan
    match plan.projection with
    | .aggregate keys items having_ => classifyAggregate plan source keys items having_
    | .items items => classifyCumulative plan source items

end TallyDB
