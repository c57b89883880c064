import TallyDB.ArrowLite.Column
import TallyDB.StorageLite.Mem

/-!
# Plans

What a parsed statement is lowered to. The planner has no schema: a plan names columns and
leaves their types to the executor.
-/

namespace TallyDB

inductive QueryError where
  | parse (message : String)
  | unsupported (what : String)
  | unknownColumn (name : String)
  | unknownFunction (name : String)
  | typeError (message : String)
  | unordered (message : String)
  | compute (message : String)
  | storage (error : StorageError)
  deriving DecidableEq

/-- The ingest-sequence pseudocolumn. -/
def sequenceColumn : String := "_seq"

def noSuchColumn (name : String) : QueryError :=
  if name = sequenceColumn then
    .unsupported (s!"'{sequenceColumn}' can be selected, not filtered or grouped on (project it, " ++
      "then order or page by it; `AS OF` is how a coordinate filters)")
  else .unknownColumn name

inductive Number (F : Type) where
  | int (value : Int64)
  | float (value : F)
  deriving DecidableEq

inductive CmpOp where
  | eq | ne | lt | le | gt | ge
  deriving DecidableEq, Repr

inductive ArithOp where
  | add | sub | mul | div | mod
  deriving DecidableEq, Repr

inductive ScalarFunction where
  | abs | round | floor | ceil | sqrt | ln | exp | power
  deriving DecidableEq, Repr

mutual

/-- A scalar expression over one row; `window` reads a window call hoisted out of it. -/
inductive ScalarExpr (F : Type) where
  | column (name : String)
  | window (index : Nat)
  | literal (value : F)
  | negate (inner : ScalarExpr F)
  | binary (op : ArithOp) (left right : ScalarExpr F)
  | call (function : ScalarFunction) (args : List (ScalarExpr F))
  | case (whens : List (Predicate F × ScalarExpr F)) (otherwise : Option (ScalarExpr F))
  | registered (name : String) (args : List (ScalarExpr F))

/-- A row predicate. A `negated` key test is `<>`, `NOT LIKE` or `NOT IN`; a negated
`isNull` is `IS NOT NULL`. -/
inductive Predicate (F : Type) where
  | compare (column : String) (op : CmpOp) (value : Number F)
  | compareExpr (left : ScalarExpr F) (op : CmpOp) (right : ScalarExpr F)
  | keyEquals (column value : String) (negated : Bool)
  | keyLike (column pattern : String) (negated : Bool)
  | isNull (column : String) (negated : Bool)
  | keyIn (column : String) (values : List String) (negated : Bool)
  | and (left right : Predicate F)
  | or (left right : Predicate F)
  | not (inner : Predicate F)

end

variable {F : Type}

mutual

def ScalarExpr.usesRegistered : ScalarExpr F → Bool
  | .registered _ _ => true
  | .column _ | .literal _ | .window _ => false
  | .negate inner => inner.usesRegistered
  | .binary _ left right => left.usesRegistered || right.usesRegistered
  | .call _ args => anyUsesRegistered args
  | .case whens otherwise => whensUseRegistered whens || elseUsesRegistered otherwise

def anyUsesRegistered : List (ScalarExpr F) → Bool
  | [] => false
  | expr :: rest => expr.usesRegistered || anyUsesRegistered rest

def whensUseRegistered : List (Predicate F × ScalarExpr F) → Bool
  | [] => false
  | (condition, value) :: rest =>
    condition.usesRegistered || value.usesRegistered || whensUseRegistered rest

def elseUsesRegistered : Option (ScalarExpr F) → Bool
  | none => false
  | some expr => expr.usesRegistered

def Predicate.usesRegistered : Predicate F → Bool
  | .compareExpr left _ right => left.usesRegistered || right.usesRegistered
  | .and left right | .or left right => left.usesRegistered || right.usesRegistered
  | .not inner => inner.usesRegistered
  | _ => false

end

/-! ### Queries -/

/-- A `GROUP BY` or `PARTITION BY` term: a column by its value, or an integer bucket of it. -/
inductive GroupKey where
  | column (name : String)
  | bucket (name : String) (divide : Int64) (multiply : Option Int64)
  deriving DecidableEq

namespace GroupKey

def columnName : GroupKey → String
  | column name => name
  | bucket name _ _ => name

def outputName : GroupKey → String
  | column name => name
  | bucket name divide none => s!"{name} / {divide}"
  | bucket name divide (some multiply) => s!"({name} / {divide}) * {multiply}"

end GroupKey

/-- The rows that one output row of a window sees. -/
inductive Frame where
  /-- A number of rows before the current one, `none` from the start of the run. -/
  | rows (preceding : Option Nat)
  /-- Every row whose ordering key is within the span of the current row's. -/
  | range (span : UInt64)
  | partition
  deriving DecidableEq

inductive WindowCall where
  | agg (function : String) (args : List String) (partitionBy : List GroupKey)
      (orderBy : Option String) (frame : Frame)
  | value (lead : Bool) (column : String) (offset : Nat) (partitionBy : List GroupKey)
      (orderBy : String)
  deriving DecidableEq

namespace WindowCall

def defaultName : WindowCall → String
  | agg function _ _ _ _ => function
  | value lead _ _ _ _ => if lead then "lead" else "lag"

def columns : WindowCall → List String
  | agg _ args partitionBy orderBy _ => args ++ orderBy.toList ++ partitionBy.map GroupKey.columnName
  | value _ column _ partitionBy orderBy => column :: orderBy :: partitionBy.map GroupKey.columnName

end WindowCall

inductive PlanItem (F : Type) where
  | column (name : String) (as : Option String)
  /-- `windows` are the calls hoisted out of the expression, in the order it indexes them. -/
  | computed (expr : ScalarExpr F) (windows : List WindowCall) (name : String)
  | window (call : WindowCall) (as : Option String)

def PlanItem.outputName : PlanItem F → String
  | column name as => as.getD name
  | computed _ _ name => name
  | window call as => as.getD call.defaultName

inductive AggFunction where
  | count | sum | avg | min | max | first | last
  deriving DecidableEq, Repr

namespace AggFunction

def name : AggFunction → String
  | count => "count"
  | sum => "sum"
  | avg => "avg"
  | min => "min"
  | max => "max"
  | first => "first"
  | last => "last"

end AggFunction

/-- A plain aggregate call; without an argument it is `COUNT(*)`. -/
structure AggCall where
  function : AggFunction
  argument : Option String
  as : Option String
  deriving DecidableEq

inductive AggItem where
  | key (term : GroupKey) (as : Option String)
  | call (aggregate : AggCall)
  deriving DecidableEq

/-- The hidden aggregate columns that `HAVING` tests, and the test. -/
structure Having (F : Type) where
  items : List AggItem
  predicate : Predicate F

inductive Projection (F : Type) where
  | items (items : List (PlanItem F))
  | aggregate (keys : List GroupKey) (items : List AggItem) (having_ : Option (Having F))

structure OrderBy where
  column : String
  descending : Bool
  nullsFirst : Option Bool
  deriving DecidableEq

/-- How an as-of join compares the two ordering keys. -/
inductive AsOfMatch where
  | atOrBefore | strictlyBefore
  deriving DecidableEq

structure JoinPlan where
  dimension : String
  factKey : String
  dimensionKey : String
  left : Bool
  asOf : Option AsOfMatch
  /-- The two columns that an explicit inequality named, the fact's first. -/
  asOfNamed : Option (String × String)
  deriving DecidableEq

structure Plan (F : Type) where
  table : String
  join : Option JoinPlan
  projection : Projection F
  distinct : Bool
  predicate : Option (Predicate F)
  orderBy : Option OrderBy
  limit : Option Nat
  offset : Option Nat
  asOf : Option Nat

mutual

def ScalarExpr.columns : ScalarExpr F → List String
  | .column name => [name]
  | .literal _ | .window _ => []
  | .negate inner => inner.columns
  | .binary _ left right => left.columns ++ right.columns
  | .call _ args | .registered _ args => argColumns args
  | .case whens otherwise => whenColumns whens ++ elseColumns otherwise

def argColumns : List (ScalarExpr F) → List String
  | [] => []
  | expr :: rest => expr.columns ++ argColumns rest

def whenColumns : List (Predicate F × ScalarExpr F) → List String
  | [] => []
  | (condition, value) :: rest => condition.columns ++ value.columns ++ whenColumns rest

def elseColumns : Option (ScalarExpr F) → List String
  | none => []
  | some expr => expr.columns

def Predicate.columns : Predicate F → List String
  | .compareExpr left _ right => left.columns ++ right.columns
  | .compare column _ _ | .keyEquals column _ _ | .keyLike column _ _ | .keyIn column _ _ | .isNull
      column _ => [column]
  | .and left right | .or left right => left.columns ++ right.columns
  | .not inner => inner.columns

end

def PlanItem.columns : PlanItem F → List String
  | column name _ => [name]
  | computed expr windows _ => expr.columns ++ windows.flatMap WindowCall.columns
  | window call _ => call.columns

def AggItem.columns : AggItem → List String
  | key term _ => [term.columnName]
  | call aggregate => aggregate.argument.toList

/-- Every stored-column name the plan reads, and some more. -/
def Plan.referencedColumns (plan : Plan F) : List String :=
  plan.predicate.elim [] Predicate.columns ++ (plan.orderBy.map OrderBy.column).toList ++
    match plan.projection with
    | .items items => items.flatMap PlanItem.columns
    | .aggregate keys items having_ => keys.map GroupKey.columnName ++ items.flatMap AggItem.columns ++
      having_.elim [] fun having_ => having_.items.flatMap AggItem.columns ++ having_.predicate.columns

/-! ### The registry -/

/-- A registered per-row function, evaluated a whole column at a time: each argument is its
values and their validity over the live rows. -/
structure ColumnFunction (F : Type) where
  arity : Nat
  evaluate : List (List F × List Bool) → Except String (List (Option F))

/-- A registered window aggregate over the rows of one run, oldest first. -/
structure WindowAggregate (F : Type) where
  arity : Nat
  /-- The trailing frames of a row count, `none` from the start of the run. -/
  evaluateFrames : List (List F) → Option Nat → Except String (List (Option F))
  /-- The frames of explicit half-open row ranges. -/
  evaluateBoundedFrames : List (List F) → List (Nat × Nat) → Except String (List (Option F))
  outputType : ColumnType

/-- What the embedder registered, under lower-cased names. -/
structure Registry (F : Type) where
  aggregates : String → Option (WindowAggregate F)
  columns : String → Option (ColumnFunction F)

end TallyDB
