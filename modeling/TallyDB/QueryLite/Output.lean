import TallyDB.Logic.BoundedHeap
import TallyDB.QueryLite.Predicate
import TallyDB.StorageLite.SegmentFormat

/-!
# Output rows

A result is a list of batches under one schema. `DISTINCT`, `ORDER BY` and `LIMIT` choose
rows by (batch, row) and gather the chosen ones into a single batch.
-/

namespace TallyDB

open Wire

variable {F : Type}

def Schema.resolve (schema : Schema) (name : String) : Except QueryError (Nat × Field) :=
  match schema.fields.zipIdx.find? (·.1.name = name) with
  | some (field, index) => .ok (index, field)
  | none => .error (noSuchColumn name)

structure QueryOutput (F : Type) where
  schema : Schema
  batches : List (RecordBatch F)

namespace QueryOutput

def positions (output : QueryOutput F) : List (Nat × Nat) :=
  output.batches.zipIdx.flatMap fun (batch, index) => (List.range batch.numRows).map (index, ·)

end QueryOutput

section Cells

variable [F64 F]

namespace Column

def f64At : Column F → Nat → F
  | f64 values _, row => values.getD row F64.zero
  | _, _ => F64.zero

def i64At : Column F → Nat → Int64
  | i64 values _, row => values.getD row 0
  | _, _ => 0

def valueAt : Column F → Nat → Option String
  | key codes validity dictionary, row =>
    if Bitmap.validAt validity row then some (dictionary.value (codes.getD row 0)) else none
  | _, _ => none

end Column

def RecordBatch.row (batch : RecordBatch F) (row : Nat) : Row F := batch.columns.map (cellValue · row)

def RecordBatch.rows (batch : RecordBatch F) : List (Row F) := (List.range batch.numRows).map batch.row

def QueryOutput.rows (output : QueryOutput F) : List (Row F) := output.batches.flatMap RecordBatch.rows

/-! ### Assembly -/

def assembledValidity (validity : List Bool) : Option Bitmap :=
  if validity.all id then none else some validity

def assembleF64 (results : List (Option F)) : Column F :=
  .f64 (results.map (·.getD F64.zero)) (assembledValidity (results.map Option.isSome))

def assembleI64 (results : List (Option Int64)) : Column F :=
  .i64 (results.map (·.getD 0)) (assembledValidity (results.map Option.isSome))

/-- Every code stays inside the dictionary, even where all rows are null. -/
def assembleKey (codes : List Nat) (validity : List Bool) (dictionary : Dictionary) : Column F :=
  let dictionary := if dictionary.isEmpty && !codes.isEmpty then (dictionary.intern "").2
    else dictionary
  .key codes (assembledValidity validity) dictionary

/-- The code of each text in a dictionary that grows with them; an absent text has the code 0. -/
def internAll : List (Option String) → Dictionary → List Nat × Dictionary
  | [], dictionary => ([], dictionary)
  | none :: rest, dictionary =>
    let (codes, grown) := internAll rest dictionary
    (0 :: codes, grown)
  | some text :: rest, dictionary =>
    let (code, grown) := dictionary.intern text
    let (codes, last) := internAll rest grown
    (code :: codes, last)

def gatherColumn (columnType : ColumnType) (sources : List (Option (Column F × Nat))) : Column F :=
  let validity := sources.map fun source => source.any fun (column, row) => column.isValid row
  match columnType with
  | .f64 =>
      .f64 (sources.map fun source => source.elim F64.zero fun (column, row) => column.f64At row)
        (assembledValidity validity)
  | .i64 =>
      .i64 (sources.map fun source => source.elim 0 fun (column, row) => column.i64At row)
        (assembledValidity validity)
  | .key =>
    let values := sources.map fun source => source.bind fun (column, row) => column.valueAt row
    let (codes, dictionary) := internAll values .empty
    assembleKey codes (values.map Option.isSome) dictionary

theorem gatherColumn_columnType (columnType : ColumnType) (sources : List (Option (Column F × Nat))) :
    (gatherColumn columnType sources).columnType = columnType := by
  cases columnType <;> rfl

def QueryOutput.takeRows (schema : Schema) (batches : List (RecordBatch F))
    (picks : List (Nat × Nat)) : RecordBatch F where
  schema
  columns := schema.fields.zipIdx.map fun (field, index) =>
    gatherColumn field.columnType (picks.map fun (batch, row) => (batches[batch]?).map fun source =>
      (source.column index, row))

/-! ### DISTINCT -/

/-- A cell's identity: a tag, then the value's bytes; NaN has one, and so have both zeros. -/
def cellIdentity (column : Column F) (row : Nat) : Bytes :=
  match column with
  | .f64 values validity =>
    if Bitmap.validAt validity row then
      let value := values.getD row F64.zero
      let canonical := if F64.isNan value then F64.nan else if F64.exact value =
        .finite 0 then F64.zero else value
      1 :: toLe 8 (F64.toBits canonical).toNat
    else [0]
  | .i64 values validity =>
      if Bitmap.validAt validity row then 2 :: toLe 8 (values.getD row 0).toUInt64.toNat else [0]
  | .key _ _ _ => match column.valueAt row with
    | some value => 3 :: toLe 4 (utf8 value).length ++ utf8 value
    | none => [0]

def rowIdentity (batches : List (RecordBatch F)) (pick : Nat × Nat) : Bytes :=
  (batches[pick.1]?).elim [] fun batch => batch.columns.flatMap (cellIdentity · pick.2)

/-- The first pick of each identity not yet seen. -/
def firstSeen (identity : Nat × Nat → Bytes) : List (Nat × Nat) → List Bytes → List (Nat × Nat)
  | [], _ => []
  | pick :: rest, seen =>
    if identity pick ∈ seen then firstSeen identity rest seen
    else pick :: firstSeen identity rest (identity pick :: seen)

def distinctOutput (output : QueryOutput F) : QueryOutput F where
  schema := output.schema
  batches := [QueryOutput.takeRows output.schema output.batches
    (firstSeen (rowIdentity output.batches) output.positions [])]

/-! ### ORDER BY and LIMIT -/

inductive SortCell (F : Type) where
  | i64 (value : Int64)
  | f64 (value : F)

def SortCell.compare : SortCell F → SortCell F → Ordering
  | f64 left, f64 right => cmpF64 left right
  | i64 left, i64 right => Ord.compare left.toInt right.toInt
  | i64 _, f64 _ => .lt
  | f64 _, i64 _ => .gt

/-- A row's key cell, where the row lives, and its place in the input, which breaks ties. -/
structure SortEntry (F : Type) where
  cell : Option (SortCell F)
  pick : Nat × Nat
  position : Nat

def OrderBy.compare (orderBy : OrderBy) (left right : SortEntry F) : Ordering :=
  -- The placement of nulls sits outside the reversal.
  let nullOrder : Ordering := if orderBy.nullsFirst.getD false then .lt else .gt
  let ordering : Ordering := match left.cell, right.cell with
    | none, none => .eq
    | none, some _ => nullOrder
    | some _, none => nullOrder.swap
    | some left, some right =>
        if orderBy.descending then (left.compare right).swap else left.compare right
  ordering.then (Ord.compare left.position right.position)

def sortCell (column : Column F) (row : Nat) : Option (SortCell F) :=
  match column with
  | .f64 values validity =>
      if Bitmap.validAt validity row then some (.f64 (values.getD row F64.zero)) else none
  | .i64 values validity =>
      if Bitmap.validAt validity row then some (.i64 (values.getD row 0)) else none
  | .key _ _ _ => none

def sortEntries (output : QueryOutput F) (index : Nat) : List (SortEntry F) :=
  output.positions.zipIdx.map fun (pick, position) =>
    { cell := (output.batches[pick.1]?).bind fun batch => sortCell (batch.column index) pick.2,
      pick, position }

/-- Sorts by one column into a single batch; `keep` is how many leading rows are of use. -/
def sortOutput (output : QueryOutput F) (orderBy : OrderBy) (keep : Option Nat) : Except QueryError
      (QueryOutput F) := do
  let (index, field) ← output.schema.resolve orderBy.column
  if field.columnType = .key then
    .error (.typeError
      (s!"ORDER BY '{orderBy.column}': symbol columns are unordered labels, not ordered text — " ++
        "group or filter by them, and order by a number (their codes are per-segment, so they " ++
        "rank nothing)"))
  else
    let picks := (BoundedHeap.select orderBy.compare keep (sortEntries output index)).map SortEntry.pick
    .ok { schema := output.schema, batches := [QueryOutput.takeRows output.schema output.batches picks] }

def limitOutput (output : QueryOutput F) (offset : Nat) (limit : Option Nat) : QueryOutput F :=
  let rest := output.positions.drop offset
  let picks := limit.elim rest rest.take
  { schema := output.schema
    batches := if picks.isEmpty then []
      else [QueryOutput.takeRows output.schema output.batches picks] }

end Cells

end TallyDB
