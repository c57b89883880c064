import TallyDB.QueryLite.Exec
import TallyDB.StorageLite.Ops

/-!
# Mutations of a table

`INSERT` appends its rows one by one. `DELETE` and `UPDATE` walk every live row of a
snapshot, without pruning, and kill or supersede those that match.
-/

namespace TallyDB

open Crash

variable {F : Type}

inductive EngineError where
  | storage (error : StorageError)
  | query (error : QueryError)
  /-- The statement names a table that this handle does not hold. -/
  | wrongTable (expected got : String)
  deriving DecidableEq

/-! ### Statements -/

inductive InsertValue (F : Type) where
  | number (number : Number F)
  | string (text : String)
  | null
  deriving DecidableEq

structure InsertPlan (F : Type) where
  table : String
  /-- The named column order; without one, the schema's. -/
  columns : Option (List String)
  rows : List (List (InsertValue F))

inductive SetValue (F : Type) where
  | number (number : Number F)
  | string (text : String)
  | null
  deriving DecidableEq

structure Assignment (F : Type) where
  column : String
  value : SetValue F

structure UpdatePlan (F : Type) where
  table : String
  assignments : List (Assignment F)
  predicate : Option (Predicate F)

structure DeletePlan (F : Type) where
  table : String
  predicate : Option (Predicate F)

inductive Statement (F : Type) where
  | select (plan : Plan F)
  | createTable
  | insert (plan : InsertPlan F)
  | update (plan : UpdatePlan F)
  | delete (plan : DeletePlan F)

/-! ### INSERT -/

section Insert

variable [F64Math F] (display : F → String)

def columnPosition (schema : Schema) (name : String) : Except EngineError Nat :=
  match schema.fields.findIdx? (·.name = name) with
  | some index => .ok index
  | none => .error (.query (.unknownColumn name))

/-- The places that a row's values go to. -/
def insertOrder (schema : Schema) : Option (List String) → Except EngineError (List Nat)
  | none => .ok (List.range schema.fields.length)
  | some names => names.mapM (columnPosition schema)

/-- A literal as a cell: exactly, or refused. `display` is how the runtime prints a float. -/
def insertCell (field : Field) : InsertValue F → Except EngineError (RowValue F)
  | .null => .ok .null
  | .string text => .ok (.key text)
  | .number number => match field.columnType, number with
    | .f64, .float value => .ok (.f64 value)
    | .f64, .int value =>
      let asF64 : F := F64Arith.ofInt64 value
      if F64.exact asF64 ≠ .finite value.toInt then
        .error (.query (.typeError
          s!"integer {value} does not fit an f64 exactly (column '{field.name}')"))
      else .ok (.f64 asF64)
    | .i64, .int value => .ok (.i64 value)
    | .i64, .float value =>
        .error (.query (.typeError
          s!"float {display value} into BIGINT column '{field.name}' would truncate"))
    | .key, _ =>
        .error (.query (.typeError s!"number into SYMBOL column '{field.name}' (labels take strings)"))

def placeCells (fields : List Field) : List (InsertValue F × Nat) → Row F → Except EngineError (Row F)
  | [], cells => .ok cells
  | (value, position) :: rest, cells => do
    let cell ← insertCell display (fields.getD position (.new "" .f64 false)) value
    placeCells fields rest (cells.set position cell)

def insertCells (schema : Schema) (order : List Nat) (row : List (InsertValue F)) :
    Except EngineError (Row F) :=
  if row.length ≠ order.length then
    .error (.query (.unsupported s!"INSERT row has {row.length} values for {order.length} columns"))
  else placeCells display schema.fields (row.zip order) (List.replicate schema.fields.length .null)

end Insert

/-! ### UPDATE -/

def ColumnType.debugName : ColumnType → String
  | f64 => "F64"
  | i64 => "I64"
  | key => "Key"

/-- A `SET` literal as a cell. -/
def assignedValue [F64Math F] (field : Field) (column : String) : SetValue F →
    Except EngineError (RowValue F)
  | .null =>
    if field.nullable then .ok .null else .error (.query (.typeError s!"column '{column}' is NOT NULL"))
  | value => match value, field.columnType with
    | .number (.float value), .f64 => .ok (.f64 value)
    | .number (.int value), .f64 => .ok (.f64 (F64Arith.ofInt64 value))
    | .number (.int value), .i64 => .ok (.i64 value)
    | .string text, .key => .ok (.key text)
    | _, columnType =>
        .error (.query (.typeError
          s!"SET value does not fit column '{column}' ({columnType.debugName})"))

/-- Every assignment, checked before anything is touched. -/
def assignedCells [F64Math F] (schema : Schema) (assignments : List (Assignment F)) :
    Except EngineError (List (Nat × RowValue F)) :=
  assignments.mapM fun assignment => do
    let index ← columnPosition schema assignment.column
    let value ← assignedValue (schema.fields.getD index (.new "" .f64 false)) assignment.column
      assignment.value
    .ok (index, value)

/-- A row with the assigned cells in place, the last assignment of a column counting. -/
def overwrite (assigned : List (Nat × RowValue F)) (cells : Row F) : Row F :=
  assigned.foldl (fun cells cell => cells.set cell.1 cell.2) cells

/-! ### Matches -/

section Matches

variable [F64Math F]

structure Match (F : Type) where
  id : Nat
  cells : Row F

def matchedRows (schema : Schema) (registry : Registry F) (predicate : Option (Predicate F))
    (view : SegmentView F) :
    Except QueryError (List (Match F)) := do
  let matched ← predicate.mapM fun predicate => evaluatePredicate ⟨schema, view, registry, []⟩ predicate
  let hits := (List.range view.segment.numRows).filter fun row =>
    view.isLive row && matched.all (·.get row)
  .ok (hits.map fun row => ⟨view.segment.baseRowId + row, view.segment.row row⟩)

/-- Every live row that matches, in row-id order. -/
def forEachMatch (schema : Schema) (registry : Registry F) (predicate : Option (Predicate F))
    (views : List (SegmentView F)) :
    Except QueryError (List (Match F)) :=
  (views.mapM (matchedRows schema registry predicate)).map List.flatten

end Matches

/-! ### The table -/

abbrev TableM (F α : Type) := Fallible (Call F) Call.Resp (Store F) EngineError α

namespace Table

def storage {α : Type} (x : StoreM F α) : TableM F α := Fallible.mapError .storage x

def checkTable (name named : String) : TableM F Unit :=
  if named ≠ name then Fallible.fail (.wrongTable name named) else pure ()

variable [F64Math F] (name : String) (registry : Registry F) (display : F → String)

def materialize : TableM F (List (SegmentView F)) := storage do
  let store ← Fallible.read
  let handles ← Fallible.ofExcept store.snapshot
  Fallible.collect (SegmentHandle.view store.schema) handles

def matches_ (predicate : Option (Predicate F)) : TableM F (List (Match F)) := do
  let store ← Fallible.read
  let views ← materialize
  Fallible.ofExcept ((forEachMatch store.schema registry predicate views).mapError .query)

def insertRow (order : List Nat) (row : List (InsertValue F)) : TableM F Unit := do
  let store ← Fallible.read
  let cells ← Fallible.ofExcept (insertCells display store.schema order row)
  let _ ← storage (Store.append cells)
  return ()

def insert (plan : InsertPlan F) : TableM F Nat := do
  let store ← Fallible.read
  let order ← Fallible.ofExcept (insertOrder store.schema plan.columns)
  Fallible.each (insertRow display order) plan.rows
  return plan.rows.length

def delete (plan : DeletePlan F) : TableM F Nat := do
  checkTable name plan.table
  let hits ← matches_ registry plan.predicate
  storage (Store.tombstone (hits.map Match.id))

def update (plan : UpdatePlan F) : TableM F Nat := do
  checkTable name plan.table
  let store ← Fallible.read
  let assigned ← Fallible.ofExcept (assignedCells store.schema plan.assignments)
  let hits ← matches_ registry plan.predicate
  if hits.isEmpty then pure 0
  else storage (Store.supersede (hits.map fun hit => overwrite assigned hit.cells) (hits.map Match.id))

/-- Runs one SQL mutation, as far as it parses. -/
def mutate (parsed : Except QueryError (Statement F)) : TableM F Nat :=
  match parsed with
  | .error e => Fallible.fail (.query e)
  | .ok (.select _) => Fallible.fail (.query (.unsupported "SELECT runs through query, not mutate"))
  | .ok .createTable =>
      Fallible.fail (.query (.unsupported "CREATE TABLE runs through the database handle"))
  | .ok (.insert plan) => do
    checkTable name plan.table
    insert display plan
  | .ok (.delete plan) => delete name registry plan
  | .ok (.update plan) => update name registry plan

end Table

end TallyDB
