import Mathlib.Data.List.AList
import Mathlib.Data.List.Dedup
import Mathlib.Data.List.Forall2
import Mathlib.Data.List.Induction
import Mathlib.Data.List.Sort
import TallyDB.ArrowLite.Float

/-!
# Columns

Numeric columns hold one value a row, key columns one dictionary code a row. A column
without a validity bitmap has no null.
-/

namespace TallyDB

inductive ColumnType where
  | f64 | i64 | key
  deriving DecidableEq, Repr

/-- How an `i64` column asks to be seen at export. -/
inductive LogicalType where
  | timestampNs
  /-- The stored integer times `10 ^ -scale`; the scale is a byte. -/
  | decimal64 (scale : UInt8)
  deriving DecidableEq, Repr

def LogicalType.validFor (_ : LogicalType) (columnType : ColumnType) : Bool := columnType = .i64

/-- One column's declaration. An annotation sits on a column of a type it applies to. -/
structure Field where
  name : String
  columnType : ColumnType
  nullable : Bool
  logical : Option LogicalType
  applies : ∀ annotation, logical = some annotation → annotation.validFor columnType = true
  deriving DecidableEq, Repr

def Field.new (name : String) (columnType : ColumnType) (nullable : Bool) : Field :=
  ⟨name, columnType, nullable, none, nofun⟩

structure Schema where
  fields : List Field
  deriving DecidableEq, Repr

abbrev Bitmap := List Bool

namespace Bitmap

def get (bits : Bitmap) (row : Nat) : Bool := bits.getD row false

def and (left right : Bitmap) : Bitmap := left.zipWith (· && ·) right

def or (left right : Bitmap) : Bitmap := left.zipWith (· || ·) right

def countSet (bits : Bitmap) : Nat := bits.count true

/-- Whether `row` is valid; a missing bitmap marks every row valid. -/
def validAt : Option Bitmap → Nat → Bool
  | none, _ => true
  | some bits, row => get bits row

end Bitmap

/-- An interning table. Codes are positions in first-seen order, and no value has two. -/
structure Dictionary where
  values : List String
  distinct : values.Nodup
  deriving DecidableEq

namespace Dictionary

def empty : Dictionary := ⟨[], List.nodup_nil⟩

def isEmpty (dictionary : Dictionary) : Bool := dictionary.values.isEmpty

/-- The value for `code`; the empty text outside the table, where the source panics. -/
def value (dictionary : Dictionary) (code : Nat) : String := dictionary.values.getD code ""

def intern (dictionary : Dictionary) (text : String) : Nat × Dictionary :=
  if seen : text ∈ dictionary.values then (dictionary.values.idxOf text, dictionary)
  else (dictionary.values.length,
    ⟨dictionary.values ++ [text], List.nodup_append.mpr ⟨dictionary.distinct, List.nodup_singleton _,
      fun _ member _ added same => seen (List.mem_singleton.mp added ▸ same ▸ member)⟩⟩)

theorem intern_prefix (dictionary : Dictionary) (text : String) :
    dictionary.values <+: (dictionary.intern text).2.values := by
  unfold intern
  split
  · exact List.prefix_rfl
  · exact List.prefix_append _ _

theorem intern_lt (dictionary : Dictionary) (text : String) :
    (dictionary.intern text).1 < (dictionary.intern text).2.values.length := by
  unfold intern
  split
  · next seen => exact List.idxOf_lt_length_iff.mpr seen
  · simp

theorem value_intern (dictionary : Dictionary) (text : String) :
    (dictionary.intern text).2.value (dictionary.intern text).1 = text := by
  unfold intern value
  split
  · next seen => simp [List.getD_eq_getElem?_getD, List.getElem?_idxOf seen]
  · simp [List.getD_eq_getElem?_getD]

/-- Interning more texts never changes what a code means. -/
theorem value_of_prefix {first later : Dictionary} {code : Nat}
    (grown : first.values <+: later.values) (assigned : code < first.values.length) :
    later.value code = first.value code := by
  obtain ⟨rest, same⟩ := grown
  simp [value, ← same, List.getD_eq_getElem?_getD, List.getElem?_append_left assigned]

end Dictionary

inductive Column (F : Type) where
  | f64 (values : List F) (validity : Option Bitmap)
  | i64 (values : List Int64) (validity : Option Bitmap)
  | key (codes : List Nat) (validity : Option Bitmap) (dictionary : Dictionary)
  deriving DecidableEq

namespace Column

variable {F : Type}

def length : Column F → Nat
  | f64 values _ => values.length
  | i64 values _ => values.length
  | key codes _ _ => codes.length

def validity : Column F → Option Bitmap
  | f64 _ validity => validity
  | i64 _ validity => validity
  | key _ validity _ => validity

def isValid (column : Column F) (row : Nat) : Bool := Bitmap.validAt column.validity row

end Column

structure RecordBatch (F : Type) where
  schema : Schema
  columns : List (Column F)
  deriving DecidableEq

def RecordBatch.numRows {F : Type} (batch : RecordBatch F) : Nat :=
  match batch.columns with
  | [] => 0
  | column :: _ => column.length

end TallyDB
