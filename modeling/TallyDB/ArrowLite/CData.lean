import TallyDB.StorageLite.SegmentFormat

/-!
# The Arrow C data interface

A schema node and an array node hold what their C structs point to: a string is the bytes
before its terminator, a buffer the bytes that may be read, and a null pointer is `none`.
Reading past a list is a failed check. Release callbacks only free memory, so a node knows
no more than whether it is live.
-/

namespace TallyDB

open Wire

/-- Describes a type. -/
structure ArrowSchema where
  format : Option Bytes
  name : Option Bytes
  flags : Int64
  nChildren : Int
  children : List ArrowSchema
  dictionary : Option ArrowSchema
  live : Bool

/-- Carries data. The null count is -1 when it is unknown. -/
structure ArrowArray where
  length : Int
  nullCount : Int
  offset : Int
  nBuffers : Int
  nChildren : Int
  buffers : List (Option Bytes)
  children : List ArrowArray
  dictionary : Option ArrowArray
  live : Bool

structure ImportError where
  message : String
  deriving DecidableEq, Repr

def arrowFlagNullable : Int64 := 2

variable {α : Type}

def ensure (condition : Bool) (message : String) : Result ImportError Unit :=
  if condition then .ok () else refuse ⟨message⟩

def constructed (result : Result FormatError α) : Result ImportError α :=
  Wire.recast (fun _ => ⟨""⟩) result

/-! ### Export: schema -/

/-- The text as a C string, which ends at its first NUL. -/
def cString (text what : String) : Result ImportError Bytes := do
  check s!"{what} has no NUL" (0 ∉ utf8 text)
  return utf8 text

def newSchemaNode (format name : String) (flags : Int64) (children : List ArrowSchema)
    (dictionary : Option ArrowSchema) :
    Result ImportError ArrowSchema := do
  let format ← cString format "format"
  let name ← cString name "name"
  return ⟨some format, some name, flags, children.length, children, dictionary, true⟩

def LogicalType.cDataFormat : LogicalType → Result ImportError String
  | timestampNs => .ok "tsn:"
  | decimal64 scale => do
    check s!"decimal scale {scale} exceeds precision {decimal64Precision}" (scale ≤ decimal64Precision)
    return s!"d:{decimal64Precision},{scale},64"

/-- The format string of one field; a key column's is that of its codes. -/
def fieldFormat (field : Field) : Result ImportError String :=
  match field.columnType with
  | .f64 => .ok "g"
  | .i64 =>
    match field.logical with
    | some logical => logical.cDataFormat
    | none => .ok "l"
  | .key => .ok "I"

def fieldDictionary (field : Field) : Result ImportError (Option ArrowSchema) :=
  match field.columnType with
  | .key => some <$> newSchemaNode "u" "" 0 [] none
  | _ => .ok none

def exportField (field : Field) : Result ImportError ArrowSchema := do
  let dictionary ← fieldDictionary field
  let format ← fieldFormat field
  newSchemaNode format field.name (if field.nullable then arrowFlagNullable else 0) [] dictionary

def exportSchema (schema : Schema) : Result ImportError ArrowSchema := do
  let children ← schema.fields.mapM exportField
  newSchemaNode "+s" "" 0 children none

/-! ### Export: arrays -/

def newArrayNode (length nullCount : Nat) (buffers : List (Option Bytes)) (children : List ArrowArray)
    (dictionary : Option ArrowArray) : ArrowArray :=
  ⟨length, nullCount, 0, buffers.length, children.length, buffers, children, dictionary, true⟩

def Bitmap.nullCount (validity : Option Bitmap) : Nat :=
  match validity with
  | none => 0
  | some bitmap => bitmap.length - bitmap.countSet

def validityPtr (validity : Option Bitmap) : Option Bytes := validity.map Bitmap.asBytes

def numericNode (width : Nat) (values : List Nat) (validity : Option Bitmap) : ArrowArray :=
  newArrayNode values.length (Bitmap.nullCount validity)
    [validityPtr validity, some (values.flatMap (toLe width))] [] none

def dictionaryNode (dictionary : Dictionary) : ArrowArray :=
  newArrayNode dictionary.values.length 0 [none, some (dictionary.offsets.flatMap (toLe 4)),
    some dictionary.bytes] [] none

def keyNode (codes : List Nat) (validity : Option Bitmap) (dictionary : Dictionary) : ArrowArray :=
  newArrayNode codes.length (Bitmap.nullCount validity)
    [validityPtr validity, some (codes.flatMap (toLe 4))] []
    (some (dictionaryNode dictionary))

variable {F : Type} [F64 F]

def columnNode : Column F → ArrowArray
  | .f64 values validity => numericNode 8 (values.map fun value => (F64.toBits value).toNat) validity
  | .i64 values validity => numericNode 8 (values.map fun value => value.toUInt64.toNat) validity
  | .key codes validity dictionary => keyNode codes validity dictionary

def exportArray (batch : RecordBatch F) : ArrowArray :=
  newArrayNode batch.numRows 0 [none] (batch.columns.map columnNode) none

def exportBatch (batch : RecordBatch F) : Result ImportError (ArrowSchema × ArrowArray) := do
  let schema ← exportSchema batch.schema
  return (schema, exportArray batch)

/-! ### Import: schema -/

def cstr (text : Option Bytes) : Result ImportError String :=
  match text with
  | none => refuse ⟨"unexpected null string"⟩
  | some bytes =>
    match fromUtf8 bytes with
    | none => refuse ⟨"string is not UTF-8"⟩
    | some text => .ok text

def parseDigits (value : Nat) : List Char → Option Nat
  | [] => some value
  | digit :: digits =>
    if digit.isDigit ∧ 10 * value + (digit.toNat - '0'.toNat) < 256 then
      parseDigits (10 * value + (digit.toNat - '0'.toNat)) digits
    else none

def parseU8 : List Char → Option UInt8
  | [] => none
  | ['+'] => none
  | '+' :: digits => UInt8.ofNat <$> parseDigits 0 digits
  | digits => UInt8.ofNat <$> parseDigits 0 digits

/-- Parses `d:precision,scale,bitwidth`, of which only the shape of the export is taken. -/
def parseDecimal (format : String) : Result ImportError LogicalType :=
  let reject := ⟨s!"unsupported decimal format '{format}'"⟩
  match (format.toList.drop 2).splitOn ',' with
  | [precision, scale, bits] =>
    if bits ≠ ['6', '4'] ∨ parseU8 precision ≠ some LogicalType.decimal64Precision then refuse reject
    else
      match parseU8 scale with
      | none => refuse reject
      | some scale =>
        match LogicalType.fromParts 2 scale with
        | none => refuse reject
        | some logical => .ok logical
  | _ => refuse reject

/-- The type behind a format string; a dictionary makes it a key. -/
def parseType (name format : String) (dictionary : Option ArrowSchema) : Result ImportError
      (ColumnType × Option LogicalType) :=
  match dictionary with
  | none =>
    if format = "g" then .ok (.f64, none)
    else if format = "l" then .ok (.i64, none)
    else if format = "tsn:" then .ok (.i64, some .timestampNs)
    else if ['d', ':'].isPrefixOf format.toList then (fun logical => (.i64, some logical)) <$>
      parseDecimal format
    else refuse ⟨s!"unsupported format '{format}' for field '{name}'"⟩
  | some dictionary => do
    ensure (format = "I") s!"unsupported dictionary index format '{format}' (u32 'I' only)"
    let valuesFormat ← cstr dictionary.format
    ensure (valuesFormat = "u") s!"unsupported dictionary value format '{valuesFormat}' (utf8 'u' only)"
    return (.key, none)

def annotated (field : Field) (logical : Option LogicalType) : Result ImportError Field :=
  match logical with
  | none => .ok field
  | some logical => constructed (field.withLogical logical)

def parseName (name : Option Bytes) : Result ImportError String :=
  match name with
  | none => .ok ""
  | some name => cstr (some name)

def parseField (child : ArrowSchema) : Result ImportError Field := do
  let name ← parseName child.name
  let format ← cstr child.format
  let nullable : Bool := child.flags &&& arrowFlagNullable ≠ 0
  let (columnType, logical) ← parseType name format child.dictionary
  annotated (.new name columnType nullable) logical

def usize (value : Int) (message : String) : Result ImportError Nat :=
  if value < 0 then refuse ⟨message⟩ else .ok value.toNat

def parseSchema (schema : ArrowSchema) : Result ImportError Schema := do
  ensure schema.live "schema struct already released"
  let format ← cstr schema.format
  ensure (format = "+s") s!"expected struct root '+s', got '{format}'"
  let n ← usize schema.nChildren "negative child count"
  let fields ← (List.range n).mapM fun i => index schema.children i >>= parseField
  return ⟨fields⟩

/-! ### Import: arrays -/

def validityBit (bits : Bytes) (position : Nat) : Result ImportError Bool := do
  let byte ← index bits (position / 8)
  return byte.toNat >>> (position % 8) &&& 1 = 1

def readWord (buffer : Bytes) (width position : Nat) : Result ImportError Nat := do
  check "read past the buffer" (width * (position + 1) ≤ buffer.length)
  return ofLe ((buffer.drop (width * position)).take width)

structure ChildGeometry where
  /-- The physical row that is read first. -/
  start : Nat
  rows : Nat
  /-- The bitmap of the rows that are read, if one of them is null. -/
  validity : Option Bitmap

/-- The bitmap of some rows; one without a null is dropped. -/
def readValidity (validityBuffer : Option Bytes) (start numRows : Nat) : Result ImportError
      (Option Bitmap) :=
  match validityBuffer with
  | none => .ok none
  | some bits => do
    let bitmap : Bitmap ← (List.range numRows).mapM fun i => validityBit bits (start + i)
    return if bitmap.countSet = numRows then none else some bitmap

/-- Where a column's rows lie. The parent's offset applies to its children. -/
def childGeometry (field : Field) (child : ArrowArray) (rootOffset numRows : Nat)
    (validityBuffer : Option Bytes) :
    Result ImportError ChildGeometry := do
  ensure child.live "child array already released"
  let length ← usize child.length "negative child length"
  let offset ← usize child.offset "negative child offset"
  ensure (rootOffset + numRows ≤ length)
    s!"column '{field.name}': child length {length} < parent offset {rootOffset} + rows {numRows}"
  let validity ← readValidity validityBuffer (offset + rootOffset) numRows
  ensure (validity.isNone || field.nullable) s!"column '{field.name}' declared NOT NULL but has nulls"
  return ⟨offset + rootOffset, numRows, validity⟩

def bufferAt (child : ArrowArray) (position : Nat) (what : String) : Result ImportError
      (Option Bytes) := do
  ensure (position < child.nBuffers.toNat)
    s!"expected {what} at buffer {position}, but array has {child.nBuffers.toNat} buffers"
  index child.buffers position

def copyValues (width : Nat) (child : ArrowArray) (geo : ChildGeometry) : Result ImportError
      (List Nat) := do
  let data ← bufferAt child 1 "data"
  match data with
  | none => if 0 < geo.rows then refuse ⟨"null data buffer"⟩ else return []
  | some data => (List.range geo.rows).mapM fun i => readWord data width (geo.start + i)

def signed32 (word : Nat) : Int := (UInt32.ofNat word).toInt32.toInt

def valueText (offsets data : Bytes) (position : Nat) : Result ImportError String := do
  let start ← readWord offsets 4 position
  let stop ← readWord offsets 4 (position + 1)
  let start ← usize (signed32 start) "negative utf8 offset"
  let stop ← usize (signed32 stop) "negative utf8 offset"
  ensure (start ≤ stop) "utf8 offsets not monotone"
  check "read past the buffer" (stop ≤ data.length)
  match fromUtf8 ((data.drop start).take (stop - start)) with
  | none => refuse ⟨"dictionary value is not UTF-8"⟩
  | some text => return text

def importValues (offsets data : Bytes) (offset : Nat) : Nat → Nat → Dictionary →
    Result ImportError Dictionary
  | 0, _, dictionary => .ok dictionary
  | count + 1, i, dictionary => do
    let value ← valueText offsets data (offset + i)
    let (code, grown) ← constructed (dictionary.internChecked value)
    ensure (code = i) "duplicate dictionary values are unsupported"
    importValues offsets data offset count (i + 1) grown

/-- The values between two buffers, which may be null when there is none. -/
def importBetween (offsets data : Option Bytes) (offset count : Nat) : Result ImportError Dictionary :=
  match offsets, data with
  | some offsets, some data => importValues offsets data offset count 0 .empty
  | _, _ => if 0 < count then refuse ⟨"null utf8 buffer"⟩ else .ok .empty

def importDictionaryValues (values : ArrowArray) : Result ImportError Dictionary := do
  ensure values.live "dictionary array already released"
  let count ← usize values.length "negative dictionary length"
  let offset ← usize values.offset "negative dictionary offset"
  ensure (values.nullCount ≤ 0) "null dictionary values are unsupported"
  let offsets ← bufferAt values 1 "utf8 offsets"
  let data ← bufferAt values 2 "utf8 data"
  importBetween offsets data offset count

/-- The code of one row. Under a null it may be anything, and is then made 0. -/
def sanitizeCode (name : String) (dictionary : Dictionary) (valid : Bool) (code : Nat) :
    Result ImportError Nat :=
  if valid then
    if dictionary.values.length ≤ code then
      refuse ⟨s!"key column '{name}': code {code} out of dictionary range {dictionary.values.length}"⟩
    else .ok code
  else if dictionary.values.length ≤ code then
    if dictionary.isEmpty then refuse
      ⟨s!"key column '{name}': null rows but empty dictionary"⟩ else .ok 0
  else .ok code

def childDictionary (field : Field) (child : ArrowArray) : Result ImportError Dictionary :=
  match child.dictionary with
  | none => refuse ⟨s!"key column '{field.name}' has no dictionary array"⟩
  | some values => importDictionaryValues values

def importKeyColumn (field : Field) (child : ArrowArray) (rootOffset numRows : Nat) :
    Result ImportError (Column F) := do
  let validityBuffer ← bufferAt child 0 "validity"
  let geo ← childGeometry field child rootOffset numRows validityBuffer
  let codes ← copyValues 4 child geo
  let dictionary ← childDictionary field child
  let codes ← codes.zipIdx.mapM fun place => sanitizeCode field.name dictionary
    (Bitmap.validAt geo.validity place.2) place.1
  constructed (newKeyColumn (codes.map UInt32.ofNat) geo.validity dictionary)

def importNumeric (field : Field) (child : ArrowArray) (rootOffset numRows : Nat)
    (validityBuffer : Option Bytes)
    (makeNumeric : List Nat → Option Bitmap → Result FormatError (Column F)) : Result ImportError
      (Column F) := do
  let geo ← childGeometry field child rootOffset numRows validityBuffer
  let values ← copyValues 8 child geo
  constructed (makeNumeric values geo.validity)

def importColumn (field : Field) (child : ArrowArray) (rootOffset numRows : Nat) :
    Result ImportError (Column F) := do
  let validityBuffer ← bufferAt child 0 "validity"
  match field.columnType with
  | .f64 => importNumeric field child rootOffset numRows validityBuffer fun values validity =>
      newF64Column (values.map fun bits => F64.ofBits (UInt64.ofNat bits)) validity
  | .i64 => importNumeric field child rootOffset numRows validityBuffer fun values validity =>
      newI64Column (values.map fun bits => (UInt64.ofNat bits).toInt64) validity
  | .key => importKeyColumn field child rootOffset numRows

def importArray (schema : Schema) (array : ArrowArray) : Result ImportError (RecordBatch F) := do
  ensure array.live "array struct already released"
  let n ← usize array.nChildren "negative child count"
  ensure (n = schema.fields.length)
    s!"schema has {schema.fields.length} fields but array has {n} children"
  let numRows ← usize array.length "negative length"
  let rootOffset ← usize array.offset "negative offset"
  ensure (array.nullCount ≤ 0) "struct-level nulls are unsupported"
  let columns ← schema.fields.zipIdx.mapM fun place =>
    index array.children place.2 >>= fun child => importColumn place.1 child rootOffset numRows
  constructed (RecordBatch.new schema columns)

def importBatch (schema : ArrowSchema) (array : ArrowArray) : Result ImportError (RecordBatch F) := do
  let schema ← parseSchema schema
  importArray schema array

end TallyDB
