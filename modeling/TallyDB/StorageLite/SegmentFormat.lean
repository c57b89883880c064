import TallyDB.StorageLite.AlpRd
import TallyDB.StorageLite.Mem

/-!
# Segment files

The bytes of a segment and their decoder. A constructor of the source that asserts is a
`check` here, so that a decoder which fails one is told from a decoder which refuses.
-/

namespace TallyDB

open Wire Reader

/-! ### The checksum -/

def crcStep (crc : UInt32) : UInt32 := if crc &&& 1 ≠ 0 then (crc >>> 1) ^^^ 0x82f63b78 else crc >>> 1

def crcTable (index : UInt32) : UInt32 := Nat.iterate crcStep 8 index

def crc32c (bytes : Bytes) : UInt32 :=
  ~~~(bytes.foldl (fun crc byte => (crc >>> 8) ^^^ crcTable ((crc ^^^ byte.toUInt32) &&& 0xff))
    0xffffffff)

/-! ### Texts, bitmaps and dictionaries as bytes -/

def utf8 (text : String) : Bytes := text.toByteArray.data.toList

def fromUtf8 (bytes : Bytes) : Option String := String.fromUTF8? ⟨bytes.toArray⟩

def Bitmap.asBytes (bits : Bitmap) : Bytes :=
  toLe ((bits.length + 7) / 8) (Nat.ofDigits 2 (bits.map Bool.toNat))

namespace Dictionary

def bytes (dictionary : Dictionary) : Bytes := dictionary.values.flatMap utf8

def offsetsFrom (start : Nat) : List String → List Nat
  | [] => [start]
  | text :: texts => start :: offsetsFrom (start + (utf8 text).length) texts

def offsets (dictionary : Dictionary) : List Nat := offsetsFrom 0 dictionary.values

end Dictionary

/-! ### Registries -/

namespace ColumnType

def tag : ColumnType → UInt8
  | f64 => 0
  | i64 => 1
  | key => 2

def fromTag (tag : UInt8) : Option ColumnType :=
  if tag = 0 then some f64 else if tag = 1 then some i64 else if tag = 2 then some key else none

theorem fromTag_tag (columnType : ColumnType) : fromTag columnType.tag = some columnType := by
  cases columnType <;> rfl

end ColumnType

namespace LogicalType

def decimal64Precision : UInt8 := 18

def tag : LogicalType → UInt8
  | timestampNs => 1
  | decimal64 _ => 2

def payload : LogicalType → UInt8
  | timestampNs => 0
  | decimal64 scale => scale

def fromParts (tag payload : UInt8) : Option LogicalType :=
  if tag = 1 then some timestampNs
  else if tag = 2 ∧ payload ≤ decimal64Precision then some (decimal64 payload)
  else none

end LogicalType

namespace Column

variable {F : Type}

def columnType : Column F → ColumnType
  | f64 _ _ => .f64
  | i64 _ _ => .i64
  | key _ _ _ => .key

end Column

/-! ### Encoding -/

variable {F : Type} [F64Arith F]

def encodeField (field : Field) : Bytes :=
  toLe 2 (utf8 field.name).length ++
    (utf8 field.name ++ (field.columnType.tag :: (if field.nullable then 1 else 0) ::
    match field.logical with
    | none => [0, 0]
    | some logical => [logical.tag, logical.payload]))

def writerCodec (ordered : Bool) (column : Column F) (isOrderingKey : Bool) : Codec :=
  match column with
  | .i64 _ _ => if isOrderingKey && ordered then .deltaOfDeltaI64 else .forI64
  | .f64 _ _ => .alpF64
  | .key _ _ _ => .forU32

/-- Bit 0 of the first byte is for a map, bit 1 for a NaN. -/
def encodeZoneMap : Option (ZoneMap F) → Bytes
  | none => [0]
  | some (.f64 min max hasNan) =>
      (if hasNan then 3 else 1) :: (toLe 8 (F64.toBits min).toNat ++ toLe 8 (F64.toBits max).toNat)
  | some (.i64 min max) => 1 :: (toLe 8 min.toUInt64.toNat ++ toLe 8 max.toUInt64.toNat)

def encodeValidity : Option Bitmap → Bytes
  | none => [0]
  | some bitmap => 1 :: (toLe 4 bitmap.asBytes.length ++ bitmap.asBytes)

def pushValues (bytes : Bytes) : Bytes := toLe 8 bytes.length ++ bytes

def encodeDictionary (dictionary : Dictionary) : Bytes :=
  toLe 4 dictionary.values.length ++
    (dictionary.offsets.flatMap (toLe 4) ++ (toLe 4 dictionary.bytes.length ++ dictionary.bytes))

def encodeValues (ordered isOrderingKey : Bool) : Column F → Bytes
  | .f64 values _ => pushValues (encodeAlpF64 values)
  | .i64 values _ =>
      pushValues (if isOrderingKey && ordered then encodeDeltaOfDelta values else encodeForI64 values)
  | .key codes _ dictionary =>
      pushValues (encodeForU32 (codes.map UInt32.ofNat)) ++ encodeDictionary dictionary

def encodeColumn (ordered : Bool) (field : Field) (column : Column F) (isOrderingKey : Bool)
    (zoneMap : Option (ZoneMap F)) : Bytes :=
  encodeField field ++ ((writerCodec ordered column isOrderingKey).tag :: (encodeZoneMap zoneMap ++
    (encodeValidity column.validity ++ encodeValues ordered isOrderingKey column)))

def encodeColumns (segment : Segment F) : Nat → List Field → List (Column F) → Bytes
  | index, field :: fields, column :: columns =>
    encodeColumn segment.ordered field column (index = segment.orderingKey)
      (segment.zoneMaps[index]?.join) ++
      encodeColumns segment (index + 1) fields columns
  | _, _, _ => []

def encodeWords (values : List Nat) : Bytes :=
  encodeDeltaOfDelta (values.map fun value => (UInt64.ofNat value).toInt64)

/-- The section of the births, unless they are row ids. -/
def sequenceSections : SequenceInfo → List (Nat × Bytes)
  | .rowIds => []
  | .contiguous base => [(1, 1 :: toLe 8 base)]
  | .explicit values => [(1, 2 :: encodeWords values)]

def killSections : Option (List Nat) → List (Nat × Bytes)
  | none => []
  | some kills => [(2, encodeWords kills)]

def trailerSections (segment : Segment F) : List (Nat × Bytes) :=
  sequenceSections segment.sequence ++ killSections segment.superseded

def encodeSection (entry : Nat × Bytes) : Bytes := toLe 2 entry.1 ++ (toLe 4 entry.2.length ++ entry.2)

def encodeSections (sections : List (Nat × Bytes)) : Bytes :=
  toLe 2 sections.length ++ sections.flatMap encodeSection

/-- Two when a trailer follows the columns. -/
def segmentVersion (segment : Segment F) : Nat :=
  if segment.sequence = .rowIds ∧ segment.superseded = none then 1 else 2

def segmentMagic : Bytes := utf8 "TALLYSEG"

def segmentBody (segment : Segment F) : Bytes :=
  encodeColumns segment 0 segment.batch.schema.fields segment.batch.columns ++
    if segmentVersion segment = 2 then encodeSections (trailerSections segment) else []

def segmentPayload (segment : Segment F) : Bytes :=
  toLe 8 segment.baseRowId ++
    (toLe 8 segment.numRows ++
    (toLe 4 segment.orderingKey ++ (toLe 4 (if segment.ordered then 1 else 0) ++
    (toLe 4 segment.batch.schema.fields.length ++ segmentBody segment))))

def encodeSegment (segment : Segment F) : Bytes :=
  segmentMagic ++ (toLe 2 (segmentVersion segment) ++
    (toLe 2 0 ++ (toLe 4 (crc32c (segmentPayload segment)).toNat ++
    segmentPayload segment)))

/-! ### Decoding -/

abbrev FormatReader := Reader FormatError

def corrupt {α : Type} (reason : String) : Result FormatError α := refuse (.corrupt reason)

def require (condition : Bool) (error : FormatError) : Result FormatError Unit :=
  if condition then .ok () else refuse error

def ofOption {α : Type} (value : Option α) (reason : String) : Result FormatError α :=
  match value with
  | some value => .ok value
  | none => corrupt reason

def endOfFile : FormatError := .corrupt "unexpected end of file"

def timesWord (left right : Nat) : Result FormatError Nat := do
  check "attempt to multiply with overflow" (left * right < 2 ^ 64)
  return left * right

/-- Adds an annotation, which must apply to the field's type. -/
def Field.withLogical (field : Field) (logical : LogicalType) : Result FormatError Field :=
  if applies : logical.validFor field.columnType then
    .ok { field with logical := some logical, applies := fun _ same => Option.some.inj same ▸ applies }
  else .error (.panicked "the annotation does not apply to the type")

def decodeField : FormatReader Field := do
  let nameLen ← word endOfFile 2
  let nameBytes ← take endOfFile nameLen
  let name ← lift (ofOption (fromUtf8 nameBytes) "column name is not UTF-8")
  let typeTag ← byte endOfFile
  let columnType ← lift (ofOption (ColumnType.fromTag typeTag) s!"unknown column type for '{name}'")
  let nullable ← byte endOfFile
  let logicalTag ← byte endOfFile
  let logicalPayload ← byte endOfFile
  let field := Field.new name columnType (nullable ≠ 0)
  if logicalTag = 0 then return field else
    let logical ← lift
      (ofOption (LogicalType.fromParts logicalTag logicalPayload)
      s!"unknown logical type {logicalTag} for '{name}'")
    lift (field.withLogical logical)

def hexByte (byte : UInt8) : String := "0x" ++ (if byte < 16 then "0" else "") ++ String.ofList
      (Nat.toDigits 16 byte.toNat)

def readBits64 : FormatReader UInt64 := UInt64.ofNat <$> word endOfFile 8

def decodeZoneMap (columnType : ColumnType) (name : String) : FormatReader (Option (ZoneMap F)) := do
  let presence ← byte endOfFile
  let _ ← lift (require (presence &&& ~~~3 = 0 ∧ ¬(presence &&& 2 ≠ 0 ∧ presence &&& 1 = 0))
    (.corrupt s!"invalid zone-map presence byte {hexByte presence} for '{name}'"))
  if presence &&& 1 = 0 then return none else
    let hasNan : Bool := presence &&& 2 ≠ 0
    let min ← readBits64
    let max ← readBits64
    match columnType with
    | .f64 => return some (.f64 (F64.ofBits min) (F64.ofBits max) hasNan)
    | .i64 =>
      if hasNan then lift (corrupt s!"i64 column '{name}' carries the NaN zone-map bit")
      else return some (.i64 min.toInt64 max.toInt64)
    | .key => lift (corrupt s!"key column '{name}' carries a zone map")

def bitOf (bytes : Bytes) (row : Nat) : FormatReader Bool := do
  let byte ← lift (index bytes (row / 8))
  return byte.toNat >>> (row % 8) &&& 1 = 1

def decodeValidity (rows : Nat) (name : String) : FormatReader (Option Bitmap) := do
  let present ← byte endOfFile
  if present = 0 then return none else
    let byteLen ← word endOfFile 4
    let bytes ← take endOfFile byteLen
    let _ ← lift (require ((rows + 7) / 8 ≤ byteLen)
      (.corrupt s!"validity bitmap for '{name}' is shorter than {rows} rows"))
    let bits ← each (bitOf bytes) (List.range rows)
    return some bits

def rawValues (kind name what : String) (bytes : Bytes) (rows width : Nat) : Result FormatError
      (List Nat) := do
  let expected ← timesWord rows width
  let _ ← require (bytes.length = expected)
    (.corrupt s!"{kind} column '{name}' holds {bytes.length} bytes{what}, expected {expected}")
  exactly (fun _ => endOfFile) (times (word endOfFile width) rows) bytes

/-- The `u32` code space and the `i32` offset range that interning must stay in. -/
def Dictionary.internChecked (dictionary : Dictionary) (text : String) : Result FormatError
      (Nat × Dictionary) := do
  if text ∉ dictionary.values then
    check "dictionary full: u32 code space exhausted" (dictionary.values.length < 2 ^ 32)
    check "dictionary full: Utf8 offset range exhausted"
      (dictionary.bytes.length + (utf8 text).length < 2 ^ 31)
  return dictionary.intern text

def internSpans (name : String) (bytes : Bytes) : List Int → Dictionary → Result FormatError Dictionary
  | start :: stop :: offsets, dictionary => do
    let _ ← require (0 ≤ start ∧ start ≤ stop ∧ stop ≤ bytes.length)
      (.corrupt s!"dictionary offsets for '{name}' are not monotonic in range")
    let value ← ofOption (fromUtf8 ((bytes.take stop.toNat).drop start.toNat))
      s!"dictionary value for '{name}' is not UTF-8"
    let (code, grown) ← dictionary.internChecked value
    let _ ← require (code + 1 = grown.values.length)
      (.corrupt s!"dictionary for '{name}' repeats the value '{value}'")
    internSpans name bytes (stop :: offsets) grown
  | _, dictionary => .ok dictionary

def decodeDictionary (name : String) : FormatReader Dictionary := do
  let entries ← word endOfFile 4
  let offsets ← times (signedWord endOfFile 4) (entries + 1)
  let bytesLen ← word endOfFile 4
  let bytes ← take endOfFile bytesLen
  lift (internSpans name bytes offsets .empty)

/-- Each code is in the dictionary's range, or the placeholder of a null slot over an empty one. -/
def checkCodes (name : String) (dictionary : Dictionary) : Nat → List UInt32 → Result FormatError Unit
  | _, [] => .ok ()
  | row, code :: codes => do
    let _ ← require (code.toNat < dictionary.values.length || (code = 0 && dictionary.isEmpty))
      (.corrupt s!"key column '{name}' code {code} at row {row} exceeds its dictionary")
    checkCodes name dictionary (row + 1) codes

/-- The constructors of a key column: the bitmap's length, then every code in range. -/
def newKeyColumn (codes : List UInt32) (validity : Option Bitmap) (dictionary : Dictionary) :
    Result FormatError (Column F) := do
  check "validity length" (validity.elim true fun bitmap => bitmap.length = codes.length)
  check "code out of dictionary range" (codes.all fun code => code.toNat < dictionary.values.length)
  return .key (codes.map UInt32.toNat) validity dictionary

def newF64Column (values : List F) (validity : Option Bitmap) : Result FormatError (Column F) := do
  check "validity length" (validity.elim true fun bitmap => bitmap.length = values.length)
  return .f64 values validity

def newI64Column (values : List Int64) (validity : Option Bitmap) : Result FormatError (Column F) := do
  check "validity length" (validity.elim true fun bitmap => bitmap.length = values.length)
  return .i64 values validity

def Codec.name : Codec → String
  | uncompressed => "Uncompressed"
  | deltaOfDeltaI64 => "DeltaOfDeltaI64"
  | alpF64 => "AlpF64"
  | forI64 => "ForI64"
  | forU32 => "ForU32"

/-- A decoder that starts with `Vec::with_capacity(count)`: a vector of more than `isize::MAX` bytes
is a panic. -/
def withCapacity {α : Type} (width count : Nat) (decoded : Result CodecError α) :
    Result FormatError α := do
  check "capacity overflow" (count * width < 2 ^ 63)
  Wire.recast .codec decoded

theorem withCapacity_fits {α : Type} {width count : Nat} (fits : count * width < 2 ^ 63)
    (decoded : Result CodecError α) :
    withCapacity width count decoded = Wire.recast .codec decoded := by
  rw [withCapacity, check, if_pos (decide_eq_true fits)]
  rfl

theorem panicked_withCapacity {α : Type} {width count : Nat} {decoded : Result CodecError α} :
    Panicked (withCapacity width count decoded) ↔ 2 ^ 63 ≤ count * width ∨ count * width < 2 ^ 63 ∧
    Panicked decoded := by
  rw [withCapacity, panicked_bind, panicked_check, decide_eq_false_iff_not, Nat.not_lt]
  refine or_congr_right ⟨?_, fun both => ?_⟩
  · rintro ⟨_, passed, failed⟩
    exact ⟨of_decide_eq_true (check_ok passed), panicked_recast.mp failed⟩
  · exact ⟨(), if_pos (decide_eq_true both.1), panicked_recast.mpr both.2⟩

def f64Values (codec : Codec) (name : String) (bytes : Bytes) (rows : Nat) :
    Result FormatError (List F) :=
  match codec with
  | .uncompressed =>
      (·.map fun bits => F64.ofBits (UInt64.ofNat bits)) <$> rawValues "f64" name "" bytes rows 8
  | .alpF64 => withCapacity 8 rows (decodeAlpF64 bytes rows)
  | other => corrupt s!"f64 column '{name}' carries codec {other.name}"

def i64Values (codec : Codec) (name : String) (bytes : Bytes) (rows : Nat) : Result FormatError
      (List Int64) :=
  match codec with
  | .uncompressed =>
      (·.map fun bits => (UInt64.ofNat bits).toInt64) <$> rawValues "i64" name "" bytes rows 8
  | .deltaOfDeltaI64 => withCapacity 8 rows (decodeDeltaOfDelta bytes rows)
  | .forI64 => withCapacity 8 rows (decodeForI64 bytes rows)
  | other => corrupt s!"i64 column '{name}' carries codec {other.name}"

def keyCodes (codec : Codec) (name : String) (bytes : Bytes) (rows : Nat) : Result FormatError
      (List UInt32) :=
  match codec with
  | .forU32 => withCapacity 4 rows (decodeForU32 bytes rows)
  | .uncompressed => (·.map UInt32.ofNat) <$> rawValues "key" name " of codes" bytes rows 4
  | other => corrupt s!"key column '{name}' carries codec {other.name}"

def columnOf (rows : Nat) (field : Field) (codec : Codec) (validity : Option Bitmap)
    (bytes : Bytes) : FormatReader (Column F) :=
  match field.columnType with
  | .f64 => do
    let values ← lift (f64Values codec field.name bytes rows)
    lift (newF64Column values validity)
  | .i64 => do
    let values ← lift (i64Values codec field.name bytes rows)
    lift (newI64Column values validity)
  | .key => do
    let codes ← lift (keyCodes codec field.name bytes rows)
    let dictionary ← decodeDictionary field.name
    let _ ← lift (checkCodes field.name dictionary 0 codes)
    lift (newKeyColumn codes validity dictionary)

def decodeValues (rows : Nat) (field : Field) (codec : Codec) (validity : Option Bitmap) :
    FormatReader (Column F) := do
  let valuesLen ← word endOfFile 8
  let bytes ← take endOfFile valuesLen
  columnOf rows field codec validity bytes

def decodeColumn (rows : Nat) : FormatReader (Field × Column F × Option (ZoneMap F)) := do
  let field ← decodeField
  let codecTag ← byte endOfFile
  let codec ← lift (ofOption (Codec.fromTag codecTag) s!"unknown codec for '{field.name}'")
  let zoneMap ← decodeZoneMap field.columnType field.name
  let validity ← decodeValidity rows field.name
  let column ← decodeValues rows field codec validity
  return (field, column, zoneMap)

/-! ### The trailer and the whole file -/

def decodeWords (bytes : Bytes) (rows : Nat) : Result FormatError (List Nat) :=
  (·.map fun value => value.toUInt64.toNat) <$> withCapacity 8 rows (decodeDeltaOfDelta bytes rows)

def decodeSequenceSection (payload : Bytes) (rows : Nat) : Result FormatError SequenceInfo :=
  match payload with
  | [] => corrupt "empty sequence section"
  | state :: rest =>
    if state = 1 then
      if rest.length = 8 then .ok (.contiguous (ofLe rest)) else corrupt
        "contiguous sequence base is 8 bytes"
    else if state = 2 then .explicit <$> decodeWords rest rows
    else corrupt s!"unknown sequence state byte {state}"

/-- One trailer section; an unknown tag is skipped. -/
def readSection (rows : Nat) (found : SequenceInfo × Option (List Nat)) : FormatReader
      (SequenceInfo × Option (List Nat)) := do
  let tag ← word endOfFile 2
  let length ← word endOfFile 4
  let payload ← take endOfFile length
  if tag = 1 then
    let sequence ← lift (decodeSequenceSection payload rows)
    return (sequence, found.2)
  else if tag = 2 then
    let kills ← lift (decodeWords payload rows)
    return (found.1, some kills)
  else return found

/-- The sections after the columns; the first version has none. -/
def readTrailer (version rows : Nat) : FormatReader (SequenceInfo × Option (List Nat)) :=
  if version = 2 then do
    let count ← word endOfFile 2
    change (readSection rows) count (.rowIds, none)
  else pure (.rowIds, none)

/-- Binds columns to a schema, which they must agree with. -/
def RecordBatch.new (schema : Schema) (columns : List (Column F)) : Result FormatError
      (RecordBatch F) := do
  let batch : RecordBatch F := ⟨schema, columns⟩
  check "column count" (schema.fields.length = columns.length)
  check "column bound with wrong physical type" ((schema.fields.zip columns).all fun pair =>
    pair.1.columnType = pair.2.columnType)
  check "column length" (columns.all fun column => column.length = batch.numRows)
  check "NOT NULL column carries a validity bitmap" ((schema.fields.zip columns).all fun pair =>
    pair.1.nullable || pair.2.validity.isNone)
  return batch

structure SegmentParts (F : Type) where
  version : Nat
  baseRowId : Nat
  orderingKey : Nat
  ordered : Bool
  columns : List (Field × Column F × Option (ZoneMap F))
  sequence : SequenceInfo
  superseded : Option (List Nat)

structure SegmentHeader where
  version : Nat
  baseRowId : Nat
  rowCount : Nat
  orderingKey : Nat
  ordered : Bool
  columnCount : Nat

/-- Everything before the columns of a file whose bytes after the checksum are `payload`. -/
def readSegmentHeader (payload : Bytes) : FormatReader SegmentHeader := do
  let magic ← take endOfFile 8
  let _ ← lift (require (magic = segmentMagic) .badMagic)
  let version ← word endOfFile 2
  let _ ← lift (require (version = 1 ∨ version = 2) (.unsupportedVersion version))
  let reserved ← word endOfFile 2
  let _ ← lift (require (reserved = 0) (.corrupt "reserved header bytes are not zero"))
  let stored ← word endOfFile 4
  let _ ← lift (require (stored = (crc32c payload).toNat)
    (.checksumMismatch stored (crc32c payload).toNat))
  let baseRowId ← word endOfFile 8
  let rowCount ← word endOfFile 8
  let orderingKey ← word endOfFile 4
  let flags ← word endOfFile 4
  let columnCount ← word endOfFile 4
  let _ ← lift (require (orderingKey < columnCount)
    (.corrupt s!"ordering key index {orderingKey} out of range for {columnCount} columns"))
  return { version, baseRowId, rowCount, orderingKey, ordered := flags &&& 1 ≠ 0, columnCount }

def segmentParts (payload : Bytes) : FormatReader (SegmentParts F) := do
  let header ← readSegmentHeader payload
  let columns ← times (decodeColumn header.rowCount) header.columnCount
  let trailer ← readTrailer header.version header.rowCount
  return {
    version := header.version
    baseRowId := header.baseRowId
    orderingKey := header.orderingKey
    ordered := header.ordered
    columns
    sequence := trailer.1
    superseded := trailer.2 }

def SegmentParts.segment (parts : SegmentParts F) : Result FormatError (Segment F) := do
  let batch ← RecordBatch.new ⟨parts.columns.map (·.1)⟩ (parts.columns.map (·.2.1))
  return {
    batch
    orderingKey := parts.orderingKey
    ordered := parts.ordered
    baseRowId := parts.baseRowId
    zoneMaps := parts.columns.map (·.2.2)
    sequence := parts.sequence
    superseded := parts.superseded }

def remaining {α : Type} (count : Nat) (what : String) : Result FormatError α :=
  corrupt s!"{count} bytes remain after the last {what}"

def decodeSegment (bytes : Bytes) : Result FormatError (Segment F) :=
  match segmentParts (bytes.drop 16) bytes with
  | .error fault => .error fault
  | .ok (parts, rest) =>
    if rest.length = 0 then parts.segment
    else remaining rest.length (if parts.version = 2 then "trailer section" else "column")

end TallyDB
