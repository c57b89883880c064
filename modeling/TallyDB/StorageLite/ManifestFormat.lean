import TallyDB.StorageLite.Format
import TallyDB.StorageLite.SegmentFormat

/-!
# Manifest files

The decoder of a manifest. Object names are the texts of the file.
-/

namespace TallyDB

open Wire Reader

structure RecordText (F : Type) where
  name : String
  baseRowId : Nat
  rows : Nat
  ordered : Bool
  sequence : SequenceSummary
  zoneMaps : List (Option (ZoneMap F))

structure SectionsText (F : Type) where
  segments : List (RecordText F)
  nextSequence : Option Nat
  history : List String

structure ManifestText (F : Type) where
  schema : Schema
  orderingKey : Nat
  generation : Nat
  sections : SectionsText F

variable {F : Type} [F64Arith F]

def manifestMagic : Bytes := utf8 "TALLYMFT"

structure ManifestHeader where
  version : Nat
  generation : Nat
  orderingKey : Nat
  columnCount : Nat

/-- Everything before the fields of a file whose bytes after the checksum are `payload`. -/
def readManifestHeader (payload : Bytes) : FormatReader ManifestHeader := do
  let magic ← take endOfFile 8
  let _ ← lift (require (magic = manifestMagic) .badMagic)
  let version ← word endOfFile 2
  let _ ← lift (require (version = 1 ∨ version = 2) (.unsupportedVersion version))
  let reserved ← word endOfFile 2
  let _ ← lift (require (reserved = 0) (.corrupt "reserved header bytes are not zero"))
  let stored ← word endOfFile 4
  let _ ← lift (require (stored = (crc32c payload).toNat)
    (.checksumMismatch stored (crc32c payload).toNat))
  let generation ← word endOfFile 8
  let orderingKey ← word endOfFile 4
  let columnCount ← word endOfFile 4
  let _ ← lift (require (orderingKey < columnCount)
    (.corrupt s!"ordering key index {orderingKey} out of range for {columnCount} columns"))
  return { version, generation, orderingKey, columnCount }

def readName (reason : String) : FormatReader String := do
  let length ← word endOfFile 2
  let bytes ← take endOfFile length
  lift (ofOption (fromUtf8 bytes) reason)

def readOrdered (name : String) : FormatReader Bool := do
  let byte ← byte endOfFile
  if byte = 0 then return false
  else if byte = 1 then return true
  else lift (corrupt s!"segment record '{name}' has ordered byte {byte}")

def readSummary (name : String) : FormatReader SequenceSummary := do
  let kind ← byte endOfFile
  if kind = 0 then return .rowIds
  else if kind = 1 then .contiguous <$> word endOfFile 8
  else if kind = 2 then .explicit <$> word endOfFile 8
  else lift (corrupt s!"segment record '{name}' has sequence kind {kind}")

def readRecord (fields : List Field) : FormatReader (RecordText F) := do
  let name ← readName "segment record name is not UTF-8"
  let baseRowId ← word endOfFile 8
  let rows ← word endOfFile 8
  let ordered ← readOrdered name
  let sequence ← readSummary name
  let mapCount ← word endOfFile 4
  let _ ← lift (require (mapCount = fields.length)
    (.corrupt s!"segment record '{name}' carries {mapCount} zone maps for {fields.length} columns"))
  let zoneMaps ← each (fun field : Field => decodeZoneMap field.columnType name) fields
  return { name, baseRowId, rows, ordered, sequence, zoneMaps }

def countedItems {α : Type} (item : FormatReader α) (what : String) (payload : Bytes) :
    Result FormatError (List α) :=
  exactly (fun _ => .corrupt s!"trailing bytes in the {what} section") (do
    let count ← word endOfFile 4
    times item count) payload

/-- One section, added to the content read so far; an unknown tag is skipped. -/
def readManifestSection (fields : List Field) (sections : SectionsText F) : FormatReader
      (SectionsText F) := do
  let tag ← word endOfFile 2
  let length ← word endOfFile 4
  let payload ← take endOfFile length
  if tag = 1 then
    let records ← lift (countedItems (readRecord fields) "segments" payload)
    return { sections with segments := sections.segments ++ records }
  else if tag = 2 then
    let _ ← lift (require (payload.length = 8) (.corrupt "knowledge section is 8 bytes"))
    return { sections with nextSequence := some (ofLe payload) }
  else if tag = 3 then
    let names ← lift (countedItems (readName "history segment name is not UTF-8") "history" payload)
    return { sections with history := sections.history ++ names }
  else return sections

def readManifestSections (version : Nat) (fields : List Field) : FormatReader (SectionsText F) :=
  if version = 2 then do
    let count ← word endOfFile 2
    change (readManifestSection fields) count ⟨[], none, []⟩
  else pure ⟨[], none, []⟩

def manifestParts (payload : Bytes) : FormatReader (Nat × ManifestText F) := do
  let header ← readManifestHeader payload
  let fields ← times decodeField header.columnCount
  let sections ← readManifestSections header.version fields
  return (header.version, {
    schema := ⟨fields⟩
    orderingKey := header.orderingKey
    generation := header.generation
    sections })

/-- Decodes the bytes of a manifest, verifying magic, version and checksum. -/
def decodeManifest (bytes : Bytes) : Result FormatError (ManifestText F) :=
  match manifestParts (bytes.drop 16) bytes with
  | .error fault => .error fault
  | .ok (parts, rest) =>
    if rest.length = 0 then .ok parts.2
    else remaining rest.length (if parts.1 = 2 then "section" else "column")

end TallyDB
