import TallyDB.StorageLite.Backend

/-!
# The store's state

Published segments, the write buffer, the tombstones and the knowledge axis. The axis is
virtual while every row's birth sequence is its row id; the first kill or supersession
diverges it.
-/

namespace TallyDB

/-- A diverged table's knowledge state. Without `explicit`, the buffered row `i` was born
at `bufferBase + i`. -/
structure Knowledge where
  next : Nat
  bufferBase : Nat
  explicit : Option (List Nat)
  deriving DecidableEq, Repr

def Knowledge.births (knowledge : Knowledge) (buffered : Nat) : List Nat :=
  knowledge.explicit.getD ((List.range buffered).map (knowledge.bufferBase + ·))

variable {F : Type}

/-! ### Slots -/

/-- What a slot answers about its segment without decoding it. -/
structure SegmentMeta (F : Type) where
  baseRowId : Nat
  rows : Nat
  ordered : Bool
  sequenceEnd : Nat
  diverged : Bool
  zoneMaps : List (Option (ZoneMap F))
  deriving DecidableEq

namespace SegmentMeta

def of (segment : Segment F) : SegmentMeta F where
  baseRowId := segment.baseRowId
  rows := segment.numRows
  ordered := segment.ordered
  sequenceEnd := segment.sequenceEnd
  diverged := segment.sequence ≠ .rowIds
  zoneMaps := segment.zoneMaps

def fromRecord (record : SegmentRecord F) : SegmentMeta F where
  baseRowId := record.baseRowId
  rows := record.rows
  ordered := record.ordered
  sequenceEnd := record.sequenceEnd
  diverged := record.diverged
  zoneMaps := record.zoneMaps

theorem fromRecord_of (name : ObjectName) (segment : Segment F) :
    fromRecord (.of name segment) = of segment := by
  cases sequence : segment.sequence <;>
    simp [fromRecord, of, SegmentRecord.of, SegmentRecord.sequenceEnd, SegmentRecord.diverged,
      Segment.sequenceEnd, sequence]

end SegmentMeta

/-- One segment's slot. Without `resident` its segment is read from the object `name`; an
in-memory store's slots have no name. -/
structure SegmentSlot (F : Type) where
  info : SegmentMeta F
  name : Option ObjectName
  resident : Option (Segment F)
  deriving DecidableEq

structure HistorySlot (F : Type) where
  name : Option ObjectName
  resident : Option (Segment F)
  deriving DecidableEq

def checkFaulted (schema : Schema) (name : ObjectName) (info : Option (SegmentMeta F)) :
    Object F → Except StorageError (Segment F)
  | .segment segment =>
    if segment.batch.schema ≠ schema then
      .error (.schemaMismatch s!"segment '{name.text}' was written under a different schema")
    else match info with
      | none => .ok segment
      | some info =>
        if segment.baseRowId ≠ info.baseRowId ∨ segment.numRows ≠ info.rows ∨
            segment.ordered ≠ info.ordered ∨ segment.sequenceEnd ≠ info.sequenceEnd then
          .error (.schemaMismatch s!"segment '{name.text}' disagrees with its manifest record")
        else .ok segment
  | _ => .error (.format (.corrupt "not a segment"))

/-- The decoded segment: resident, or read now. The model keeps no copy of what it reads. -/
def fault {σ : Type} (schema : Schema) (name : Option ObjectName) (info : Option (SegmentMeta F)) :
    Option (Segment F) → Io F σ (Segment F)
  | some segment => pure segment
  | none => match name with
    | none => Crash.Fallible.fail (.misuse "an empty slot is named")
    | some name => do
      let object ← Io.read name
      Crash.Fallible.ofExcept (checkFaulted schema name info object)

namespace SegmentSlot

def ofSegment (segment : Segment F) (name : Option ObjectName) : SegmentSlot F where
  info := .of segment
  name
  resident := some segment

def lazy (record : SegmentRecord F) : SegmentSlot F where
  info := .fromRecord record
  name := some record.name
  resident := none

def segment {σ : Type} (schema : Schema) (slot : SegmentSlot F) : Io F σ (Segment F) :=
  fault schema slot.name (some slot.info) slot.resident

end SegmentSlot

def HistorySlot.segment {σ : Type} (schema : Schema) (slot : HistorySlot F) : Io F σ (Segment F) :=
  fault schema slot.name none slot.resident

/-! ### The state -/

inductive WalSync where
  | off | group | full
  deriving DecidableEq, Repr

/-- Tombstoned row ids, each with the sequence its kill landed at. The first entry of an
id counts. -/
abbrev Tombstones := List (Nat × Nat)

structure Store (F : Type) where
  schema : Schema
  orderingKey : Nat
  segmentRows : Nat
  rows : Nat
  deleteLogSequence : Nat
  generation : Nat
  sections : ManifestSections F
  /-- Whether there is a backend. -/
  persistent : Bool
  /-- The log file the writer holds. -/
  wal : Option Nat
  walSync : WalSync
  readOnly : Bool
  segments : List (SegmentSlot F)
  buffer : WriteBuffer F
  bufferBase : Nat
  knowledge : Option Knowledge
  tombstones : Tombstones
  history : List (HistorySlot F)

namespace Store

/-- An in-memory store; the source panics on a threshold of zero. -/
def withSegmentRows (schema : Schema) (orderingKey segmentRows : Nat) :
    Except StorageError (Store F) :=
  if segmentRows = 0 then .error (.options "segment_rows must be at least 1")
  else do
    let buffer ← WriteBuffer.new schema orderingKey
    return {
      schema, orderingKey, segmentRows
      rows := 0
      deleteLogSequence := 0
      generation := 0
      sections := .empty
      persistent := false
      wal := none
      walSync := .off
      readOnly := false
      segments := []
      buffer
      bufferBase := 0
      knowledge := none
      tombstones := []
      history := [] }

/-! ### The knowledge axis -/

/-- The ingest-sequence watermark, which is the row count while virtual. -/
def watermark (store : Store F) : Nat :=
  match store.knowledge with
  | none => store.rows
  | some knowledge => knowledge.next

def nextSequence (store : Store F) : Nat := store.watermark

/-- Appends one ordinary row, advancing the knowledge axis with it. -/
def appendRow (store : Store F) (row : Row F) : Except StorageError (Store F) := do
  let buffer ← store.buffer.append row
  return { store with
    buffer
    knowledge := store.knowledge.map fun knowledge => { knowledge with
      explicit := knowledge.explicit.map (· ++ [knowledge.next])
      next := knowledge.next + 1 } }

/-- The knowledge state, diverging a virtual table at `virtualWatermark`. -/
def diverged (store : Store F) (virtualWatermark : Nat) : Knowledge :=
  store.knowledge.getD {
    next := virtualWatermark
    bufferBase := virtualWatermark - store.buffer.len
    explicit := none }

/-- Consumes one coordinate without a row. An empty buffer restarts above it; a filled one
straddles it, so its births go per row. -/
def consumeSequence (store : Store F) (virtualWatermark : Nat) : Store F :=
  let knowledge := store.diverged virtualWatermark
  let next := knowledge.next + 1
  { store with knowledge := some (
      if store.buffer.isEmpty then { next, bufferBase := next, explicit := none }
      else { knowledge with next, explicit := some (knowledge.births store.buffer.len) }) }

def appendSuperseding (store : Store F) (row : Row F) (sharedSequence virtualWatermark : Nat) :
    Except StorageError (Store F) := do
  let knowledge := store.diverged virtualWatermark
  let buffer ← store.buffer.append row
  return { store with
    buffer
    knowledge := some { knowledge with
      explicit := some (knowledge.births store.buffer.len ++ [sharedSequence])
      next := max knowledge.next (sharedSequence + 1) } }

def bufferSequence (store : Store F) : Option SequenceInfo :=
  store.knowledge.map fun knowledge => match knowledge.explicit with
    | some births => .explicit births
    | none => .contiguous knowledge.bufferBase

def killedAt (store : Store F) (id : Nat) : Option Nat := store.tombstones.lookup id

def isKilled (store : Store F) (id : Nat) : Bool := (store.killedAt id).isSome

end Store

/-! ### Snapshots -/

structure SegmentView (F : Type) where
  segment : Segment F
  live : Option Bitmap
  deriving DecidableEq

namespace SegmentView

def isLive (view : SegmentView F) (row : Nat) : Bool := Bitmap.validAt view.live row

def liveRows [F64 F] (view : SegmentView F) : List (Row F) :=
  ((List.range view.segment.numRows).filter view.isLive).map view.segment.row

end SegmentView

structure SegmentHandle (F : Type) where
  slot : SegmentSlot F
  live : Option Bitmap
  deriving DecidableEq

def SegmentHandle.view {σ : Type} (schema : Schema) (handle : SegmentHandle F) :
    Io F σ (SegmentView F) := do
  let segment ← handle.slot.segment schema
  return { segment, live := handle.live }

namespace Store

/-- The mask that the tombstones put on the ids from `base` on, none where all are live. -/
def liveMask (store : Store F) (base rows : Nat) : Option Bitmap :=
  let ids := (List.range rows).map (base + ·)
  if ids.any store.isKilled then some (ids.map fun id => !store.isKilled id) else none

def handleOf (store : Store F) (slot : SegmentSlot F) : SegmentHandle F where
  slot
  live := store.liveMask slot.info.baseRowId slot.info.rows

/-- The buffer frozen at its place, stamped with its births where the table has diverged. -/
def frozenBuffer [F64 F] (store : Store F) : Except StorageError (Segment F) := do
  let segment ← store.buffer.freezeAt store.bufferBase
  return match store.bufferSequence with
    | some sequence => segment.withSequence sequence
    | none => segment

/-- One handle for every segment, and one for a frozen copy of a filled buffer. -/
def snapshot [F64 F] (store : Store F) : Except StorageError (List (SegmentHandle F)) :=
  let published := store.segments.map store.handleOf
  if store.buffer.isEmpty then .ok published
  else do
    let segment ← store.frozenBuffer
    return published ++ [store.handleOf (.ofSegment segment none)]

end Store

/-- What an `AS OF` read needs, captured at once. -/
structure KnowledgeSnapshot (F : Type) where
  schema : Schema
  latest : List (SegmentHandle F)
  history : List (HistorySlot F)
  stamps : Tombstones

def Store.knowledgeSnapshot [F64 F] (store : Store F) : Except StorageError (KnowledgeSnapshot F) := do
  let latest ← store.snapshot
  return { schema := store.schema, latest, history := store.history, stamps := store.tombstones }

namespace KnowledgeSnapshot

/-- A live segment's rows as they were known at `cut`. -/
def maskLatest (stamps : Tombstones) (cut : Nat) (segment : Segment F) : SegmentView F :=
  let mask := (List.range segment.numRows).map fun row =>
    segment.sequenceAt row ≤ cut && !(stamps.lookup (segment.baseRowId + row)).any (· ≤ cut)
  { segment, live := if mask.all id then none else some mask }

/-- A history segment's rows as they were known at `cut`. A segment without kills, which the
engine never writes, shows none. -/
def maskHistory (cut : Nat) (segment : Segment F) : SegmentView F :=
  let kills := segment.superseded
  { segment
    live := some ((List.range segment.numRows).map fun row =>
      segment.sequenceAt row ≤ cut && cut < kills.elim 0 (·.getD row 0)) }

/-- The table as it was known at `cut`. -/
def asOf {σ : Type} (snapshot : KnowledgeSnapshot F) (cut : Nat) : Io F σ (List (SegmentView F)) := do
  let latest ← Crash.Fallible.collect (fun handle : SegmentHandle F => do
    let view ← handle.view snapshot.schema
    return maskLatest snapshot.stamps cut view.segment) snapshot.latest
  let history ← Crash.Fallible.collect (fun slot : HistorySlot F => do
    let segment ← slot.segment snapshot.schema
    return maskHistory cut segment) snapshot.history
  return latest ++ history

end KnowledgeSnapshot

end TallyDB
