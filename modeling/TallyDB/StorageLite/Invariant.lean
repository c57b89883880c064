import TallyDB.StorageLite.Image

/-!
# The invariants of a store

`Sound` is about memory: slots yield the segments they stand for, which cover the row ids
below the buffer. `Filed` is about the files beside the log. `Logged` ties a store under full sync
to its disk: the log holds whole units, a flushed part and the buffer's rows.
-/

namespace TallyDB

variable {F : Type}

/-- A slot that stands for `segment`, kept under `name`. -/
structure SegmentSlot.Yields (slot : SegmentSlot F) (disk : Disk F) (file : Option ObjectName)
    (segment : Segment F) : Prop where
  info : slot.info = .of segment
  name : slot.name = file
  data : slot.resident = some segment ∨
    slot.resident = none ∧ ∃ own, file = some own ∧ disk.get own = some (.segment segment)

structure HistorySlot.Yields (slot : HistorySlot F) (disk : Disk F) (file : Option ObjectName)
    (segment : Segment F) : Prop where
  name : slot.name = file
  data : slot.resident = some segment ∨
    slot.resident = none ∧ ∃ own, file = some own ∧ disk.get own = some (.segment segment)

/-- The log that the disk holds: synced records, unsynced ones, and perhaps a torn one. -/
def LogState (disk : Disk F) (writer generation baseRowId : Nat) (synced unsynced : List (WalEntry F))
    (torn : Bool) : Prop :=
  disk.get .wal = some (.log {
    id := writer
    generation
    baseRowId
    frames := (synced ++ unsynced).map some ++ if torn then [none] else []
    synced := synced.length })

namespace Store

structure Sound [F64 F] (store : Store F) (disk : Disk F)
    (segments past : List (Segment F)) : Prop where
  writable : store.readOnly = false
  keyed : store.schema.checkOrderingKey store.orderingKey = .ok ()
  threshold : 0 < store.segmentRows
  bufferSchema : store.buffer.schema = store.schema
  bufferKey : store.buffer.orderingKey = store.orderingKey
  axis : store.AxisOk
  slots : List.Forall₂ (fun slot segment => slot.Yields disk (store.fileName segment) segment)
    store.segments segments
  segmentsOk : ∀ segment ∈ segments, SegmentOk store.schema store.orderingKey segment
  covers : Covers 0 segments store.bufferBase
  below : ∀ birth ∈ segments.flatMap Segment.births ++ store.bufferBirths, birth < store.watermark
  killed : ∀ id, store.isKilled id → id < store.rows
  history : List.Forall₂ (fun slot entry => slot.Yields disk (store.historyName entry.2) entry.1)
    store.history past.zipIdx
  pastOk : ∀ segment ∈ past, HistoryOk store.schema store.orderingKey segment
  remembered : store.sections.history = (List.range past.length).map .history
  virtual : store.knowledge = none → ∀ segment ∈ segments, segment.sequence = .rowIds
  inOrder : store.buffer.InOrder

/-- A writer that syncs every record. -/
structure Full (store : Store F) : Prop where
  persistent : store.persistent = true
  walSync : store.walSync = .full
  logs : store.wal.isSome

/-- The log of a store: the writer's file holds whole units, all synced. -/
structure LogHeld (store : Store F) (disk : Disk F) (flushed live : List (Replayed F)) : Prop where
  file : ∃ writer base, store.wal = some writer ∧ base + (unitRows flushed).length = store.bufferBase ∧
    LogState disk writer store.generation base ((flushed ++ live).flatMap Replayed.entries) [] false
  rows : unitRows live = store.buffer.rows
  shared : ∀ sequence rows, Replayed.supersession sequence rows ∈ live → rows ≠ [] →
    sequence ∈ store.bufferBirths

structure Filed [F64 F] (store : Store F) (disk : Disk F)
    (segments past : List (Segment F)) : Prop where
  layout : Layout disk store.schema store.orderingKey store.generation store.sections segments past
    store.tombstones store.deleteLogSequence
  killedDurable : ∀ id, store.isKilled id → id < store.bufferBase
  leftover : segments = [] → ∀ base object, disk.get (.segment store.generation base) = some object →
    base = 0 ∧ ∃ segment, object = .segment segment ∧ SegmentOk store.schema store.orderingKey segment ∧
      segment.baseRowId = 0

structure Logged [F64 F] (store : Store F) (disk : Disk F) (segments past : List (Segment F))
    (flushed live : List (Replayed F)) : Prop where
  layout : Layout disk store.schema store.orderingKey store.generation store.sections segments past
    store.tombstones store.deleteLogSequence
  killedDurable : ∀ id, store.isKilled id → id < store.bufferBase
  witnessed : ∀ sequence, Committed disk store.generation sequence →
    Witnessed segments store.tombstones live sequence
  log : store.LogHeld disk flushed live
  /-- Where no segment is recorded, a file of the generation is a flush's leftover. -/
  leftover : segments = [] → ∀ base object, disk.get (.segment store.generation base) = some object →
    base = 0 ∧ ∃ segment, object = .segment segment ∧ SegmentOk store.schema store.orderingKey segment ∧
      segment.baseRowId = 0 ∧ segment.rows <+: store.buffer.rows
  ordinary : segments = [] → ∀ unit ∈ flushed ++ live, ∃ cells, unit = .row cells

theorem Logged.filed [F64 F] {store : Store F} {disk : Disk F} {segments past : List (Segment F)}
    {flushed live : List (Replayed F)} (logged : store.Logged disk segments past flushed live) :
    store.Filed disk segments past where
  layout := logged.layout
  killedDurable := logged.killedDurable
  leftover bare base object held := by
    obtain ⟨first, segment, same, ok, start, -⟩ := logged.leftover bare base object held
    exact ⟨first, segment, same, ok, start⟩

end Store

end TallyDB
