import TallyDB.StorageLite.Compact

/-!
# Opening a persistent store

Opening reads the manifest, the delete logs and the segments it names, folds the watermark
from what they carry, and replays the log's clean prefix on top.
-/

namespace TallyDB

open Crash

variable {F : Type}

/-! ### Options -/

structure StoreOptions where
  segmentRows : Option Nat
  segmentBytes : Option Nat
  walSync : WalSync
  deriving DecidableEq, Repr

def defaultSegmentRows : Nat := 65536

def Schema.rowWidth (schema : Schema) : Nat :=
  (schema.fields.map fun field => match field.columnType with
    | .i64 | .f64 => 8
    | .key => 4).sum

def StoreOptions.threshold (options : StoreOptions) (schema : Schema) : Except StorageError Nat :=
  match options.segmentRows, options.segmentBytes with
  | some _, some _ => .error (.options "set segment_rows or segment_bytes, not both")
  | some rows, none => .ok rows
  | none, some bytes => .ok (max (bytes / schema.rowWidth) 1)
  | none, none => .ok defaultSegmentRows

/-! ### Replay -/

/-- A recovered unit of the log: one row, or a supersession's rows. -/
inductive Replayed (F : Type) where
  | row (cells : Row F)
  | supersession (sequence : Nat) (rows : List (Row F))
  deriving DecidableEq

namespace Replayed

def rowCount : Replayed F → Nat
  | row _ => 1
  | supersession _ rows => rows.length

def entries : Replayed F → List (WalEntry F)
  | row cells => [.row cells]
  | supersession sequence rows => .supersession sequence rows.length :: rows.map .row

end Replayed

def takeRows : Nat → List (WalEntry F) → List (Row F) × List (WalEntry F)
  | count + 1, .row cells :: rest => (cells :: (takeRows count rest).1, (takeRows count rest).2)
  | _ + 1, _ :: rest => ([], rest)
  | _ + 1, [] => ([], [])
  | 0, rest => ([], rest)

theorem takeRows_length (count : Nat) (entries : List (WalEntry F)) :
    (takeRows count entries).2.length ≤ entries.length := by
  induction entries generalizing count with
  | nil => cases count <;> simp [takeRows]
  | cons entry rest ih =>
    cases count with
    | zero => simp [takeRows]
    | succ count =>
      cases entry with
      | row cells =>
        have shorter := ih count
        simp only [takeRows, List.length_cons]
        omega
      | supersession sequence replacements => simp [takeRows]

/-- Resolves brackets into units, old or new. A complete bracket counts if its delete log
committed or if records follow it; nothing after a torn bracket does. -/
def resolve (committed : List Nat) : List (WalEntry F) → List (Replayed F)
  | [] => []
  | .row cells :: rest => .row cells :: resolve committed rest
  | .supersession sequence replacements :: rest =>
    let rows := (takeRows replacements rest).1
    let after := (takeRows replacements rest).2
    if rows.length = replacements then
      if sequence ∈ committed ∨ after ≠ [] then
        .supersession sequence rows :: resolve committed after
      else resolve committed after
    else []
termination_by entries => entries.length
decreasing_by
  · simp
  all_goals
    have shorter := takeRows_length replacements rest
    simp only [List.length_cons]
    omega

def skipFlushed : Nat → List (Replayed F) → List (Replayed F)
  | _, [] => []
  | skip, unit :: rest =>
    if skip = 0 then unit :: skipFlushed 0 rest
    else if unit.rowCount ≤ skip then skipFlushed (skip - unit.rowCount) rest
    else skipFlushed 0 rest

namespace Store

def applyReplayed : Replayed F → StoreM F Unit
  | .row cells => takeRow cells
  | .supersession sequence rows => Fallible.each (takeRowAt sequence) rows

/-- What the log holds for this generation: the first row id it covers and its records. -/
def readWal : StoreM F (Nat × List (WalEntry F)) := do
  let store ← Fallible.read
  let found ← Io.find .wal
  match found with
  | none => pure (store.rows, [])
  | some (.log file) =>
    if file.generation = store.generation then pure (file.baseRowId, cleanPrefix file.frames)
    else pure (store.rows, [])
  | some _ => Fallible.fail (.format (.corrupt "not a WAL file"))

/-- Replays the log on top of the segments and leaves it in steady state. The replacement log
is published whole over the old one. -/
def replayWal (committed : List Nat) : StoreM F Unit := do
  let store ← Fallible.read
  let (baseRowId, entries) ← readWal
  let replay := skipFlushed (store.rows - baseRowId) (resolve committed entries)
  if store.walSync = .off then do
    Fallible.each applyReplayed replay
    Io.discard .wal
  else do
    Io.write .wal (.log (.fresh store.generation store.rows (replay.flatMap Replayed.entries)))
    Fallible.each applyReplayed replay
    let writer ← Io.openLog .wal
    Fallible.update fun store => { store with wal := some writer }

/-! ### The segments and the delete logs -/

/-- What the listing yields: the scanned segments, the kills, the committed supersessions and
the next delete log's number. -/
structure Scan (F : Type) where
  slots : List (SegmentSlot F)
  tombstones : Tombstones
  committed : List Nat
  nextSequence : Nat

def readDeleteLog (name : ObjectName) : StoreM F DeleteLog := do
  let object ← Io.read name
  Fallible.ofExcept (match object with
    | .deleteLog log => .ok log
    | _ => .error (.format (.corrupt "not a delete log")))

def readScanned (name : ObjectName) : StoreM F (Segment F) := do
  let store ← Fallible.read
  let object ← Io.read name
  Fallible.ofExcept (do
    let segment ← checkFaulted store.schema name none object
    if segment.orderingKey ≠ store.orderingKey then
      .error (.schemaMismatch s!"segment '{name.text}' orders on a different column")
    else .ok segment)

def scanName (generation : Nat) (recorded : Bool) (scan : Scan F) (name : ObjectName) :
    StoreM F (Scan F) :=
  match name with
  | .deleteLog own sequence =>
    if own = generation then do
      let log ← readDeleteLog name
      return { scan with
        tombstones := log.ids.map (·, log.stampedAt) ++ scan.tombstones
        committed := if log.superseding ≠ 0 then log.superseding :: scan.committed else scan.committed
        nextSequence := max scan.nextSequence (sequence + 1) }
    else pure scan
  | .segment own _ =>
    if recorded || own ≠ generation then pure scan
    else do
      let segment ← readScanned name
      return { scan with slots := scan.slots ++ [.ofSegment segment (some name)] }
  | _ => pure scan

/-- The slots of the recorded segments; a named file that is not listed is lost rows. -/
def recordedSlots (listing : List ObjectName) :
    List (SegmentRecord F) → Except StorageError (List (SegmentSlot F))
  | [] => .ok []
  | record :: rest =>
    if record.name ∈ listing then do
      let slots ← recordedSlots listing rest
      return .lazy record :: slots
    else .error (.missingRows record.baseRowId)

/-- The row count of slots that cover the ids from `expectedBase` on without a gap. -/
def contiguous : Nat → List (SegmentSlot F) → Except StorageError Nat
  | expectedBase, [] => .ok expectedBase
  | expectedBase, slot :: rest =>
    if slot.info.baseRowId ≠ expectedBase then .error (.missingRows expectedBase)
    else contiguous (expectedBase + slot.info.rows) rest

/-- The watermark of a diverged table, from the manifest, the kills and the segments. -/
def recoveredWatermark (recorded : Option Nat) (tombstones : Tombstones)
    (slots : List (SegmentSlot F)) : Option Nat :=
  let killedAt := (tombstones.map (·.2)).foldl max 0
  if recorded.isSome || 0 < killedAt || slots.any (·.info.diverged) then
    let spent := if 0 < killedAt then killedAt + 1 else 0
    some ((slots.map (·.info.sequenceEnd)).foldl max (max (recorded.getD 0) spent))
  else none

/-- Reads the manifest, or writes a first one. -/
def readManifest : StoreM F Unit := do
  let store ← Fallible.read
  let found ← Io.find .manifest
  match found with
  | none => Io.write .manifest (.manifest {
      schema := store.schema
      orderingKey := store.orderingKey
      generation := 0
      sections := .empty })
  | some (.manifest manifest) =>
    if manifest.schema ≠ store.schema then
      Fallible.fail (.schemaMismatch "manifest schema differs from the schema given")
    else if manifest.orderingKey ≠ store.orderingKey then
      Fallible.fail (.schemaMismatch
        s!"manifest orders on column {manifest.orderingKey}, caller asked for {store.orderingKey}")
    else Fallible.update fun store => { store with
      generation := manifest.generation
      sections := manifest.sections }
  | some _ => Fallible.fail (.format (.corrupt "not a manifest"))

/-- The slots in row-id order, the kills and the committed supersessions. -/
def readLayout : StoreM F (Scan F) := do
  let store ← Fallible.read
  let recorded := !store.sections.segments.isEmpty
  let listing ← Io.list
  let scan ← Fallible.fold (scanName store.generation recorded)
    { slots := [], tombstones := [], committed := [], nextSequence := 0 } listing
  let named ← Fallible.ofExcept (recordedSlots listing store.sections.segments)
  return { scan with
    slots := (scan.slots ++ named).insertionSort fun left right =>
      left.info.baseRowId ≤ right.info.baseRowId }

def scannedRecord (slot : SegmentSlot F) : Option (SegmentRecord F) := do
  let name ← slot.name
  let segment ← slot.resident
  return .of name segment

/-- Names the scanned segments in the manifest, so that the next open reads them by name. -/
def recordScanned (slots : List (SegmentSlot F)) : StoreM F Unit := do
  let store ← Fallible.read
  Fallible.when (store.sections.segments.isEmpty && !slots.isEmpty) do
    let sections := { store.sections with segments := slots.filterMap scannedRecord }
    Io.write .manifest (store.manifest sections)
    Fallible.update fun store => { store with sections }

def opened (store : Store F) (scan : Scan F) (rows : Nat) (watermark : Option Nat) : Store F :=
  { store with
    segments := scan.slots
    bufferBase := rows
    knowledge := watermark.map fun next => { next, bufferBase := next, explicit := none }
    tombstones := scan.tombstones
    history := store.sections.history.map fun name => { name := some name, resident := none }
    rows
    deleteLogSequence := scan.nextSequence
    persistent := true }

def openLayout : StoreM F Unit := do
  let scan ← readLayout
  let rows ← Fallible.ofExcept (contiguous 0 scan.slots)
  match ((scan.tombstones.map (·.1)).insertionSort (· ≤ ·)).find? fun id => rows ≤ id with
  | some bad => Fallible.fail (.tombstoneOutOfRange bad)
  | none =>
    let store ← Fallible.read
    let watermark := recoveredWatermark store.sections.nextSequence scan.tombstones scan.slots
    recordScanned scan.slots
    Fallible.update fun store => store.opened scan rows watermark
    replayWal scan.committed

def openBackend : StoreM F Unit := do
  readManifest
  openLayout

def unopened (schema : Schema) (orderingKey : Nat) (options : StoreOptions) :
    Except StorageError (Store F) := do
  let segmentRows ← options.threshold schema
  let store ← withSegmentRows schema orderingKey segmentRows
  return { store with walSync := options.walSync }

/-- Opens a persistent store, creating the table where there is none. -/
def persistentWith (schema : Schema) (orderingKey : Nat) (options : StoreOptions) :
    Program (Call F) Call.Resp (Except StorageError (Store F)) :=
  match unopened schema orderingKey options with
  | .error e => .done (.error e)
  | .ok store => (openBackend store).bind fun out => .done (out.1.map fun _ => out.2)

end Store

end TallyDB
