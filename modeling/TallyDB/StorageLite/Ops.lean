import TallyDB.StorageLite.Store

/-!
# The operations of a store

Every operation is a computation over the store and its backend. It changes the store in
memory only where the source does, so an error leaves the memory as far as the source got.
-/

namespace TallyDB

open Crash

variable {F : Type}

abbrev StoreM (F α : Type) := Io F (Store F) α

def LogFile.fresh (generation baseRowId : Nat) (entries : List (WalEntry F)) : LogFile F where
  id := 0
  generation
  baseRowId
  frames := entries.map some
  synced := entries.length

namespace Store

def manifest (store : Store F) (sections : ManifestSections F) : Object F :=
  .manifest {
    schema := store.schema
    orderingKey := store.orderingKey
    generation := store.generation
    sections }

/-- The object a segment's slot faults from; none without a backend. -/
def fileName (store : Store F) (segment : Segment F) : Option ObjectName :=
  if store.persistent then some (.segment store.generation segment.baseRowId) else none

def historyName (store : Store F) (index : Nat) : Option ObjectName :=
  if store.persistent then some (.history index) else none

def refuseReadOnly : StoreM F Unit := do
  let store ← Fallible.read
  if store.readOnly then
    Fallible.fail (.misuse "this handle opened the store read-only; the writer process owns mutation")
  else pure ()

/-! ### The write-ahead log -/

/-- Replaces the log with an empty one at the current row count. -/
def resetWal : StoreM F Unit := do
  let store ← Fallible.read
  Fallible.when store.wal.isSome do
    Io.write .wal (.log (.fresh store.generation store.rows []))
    let writer ← Io.openLog .wal
    Fallible.update fun store => { store with wal := some writer }

def walAppend (row : Row F) : StoreM F Unit := do
  let store ← Fallible.read
  match store.wal with
  | none => pure ()
  | some writer => do
    Io.append writer (.row row)
    match store.walSync with
    | .full => Io.sync writer
    | .group => do
      let due ← Io.elapsed
      Fallible.when due (Io.sync writer)
    | .off => pure () -- a store without sync level opens no log

/-! ### Flush -/

section Flush

variable [F64 F]

/-- Publishes a flushed segment: its file first, then the manifest that names it. -/
def publishSegment (segment : Segment F) : StoreM F Unit := do
  let store ← Fallible.read
  let name := ObjectName.segment store.generation segment.baseRowId
  Io.write name (.segment segment)
  let sections := { store.sections with segments := store.sections.segments ++ [.of name segment] }
  Io.write .manifest (store.manifest sections)
  Fallible.update fun store => { store with sections }

/-- The store once the buffer's segment is registered: an empty buffer at the watermark. -/
def flushed (store : Store F) (segment : Segment F) : Store F :=
  { store with
    segments := store.segments ++ [.ofSegment segment (store.fileName segment)]
    buffer := .empty store.schema store.orderingKey
    bufferBase := store.rows
    knowledge := store.knowledge.map fun knowledge => { knowledge with
      bufferBase := knowledge.next
      explicit := none } }

def flush : StoreM F Unit := do
  refuseReadOnly
  let store ← Fallible.read
  if store.buffer.isEmpty then pure ()
  else do
    let segment ← Fallible.ofExcept store.frozenBuffer
    Fallible.when store.persistent (publishSegment segment)
    Fallible.update fun store => store.flushed segment
    resetWal

end Flush

/-! ### Append -/

section Append

variable [F64 F]

def takeRow (row : Row F) : StoreM F Unit := do
  let store ← Fallible.read
  let appended ← Fallible.ofExcept (store.appendRow row)
  Fallible.update fun _ => { appended with rows := store.rows + 1 }

def flushIfFull : StoreM F Unit := do
  let store ← Fallible.read
  Fallible.when (store.segmentRows ≤ store.buffer.len) flush

/-- Appends one row and returns its row id. It validates before it logs. -/
def append (row : Row F) : StoreM F Nat := do
  refuseReadOnly
  let store ← Fallible.read
  Fallible.ofExcept (store.buffer.validate row)
  walAppend row
  takeRow row
  flushIfFull
  return store.rows

end Append

/-! ### Tombstones -/

def newlyDead (store : Store F) (ids : List Nat) : List Nat :=
  ((ids.filter fun id => !store.isKilled id).dedup).insertionSort (· ≤ ·)

def bury (store : Store F) (ids : List Nat) (stamp : Nat) : Store F :=
  { store with tombstones := ids.map (·, stamp) ++ store.tombstones }

/-- Writes the delete log that commits a mutation. -/
def commitKills (ids : List Nat) (stampedAt superseding : Nat) : StoreM F Unit := do
  let store ← Fallible.read
  Fallible.when store.persistent do
    Io.write (.deleteLog store.generation store.deleteLogSequence)
      (.deleteLog { ids, stampedAt, superseding })
    Fallible.update fun store => { store with deleteLogSequence := store.deleteLogSequence + 1 }

section Kills

variable [F64 F]

/-- Kills rows by id and returns how many died. The buffer is flushed first, so that the
log holds nothing born below the coordinate the kill consumes. -/
def tombstone (ids : List Nat) : StoreM F Nat := do
  refuseReadOnly
  let store ← Fallible.read
  match ids.find? fun id => store.rows ≤ id with
  | some bad => Fallible.fail (.tombstoneOutOfRange bad)
  | none =>
    let newly := store.newlyDead ids
    if newly.isEmpty then pure 0
    else do
      Fallible.when store.persistent flush
      let store ← Fallible.read
      let stamp := store.watermark
      commitKills newly stamp 0
      Fallible.update fun store => (store.bury newly stamp).consumeSequence store.rows
      return newly.length

/-! ### Supersession -/

/-- Opens the bracket of a supersession in the log. -/
def openBracket (sequence replacements : Nat) : StoreM F Unit := do
  let store ← Fallible.read
  match store.wal with
  | none => pure ()
  | some writer => Io.append writer (.supersession sequence replacements)

/-- Takes one replacement born at `sequence` into the buffer. -/
def takeRowAt (sequence : Nat) (row : Row F) : StoreM F Unit := do
  let store ← Fallible.read
  let appended ← Fallible.ofExcept (store.appendSuperseding row sequence store.rows)
  Fallible.update fun _ => { appended with rows := store.rows + 1 }

def supersedeRow (sequence : Nat) (row : Row F) : StoreM F Unit := do
  walAppend row
  takeRowAt sequence row

/-- Makes the replacements durable ahead of the delete log. -/
def settleReplacements : StoreM F Unit := do
  let store ← Fallible.read
  Fallible.when store.persistent
    (match store.wal with
    | some writer => Io.sync writer
    | none => Fallible.when (!store.buffer.isEmpty) flush)

def validateRows (buffer : WriteBuffer F) : List (Row F) → Except StorageError Unit
  | [] => .ok ()
  | row :: rest => do
    buffer.validate row
    validateRows buffer rest

/-- Replaces `victims` by `replacements` at one coordinate and returns how many died. -/
def supersede (replacements : List (Row F)) (victims : List Nat) : StoreM F Nat := do
  refuseReadOnly
  let store ← Fallible.read
  if victims.isEmpty then
    Fallible.fail (.misuse
      "supersede needs at least one victim row (a supersession with nothing to supersede is an append — use append)")
  else do
    Fallible.ofExcept (validateRows store.buffer replacements)
    match victims.find? fun id => store.rows ≤ id with
    | some bad => Fallible.fail (.tombstoneOutOfRange bad)
    | none =>
      let newly := store.newlyDead victims
      if newly.isEmpty && replacements.isEmpty then pure 0
      else do
        Fallible.when (store.persistent && newly.any (store.bufferBase ≤ ·)) flush
        let store ← Fallible.read
        let sequence := store.watermark
        openBracket sequence replacements.length
        Fallible.each (supersedeRow sequence) replacements
        settleReplacements
        commitKills newly sequence sequence
        Fallible.update fun store => store.bury newly sequence
        flushIfFull
        return newly.length

end Kills

end Store

end TallyDB
