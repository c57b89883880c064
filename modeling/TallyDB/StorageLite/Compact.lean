import TallyDB.StorageLite.Ops

/-!
# Compaction

Every live row is merged into fresh segments sorted by ordering key and row id, every dead
row into history segments that keep its birth and its kill. The next generation is written
whole; the manifest write commits it.
-/

namespace TallyDB

open Crash

variable {F : Type}

structure MergeEntry (F : Type) where
  value : Int64
  id : Nat
  segment : Segment F
  row : Nat

namespace MergeEntry

def le (left right : MergeEntry F) : Prop :=
  left.value < right.value ∨ (left.value = right.value ∧ left.id ≤ right.id)

instance : DecidableRel (α := MergeEntry F) le := fun left right =>
  inferInstanceAs (Decidable (left.value < right.value ∨
    (left.value = right.value ∧ left.id ≤ right.id)))

def cells [F64 F] (entry : MergeEntry F) : Row F := entry.segment.row entry.row

def birth (entry : MergeEntry F) : Nat := entry.segment.sequenceAt entry.row

end MergeEntry

def Segment.orderingAt (segment : Segment F) (orderingKey row : Nat) : Int64 :=
  match segment.batch.columns[orderingKey]? with
  | some (.i64 values _) => values.getD row 0
  | _ => 0

def SegmentView.entries (orderingKey : Nat) (view : SegmentView F) : List (MergeEntry F × Bool) :=
  (List.range view.segment.numRows).map fun row =>
    ({ value := view.segment.orderingAt orderingKey row
       id := view.segment.baseRowId + row
       segment := view.segment
       row }, view.isLive row)

namespace Store

def mergeOrder (orderingKey : Nat) (views : List (SegmentView F)) : List (MergeEntry F) :=
  (((views.flatMap (·.entries orderingKey)).filter (·.2)).map (·.1)).insertionSort MergeEntry.le

def deadOrder (orderingKey : Nat) (views : List (SegmentView F)) : List (MergeEntry F) :=
  (((views.flatMap (·.entries orderingKey)).filter (!·.2)).map (·.1)).insertionSort MergeEntry.le

/-- Whether the merge breaks `sequence = row id`: it already is broken, a row is retained, or
a live row moves. -/
def diverging (recorded : Option Nat) (order dead : List (MergeEntry F)) : Bool :=
  recorded.isSome || !dead.isEmpty || order.zipIdx.any fun (entry, id) => entry.id ≠ id

section Rebuild

variable [F64 F] (segmentRows : Nat)
variable (close : WriteBuffer F → List (MergeEntry F) → Nat → Except StorageError (Segment F))

/-- Replays merged rows through the append path into segments of the configured size. `taken`
are the entries that `buffer` holds. -/
def rebuild : List (MergeEntry F) → WriteBuffer F → List (MergeEntry F) → Nat →
    Except StorageError (List (Segment F))
  | [], buffer, taken, base =>
    if buffer.isEmpty then .ok []
    else do
      let segment ← close buffer taken base
      return [segment]
  | entry :: rest, buffer, taken, base => do
    let filled ← buffer.append entry.cells
    if segmentRows ≤ filled.len then do
      let segment ← close filled (taken ++ [entry]) base
      let segments ← rebuild rest (.empty buffer.schema buffer.orderingKey) [] (base + filled.len)
      return segment :: segments
    else rebuild rest filled (taken ++ [entry]) base

end Rebuild

section Compact

variable [F64 F]

def closeLive (diverged : Bool) (buffer : WriteBuffer F) (taken : List (MergeEntry F)) (base : Nat) :
    Except StorageError (Segment F) := do
  let segment ← buffer.freezeAt base
  return if diverged then segment.withSequence (.explicit (taken.map (·.birth))) else segment

/-- Freezes a chunk of dead rows, with their births and kills. History has no row ids, so its
segments start at zero. -/
def closeHistory (stamps : Tombstones) (buffer : WriteBuffer F) (taken : List (MergeEntry F))
    (_base : Nat) : Except StorageError (Segment F) := do
  let segment ← buffer.freezeAt 0
  return (segment.withSequence (.explicit (taken.map (·.birth)))).withSuperseded
    (taken.map fun entry => (stamps.lookup entry.id).getD 0)

structure Merged (F : Type) where
  watermark : Option Nat
  rows : Nat
  segments : List (Segment F)
  history : List (Segment F)

def merge (store : Store F) (views : List (SegmentView F)) : Except StorageError (Merged F) := do
  let recorded := store.knowledge.map (·.next)
  let order := mergeOrder store.orderingKey views
  let dead := deadOrder store.orderingKey views
  let diverged := diverging recorded order dead
  let buffer := WriteBuffer.empty store.schema store.orderingKey
  let segments ← rebuild store.segmentRows (closeLive diverged) order buffer [] 0
  let history ← rebuild store.segmentRows (closeHistory store.tombstones) dead buffer [] 0
  return {
    watermark := if diverged then some (recorded.getD store.rows) else none
    rows := order.length
    segments
    history }

/-- The manifest sections of the next generation. Without a backend no segment is named. -/
def mergedSections (store : Store F) (merged : Merged F) : ManifestSections F where
  segments := if store.persistent then
      merged.segments.map fun segment =>
        .of (.segment (store.generation + 1) segment.baseRowId) segment
    else store.sections.segments
  nextSequence := merged.watermark.or store.sections.nextSequence
  history := store.sections.history ++
    (List.range merged.history.length).map fun index => .history (store.sections.history.length + index)

/-- Names that a crashed compaction left under the next generation, or as history that the
manifest never came to name. -/
def isStray (store : Store F) : ObjectName → Bool
  | .segment generation _ => generation = store.generation + 1
  | .deleteLog generation _ => generation = store.generation + 1
  | .history index => .history index ∉ store.sections.history
  | _ => false

/-- Names of any generation but the store's own. -/
def isStale (store : Store F) : ObjectName → Bool
  | .segment generation _ => generation ≠ store.generation
  | .deleteLog generation _ => generation ≠ store.generation
  | _ => false

def publishMerged (merged : Merged F) : StoreM F Unit := do
  let store ← Fallible.read
  let next := store.generation + 1
  let listing ← Io.list
  Fallible.each Io.remove (listing.filter store.isStray)
  Fallible.each (fun (segment, index) =>
    Io.write (.history (store.sections.history.length + index))
    (.segment segment)) merged.history.zipIdx
  Fallible.each (fun segment => Io.write (.segment next segment.baseRowId) (.segment segment))
    merged.segments
  Io.write .manifest (.manifest {
    schema := store.schema
    orderingKey := store.orderingKey
    generation := next
    sections := store.mergedSections merged })
  Fallible.update fun store => { store with generation := next }

/-- The store once the next generation is committed. `sections` are those that were written. -/
def adopted (store : Store F) (sections : ManifestSections F) (merged : Merged F) : Store F :=
  { store with
    sections
    segments := merged.segments.map fun segment => .ofSegment segment (store.fileName segment)
    buffer := .empty store.schema store.orderingKey
    bufferBase := merged.rows
    knowledge := merged.watermark.map fun next => { next, bufferBase := next, explicit := none }
    tombstones := []
    history := store.history ++ merged.history.zipIdx.map fun (segment, index) =>
      { name := store.historyName (store.sections.history.length + index), resident := some segment }
    rows := merged.rows
    deleteLogSequence := 0 }

/-- Removes the stale objects; a failure only leaves garbage. -/
def sweep : StoreM F Unit := do
  let store ← Fallible.read
  let listing ← Fallible.attempt Io.list
  Fallible.each (fun name => do
    let _ ← Fallible.attempt (Io.remove name)
    pure ()) ((listing.getD []).filter store.isStale)

def compact : StoreM F Unit := do
  refuseReadOnly
  let store ← Fallible.read
  let handles ← Fallible.ofExcept store.snapshot
  let views ← Fallible.collect (SegmentHandle.view store.schema) handles
  let merged ← Fallible.ofExcept (store.merge views)
  let sections := store.mergedSections merged
  Fallible.when store.persistent (publishMerged merged)
  Fallible.update fun store => store.adopted sections merged
  resetWal
  Fallible.when store.persistent sweep

end Compact

end Store

end TallyDB
