import TallyDB.StorageLite.Mem

/-!
# What storage writes

The manifest, the delete logs and the write-ahead log. Objects are kept decoded, the log
record by record: a record that a crash or a failed append left incomplete is `none`, and
it ends the clean prefix.
-/

namespace TallyDB

variable {F : Type}

/-! ### The manifest -/

/-- A `SequenceInfo` with the per-row array reduced to its end. -/
inductive SequenceSummary where
  | rowIds
  | contiguous (base : Nat)
  | explicit (last : Nat)
  deriving DecidableEq, Repr

/-- What the manifest knows about one flushed segment without opening its file. -/
structure SegmentRecord (F : Type) where
  name : ObjectName
  baseRowId : Nat
  rows : Nat
  ordered : Bool
  sequence : SequenceSummary
  zoneMaps : List (Option (ZoneMap F))
  deriving DecidableEq

def SegmentRecord.of (name : ObjectName) (segment : Segment F) : SegmentRecord F where
  name
  baseRowId := segment.baseRowId
  rows := segment.numRows
  ordered := segment.ordered
  sequence := match segment.sequence with
    | .rowIds => .rowIds
    | .contiguous base => .contiguous base
    | .explicit _ => .explicit segment.sequenceEnd
  zoneMaps := segment.zoneMaps

def SegmentRecord.sequenceEnd (record : SegmentRecord F) : Nat :=
  match record.sequence with
  | .rowIds => record.baseRowId + record.rows
  | .contiguous base => base + record.rows
  | .explicit last => last

def SegmentRecord.diverged (record : SegmentRecord F) : Bool := record.sequence ≠ .rowIds

structure ManifestSections (F : Type) where
  segments : List (SegmentRecord F)
  nextSequence : Option Nat
  history : List ObjectName
  deriving DecidableEq

def ManifestSections.empty : ManifestSections F := ⟨[], none, []⟩

structure Manifest (F : Type) where
  schema : Schema
  orderingKey : Nat
  generation : Nat
  sections : ManifestSections F
  deriving DecidableEq

/-! ### Delete logs -/

/-- The row ids one mutation killed and the coordinate it landed at. `superseding` is the
coordinate again where the log commits a supersession, and zero otherwise. -/
structure DeleteLog where
  ids : List Nat
  stampedAt : Nat
  superseding : Nat
  deriving DecidableEq, Repr

/-! ### The write-ahead log -/

inductive WalEntry (F : Type) where
  | row (cells : Row F)
  /-- The next `replacements` rows share the birth coordinate `sequence`. -/
  | supersession (sequence replacements : Nat)
  deriving DecidableEq

/-- A log file. `id` is the file's own identity, which a writer keeps when the name is
published anew; the first `synced` frames are durable. -/
structure LogFile (F : Type) where
  id : Nat
  generation : Nat
  baseRowId : Nat
  frames : List (Option (WalEntry F))
  synced : Nat
  deriving DecidableEq

def cleanPrefix : List (Option (WalEntry F)) → List (WalEntry F)
  | some entry :: frames => entry :: cleanPrefix frames
  | _ => []

end TallyDB
