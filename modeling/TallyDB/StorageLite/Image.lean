import TallyDB.StorageLite.Replay

/-!
# What a disk recovers

An image lists what an open would find on a disk. `Image.On` says that the disk holds it;
the ledger of an image is what the reopened store shows.
-/

namespace TallyDB

variable {F : Type}

/-! ### Row ids -/

/-- Segments that cover the row ids from `base` up to `last` without a gap. -/
def Covers : Nat → List (Segment F) → Nat → Prop
  | base, [], last => base = last
  | base, segment :: rest, last =>
    segment.baseRowId = base ∧ Covers (base + segment.numRows) rest last

theorem Covers.concat {base last : Nat} {segments : List (Segment F)} {segment : Segment F}
    (covers : Covers base segments last) (next : segment.baseRowId = last) :
    Covers base (segments ++ [segment]) (last + segment.numRows) := by
  induction segments generalizing base with
  | nil =>
    have same : base = last := covers
    subst same
    exact ⟨next, rfl⟩
  | cons first rest ih => exact ⟨covers.1, ih covers.2⟩

theorem Covers.le {base last : Nat} {segments : List (Segment F)} (covers : Covers base segments last) :
    base ≤ last := by
  induction segments generalizing base with
  | nil => exact Nat.le_of_eq covers
  | cons first rest ih => exact (Nat.le_add_right _ _).trans (ih covers.2)

theorem Covers.bound {base last : Nat} {segments : List (Segment F)}
    (covers : Covers base segments last)
    {segment : Segment F} (member : segment ∈ segments) :
    base ≤ segment.baseRowId ∧ segment.baseRowId + segment.numRows ≤ last := by
  induction segments generalizing base with
  | nil => cases member
  | cons first rest ih =>
    obtain ⟨start, after⟩ := covers
    rcases List.mem_cons.mp member with rfl | later
    · exact ⟨Nat.le_of_eq start.symm, start ▸ after.le⟩
    · obtain ⟨low, high⟩ := ih after later
      exact ⟨(Nat.le_add_right _ _).trans low, high⟩

/-- The segment that holds a row id is found by it. -/
theorem Covers.home {base last id : Nat} {segments : List (Segment F)}
    (covers : Covers base segments last) {segment : Segment F}
    (member : segment ∈ segments) (low : segment.baseRowId ≤ id)
    (high : id < segment.baseRowId + segment.numRows) :
    (segments.find? fun other => other.baseRowId ≤ id && id < other.baseRowId + other.numRows) =
      some segment := by
  induction segments generalizing base with
  | nil => cases member
  | cons first rest ih =>
    obtain ⟨start, after⟩ := covers
    rcases List.mem_cons.mp member with rfl | later
    · exact List.find?_cons_of_pos (by simp [low, high])
    · have above := (after.bound later).1
      rw [List.find?_cons_of_neg (by simp; omega)]
      exact ih after later

/-- Every segment of a store: its schema, its ordering key, a row, and a birth for each row. -/
structure SegmentOk [F64 F] (schema : Schema) (orderingKey : Nat) (segment : Segment F) : Prop where
  mapped : segment.Mapped schema
  schema : segment.batch.schema = schema
  orderingKey : segment.orderingKey = orderingKey
  filled : 0 < segment.numRows
  sequenceOk : segment.SequenceOk
  inOrder : segment.InOrder

/-- Every history segment: a birth and a kill for each row. -/
structure HistoryOk [F64 F] (schema : Schema) (orderingKey : Nat) (segment : Segment F) : Prop where
  mapped : segment.Mapped schema
  schema : segment.batch.schema = schema
  orderingKey : segment.orderingKey = orderingKey
  sequenceOk : segment.SequenceOk
  inOrder : segment.InOrder
  kills : ∃ kills, segment.superseded = some kills ∧ kills.length = segment.numRows

section Ordered

variable [F64 F] {schema : Schema} {orderingKey : Nat} {segment : Segment F}

theorem SegmentOk.stored (ok : SegmentOk schema orderingKey segment) : segment.Stored schema :=
  ⟨ok.mapped, ok.inOrder⟩

theorem HistoryOk.stored (ok : HistoryOk schema orderingKey segment) : segment.Stored schema :=
  ⟨ok.mapped, ok.inOrder⟩

end Ordered

/-! ### The layout of a generation -/

/-- The manifest, and the files and delete logs of the generation it names. -/
structure Layout (disk : Disk F) (schema : Schema) (orderingKey generation : Nat)
    (sections : ManifestSections F) (segments past : List (Segment F)) (kills : Tombstones)
    (nextLog : Nat) : Prop where
  manifest : disk.get .manifest = some (.manifest ⟨schema, orderingKey, generation, sections⟩)
  records : sections.segments = segments.map fun segment =>
    .of (.segment generation segment.baseRowId) segment
  files : ∀ segment ∈ segments,
    disk.get (.segment generation segment.baseRowId) = some (.segment segment)
  history : sections.history = (List.range past.length).map .history
  historyFiles : ∀ index segment, past[index]? = some segment →
    disk.get (.history index) = some (.segment segment)
  deleteLogs : ∀ number object, disk.get (.deleteLog generation number) = some object →
    number < nextLog ∧ ∃ log, object = .deleteLog log ∧ log.ids.Pairwise (· < ·) ∧
      ∀ id ∈ log.ids, kills.lookup id = some log.stampedAt
  logged : ∀ id stamp, kills.lookup id = some stamp → ∃ number log,
    disk.get (.deleteLog generation number) = some (.deleteLog log) ∧ id ∈ log.ids

/-- A coordinate that a delete log of the generation commits. -/
def Committed (disk : Disk F) (generation sequence : Nat) : Prop :=
  sequence ≠ 0 ∧ ∃ number log, disk.get (.deleteLog generation number) = some (.deleteLog log) ∧
    log.superseding = sequence

def InLayout (generation : Nat) (segments past : List (Segment F)) : ObjectName → Prop
  | .manifest => True
  | .segment own base => own = generation ∧ ∃ segment ∈ segments, segment.baseRowId = base
  | .deleteLog own _ => own = generation
  | .history index => index < past.length
  | .wal => False

theorem Layout.frame {disk other : Disk F} {schema : Schema} {orderingKey generation : Nat}
    {sections : ManifestSections F} {segments past : List (Segment F)} {kills : Tombstones}
    {nextLog : Nat}
    (layout : Layout disk schema orderingKey generation sections segments past kills nextLog)
    (same : ∀ name, InLayout generation segments past name → other.get name = disk.get name) :
    Layout other schema orderingKey generation sections segments past kills nextLog where
  manifest := (same .manifest trivial).trans layout.manifest
  records := layout.records
  files segment member :=
    (same (.segment generation _) ⟨rfl, segment, member, rfl⟩).trans (layout.files segment member)
  history := layout.history
  historyFiles index segment held :=
    (same (.history index) (List.getElem?_eq_some_iff.mp held).1).trans
      (layout.historyFiles index segment held)
  deleteLogs number object held :=
    layout.deleteLogs number object ((same (.deleteLog generation number) rfl).symm.trans held)
  logged id stamp killed := by
    obtain ⟨number, log, held, member⟩ := layout.logged id stamp killed
    exact ⟨number, log, (same (.deleteLog generation number) rfl).trans held, member⟩

theorem Committed.frame {disk other : Disk F} {generation sequence : Nat}
    (same : ∀ number, other.get (.deleteLog generation number) =
      disk.get (.deleteLog generation number)) :
    Committed other generation sequence ↔ Committed disk generation sequence := by
  simp only [Committed, same]

/-! ### Images -/

/-- The live flag of every row, by row id. -/
abbrev Ledger (F : Type) := List (Row F × Bool)

def ledgerOf (rows : List (Row F)) (kills : Tombstones) : Ledger F :=
  rows.zipIdx.map fun (row, id) => (row, (kills.lookup id).isSome)

structure Image (F : Type) where
  generation : Nat
  sections : ManifestSections F
  recorded : List (Segment F)
  /-- The segment file that an unrecorded layout finds by its name. -/
  orphan : Option (Segment F)
  past : List (Segment F)
  kills : Tombstones
  nextLog : Nat
  committed : List Nat
  base : Nat
  entries : List (WalEntry F)

/-- Units of one row each. -/
def Ordinary (units : List (Replayed F)) : Prop := ∀ unit ∈ units, ∃ cells, unit = .row cells

/-- A coordinate that a row carries: as the birth of a stored row or of a logged replacement,
or as the stamp of a kill. -/
def Witnessed (segments : List (Segment F)) (kills : Tombstones) (units : List (Replayed F))
    (sequence : Nat) : Prop :=
  sequence ∈ segments.flatMap Segment.births ∨
    (∃ rows, rows ≠ [] ∧ Replayed.supersession sequence rows ∈ units) ∨
      ∃ id, kills.lookup id = some sequence

theorem Witnessed.mono {segments : List (Segment F)} {kills : Tombstones}
    {units more : List (Replayed F)} {sequence : Nat}
    (witnessed : Witnessed segments kills units sequence) (wider : units ⊆ more) :
    Witnessed segments kills more sequence :=
  witnessed.imp_right (.imp_left fun ⟨rows, filled, member⟩ => ⟨rows, filled, wider member⟩)

namespace Image

def visible (image : Image F) : List (Segment F) := image.recorded ++ image.orphan.toList

def total (image : Image F) : Nat := (image.visible.map Segment.numRows).sum

def replay (image : Image F) : List (Replayed F) :=
  skipFlushed (image.total - image.base) (resolve image.committed image.entries)

def ledger [F64 F] (image : Image F) : Ledger F :=
  ledgerOf (image.visible.flatMap Segment.rows ++ unitRows image.replay) image.kills

/-- What an open finds in the log, where `entries` is nothing for another generation's. -/
def LogOn (image : Image F) (disk : Disk F) : Prop :=
  (disk.get .wal = none ∧ image.entries = []) ∨
    ∃ file, disk.get .wal = some (.log file) ∧
      ((file.generation = image.generation ∧ file.baseRowId = image.base ∧
          cleanPrefix file.frames = image.entries) ∨
        (file.generation ≠ image.generation ∧ image.entries = []))

structure On [F64 F] (image : Image F) (disk : Disk F) (schema : Schema)
    (orderingKey : Nat) : Prop where
  layout : Layout disk schema orderingKey image.generation image.sections image.recorded image.past
    image.kills image.nextLog
  orphans : image.recorded = [] → ∀ base object,
    disk.get (.segment image.generation base) = some object ↔
      base = 0 ∧ ∃ segment, image.orphan = some segment ∧ object = .segment segment
  alone : image.recorded ≠ [] → image.orphan = none
  committed : ∀ sequence, sequence ∈ image.committed ↔ Committed disk image.generation sequence
  witnessed : ∀ sequence ∈ image.committed, Witnessed image.visible image.kills image.replay sequence
  log : image.LogOn disk
  covers : Covers 0 image.visible image.total
  segments : ∀ segment ∈ image.visible, SegmentOk schema orderingKey segment
  past : ∀ segment ∈ image.past, HistoryOk schema orderingKey segment
  killed : ∀ id, (image.kills.lookup id).isSome → id < image.total
  valid : ∀ row ∈ unitRows image.replay, schema.validate row = .ok ()
  /-- A first flush comes before the first bracket. -/
  ordinary : image.recorded = [] → Ordinary image.replay

/-- What an open needs beside the log. -/
structure Stands [F64 F] (image : Image F) (disk : Disk F) (schema : Schema)
    (orderingKey : Nat) : Prop where
  layout : Layout disk schema orderingKey image.generation image.sections image.recorded image.past
    image.kills image.nextLog
  orphans : image.recorded = [] → ∀ base object,
    disk.get (.segment image.generation base) = some object ↔
      base = 0 ∧ ∃ segment, image.orphan = some segment ∧ object = .segment segment
  alone : image.recorded ≠ [] → image.orphan = none
  committed : ∀ sequence, sequence ∈ image.committed ↔ Committed disk image.generation sequence
  covers : Covers 0 image.visible image.total
  segments : ∀ segment ∈ image.visible, SegmentOk schema orderingKey segment
  past : ∀ segment ∈ image.past, HistoryOk schema orderingKey segment
  killed : ∀ id, (image.kills.lookup id).isSome → id < image.total

theorem On.stands [F64 F] {image : Image F} {disk : Disk F} {schema : Schema} {orderingKey : Nat}
    (on : image.On disk schema orderingKey) : image.Stands disk schema orderingKey :=
  ⟨on.layout, on.orphans, on.alone, on.committed, on.covers, on.segments, on.past, on.killed⟩

end Image

end TallyDB
