import TallyDB.StorageLite.Perform

/-!
# What a store shows

The rows of a store read through its slots, and what an open makes of a fallen disk.
-/

namespace TallyDB

open Crash

variable {F : Type} {allow : World F → Call F → Outcome → Prop} {crash : World F → Prop}
variable {s : Store F} {w : World F} {disk : Disk F} {segments past : List (Segment F)}
variable {flushed live : List (Replayed F)}

def Always (_ : World F) (_ : Call F) (outcome : Outcome) : Prop := outcome = .ok

theorem sure_always : Sure (@Always F) := fun _ _ _ allowed => by cases allowed

theorem completes {σ α : Type} {x : Io F σ α} {state : σ}
    {post : Except StorageError α → σ → World F → Prop}
    (pre : Fallible.wp backend Always crash x post state w) :
    post (Program.complete backend .ok (x state) w).1.1 (Program.complete backend .ok (x state) w).1.2
      (Program.complete backend .ok (x state) w).2 :=
  Program.complete_meets pre fun _ _ => rfl

/-! ### Rows -/

/-- The segment that a slot addresses on a disk. -/
def SegmentSlot.find (slot : SegmentSlot F) (disk : Disk F) : Option (Segment F) :=
  slot.resident.or (slot.name.bind fun name => match disk.get name with
    | some (.segment segment) => some segment
    | _ => none)

def HistorySlot.find (slot : HistorySlot F) (disk : Disk F) : Option (Segment F) :=
  slot.resident.or (slot.name.bind fun name => match disk.get name with
    | some (.segment segment) => some segment
    | _ => none)

theorem SegmentSlot.Yields.find {slot : SegmentSlot F} {file : Option ObjectName} {segment : Segment F}
    (yields : slot.Yields disk file segment) : slot.find disk = some segment := by
  rcases yields.data with own | ⟨none, name, named, held⟩
  · simp [SegmentSlot.find, own]
  · simp [SegmentSlot.find, none, yields.name, named, held]

theorem HistorySlot.Yields.find {slot : HistorySlot F} {file : Option ObjectName} {segment : Segment F}
    (yields : slot.Yields disk file segment) : slot.find disk = some segment := by
  rcases yields.data with own | ⟨none, name, named, held⟩
  · simp [HistorySlot.find, own]
  · simp [HistorySlot.find, none, yields.name, named, held]

def Ledger.liveRows (ledger : Ledger F) : List (Row F) :=
  (ledger.filter fun entry => !entry.2).map (·.1)

namespace Store

def segmentsOn (store : Store F) (disk : Disk F) : List (Segment F) :=
  store.segments.filterMap (·.find disk)

theorem Sound.segmentsOn [F64 F] (sound : s.Sound disk segments past) :
    s.segmentsOn disk = segments := by
  have finds {slots : List (SegmentSlot F)} {own : List (Segment F)}
      (yields : List.Forall₂ (fun slot segment => slot.Yields disk (s.fileName segment) segment)
        slots own) :
      slots.filterMap (·.find disk) = own := by
    induction yields with
    | nil => rfl
    | cons yields _ ih =>
      rw [List.filterMap_cons]
      simp only [yields.find]
      exact congrArg _ ih
  exact finds sound.slots

variable [F64 F]

/-- Every row of a store beside whether it is dead, by row id. -/
def shown (store : Store F) (disk : Disk F) : Ledger F := store.ledger (store.segmentsOn disk)

theorem Sound.shown (sound : s.Sound disk segments past) : s.shown disk = s.ledger segments := by
  rw [Store.shown, sound.segmentsOn]

def liveRows (store : Store F) (disk : Disk F) : List (Row F) := (store.shown disk).liveRows

/-- The live rows that the latest snapshot shows, read with every call succeeding. -/
def snapshotRows (store : Store F) (disk : Disk F) : Except StorageError (List (Row F)) := do
  let handles ← store.snapshot
  let views ← (Program.complete backend .ok
    ((Fallible.collect (SegmentHandle.view store.schema) handles : Io F Unit _) ()) ⟨disk, []⟩).1.1
  return views.flatMap SegmentView.liveRows

theorem liveRows_viewOf (all : List (Segment F)) : (all.map s.viewOf).flatMap SegmentView.liveRows =
    ((entriesOf s.orderingKey all).filter fun entry => !s.isKilled entry.id).map MergeEntry.cells := by
  unfold entriesOf
  rw [List.flatMap_map, List.filter_flatMap, List.map_flatMap]
  congr 1
  funext segment
  rw [SegmentView.liveRows, List.filter_map, List.map_map]
  have live : ∀ row ∈ List.range segment.numRows, (s.viewOf segment).isLive row =
      ((fun entry : MergeEntry F => !s.isKilled entry.id) ∘ segment.entry s.orderingKey) row :=
        fun row member =>
    isLive_liveMask (List.mem_range.mp member)
  rw [show (s.viewOf segment).segment = segment from rfl, List.filter_congr live]
  rfl

theorem liveRows_pieces {all : List (Segment F)} (pieces : Pieces s segments all) :
    (all.map s.viewOf).flatMap SegmentView.liveRows = (s.ledger segments).liveRows := by
  rw [liveRows_viewOf, Ledger.liveRows,
    @TallyDB.Pieces.ledger F _ s segments all s.orderingKey pieces, List.filter_map,
    List.map_map]
  rfl

/-- A snapshot that is taken shows the live rows. -/
theorem Sound.snapshotRows {handles : List (SegmentHandle F)} (sound : s.Sound disk segments past)
    (taken : s.snapshot = .ok handles) : s.snapshotRows disk = .ok (s.liveRows disk) := by
  obtain ⟨all, pieces, shows⟩ := sound.snapshot taken
  have own : ∀ view ∈ all.map s.viewOf, view.segment.batch.schema = s.schema := by
    intro view member
    obtain ⟨segment, inside, rfl⟩ := List.mem_map.mp member
    exact (pieces.ok segment inside).schema
  have reads : Fallible.wp backend Always (fun _ => True)
    (Fallible.collect (SegmentHandle.view s.schema) handles)
      (fun result _ _ => result = .ok (all.map s.viewOf)) () ⟨disk, []⟩ :=
    wp_views rfl shows own (fun _ _ => trivial)
      (fun _ _ fails => (sure_always.scan fails).elim) fun _ _ => rfl
  have read := completes reads
  rw [Store.snapshotRows, taken]
  simp only [bind, Except.bind, read]
  rw [liveRows, sound.shown, ← liveRows_pieces pieces]
  rfl

end Store

end TallyDB
