import TallyDB.StorageLite.Acknowledged
import TallyDB.StorageLite.ManifestRoundTrip
import TallyDB.StorageLite.Tombstone
import TallyDB.StorageLite.WalFormat

/-!
# What the files of a disk decode to

The manifest, the segments, the delete logs and the log of a disk, as files. Where every name,
annotation and count fits its field, an open decodes each of them to what was written, so a store
that comes back from its objects comes back from its files.
-/

namespace TallyDB

open Crash Wire

variable {F : Type}

/-! ### Files -/

def SegmentRecord.text (record : SegmentRecord F) : RecordText F where
  name := record.name.text
  baseRowId := record.baseRowId
  rows := record.rows
  ordered := record.ordered
  sequence := record.sequence
  zoneMaps := record.zoneMaps

/-- A manifest under the texts of its names. -/
def Manifest.text (manifest : Manifest F) : ManifestText F where
  schema := manifest.schema
  orderingKey := manifest.orderingKey
  generation := manifest.generation
  sections := ⟨manifest.sections.segments.map (·.text), manifest.sections.nextSequence,
    manifest.sections.history.map (·.text)⟩

/-- The log's file, cut within some record or behind the last, is read up to that record. -/
def LogFile.ReadsBack [F64 F] (file : LogFile F) (columns : Nat) : Prop :=
  ∀ (generation baseRowId : UInt64) (records : List (WalRecord F)) (cut : Nat), 30 ≤ cut →
    framesBefore cut 30 records = file.frames →
    (∀ record ∈ records, record.HasWidth columns) →
      (∀ record ∈ records, record.payload.length < 2 ^ 32) →
    ∃ contents, decodeWal columns ((encodeWal generation baseRowId records).take cut) = .ok contents ∧
      contents.generation = generation ∧ contents.baseRowId = baseRowId ∧
        contents.entries.map WalRecord.entry = cleanPrefix file.frames

def DeleteLog.ReadsBack (log : DeleteLog) : Prop :=
  ∃ (ids : RowIds) (stampedAt superseding : UInt64), ids.ids.map UInt64.toNat = log.ids ∧
    stampedAt.toNat = log.stampedAt ∧ superseding.toNat = log.superseding ∧
      decodeTombstones (encodeTombstones ids stampedAt superseding) =
        .ok ⟨ids.ids, stampedAt, superseding⟩

/-- An object whose file decodes to it. -/
def Object.ReadsBack [F64Arith F] (columns : Nat) : Object F → Prop
  | .manifest written => decodeManifest (encodeManifest written.text) = .ok written.text
  | .segment written => decodeSegment (encodeSegment written) = .ok written
  | .log file => file.ReadsBack columns
  | .deleteLog written => written.ReadsBack

/-- The objects that an open of a disk looks at, and those that its rows lie in: the log, the
manifest, the delete logs of its generation and the segments that it names or, where it names none,
those of its generation. -/
def Disk.Reads (disk : Disk F) (name : ObjectName) : Prop :=
  match name with
  | .manifest => True
  | .wal => True
  | .deleteLog generation _ =>
      ∃ manifest, disk.get .manifest = some (.manifest manifest) ∧ generation = manifest.generation
  | .segment generation _ => ∃ manifest, disk.get .manifest = some (.manifest manifest) ∧
      if manifest.sections.segments = [] then generation = manifest.generation else name ∈
        manifest.sections.segments.map (·.name)
  | .history _ =>
      ∃ manifest, disk.get .manifest = some (.manifest manifest) ∧ name ∈ manifest.sections.history

/-- Everything that an open or a read of the rows decodes is what was written. -/
def Disk.Readable [F64Arith F] (disk : Disk F) (columns : Nat) : Prop :=
  ∀ name object, disk.Reads name → disk.get name = some object → object.ReadsBack columns

/-! ### What fits -/

/-- A schema that the files can hold: names of fewer than 65536 bytes, and scales that the registry
knows. -/
structure Schema.Narrow (schema : Schema) : Prop where
  count : schema.fields.length < 2 ^ 32
  fields : ∀ field ∈ schema.fields, field.Narrow

def SequenceInfo.Fits : SequenceInfo → Prop
  | .rowIds => True
  | .contiguous base => base < 2 ^ 64
  | .explicit births => ∀ birth ∈ births, birth < 2 ^ 64

instance : DecidablePred SequenceInfo.Fits
  | .rowIds => .isTrue trivial
  | .contiguous base => inferInstanceAs (Decidable (base < 2 ^ 64))
  | .explicit births => inferInstanceAs (Decidable (∀ birth ∈ births, birth < 2 ^ 64))

def SequenceSummary.Fits : SequenceSummary → Prop
  | .rowIds => True
  | .contiguous base => base < 2 ^ 64
  | .explicit last => last < 2 ^ 64

instance : DecidablePred SequenceSummary.Fits
  | .rowIds => .isTrue trivial
  | .contiguous base => inferInstanceAs (Decidable (base < 2 ^ 64))
  | .explicit last => inferInstanceAs (Decidable (last < 2 ^ 64))

instance : DecidablePred (Column.Interned (F := F))
  | .f64 _ _ => .isTrue nofun
  | .i64 _ _ => .isTrue nofun
  | .key codes validity dictionary => decidable_of_iff (dictionary.bytes.length < 2 ^ 31) ⟨by
      rintro short _ _ _ ⟨⟩
      exact short, fun interned => interned codes validity dictionary rfl⟩

/-- The counts and the lengths of a segment fit their words. -/
structure Segment.Fits [F64Arith F] (segment : Segment F) : Prop where
  sequence : segment.sequence.Fits
  kills : ∀ kills ∈ segment.superseded, kills.length = segment.numRows ∧ ∀ kill ∈ kills, kill < 2 ^ 64
  interned : ∀ column ∈ segment.batch.columns, column.Interned
  rows : segment.numRows * 8 < 2 ^ 63
  base : segment.baseRowId < 2 ^ 64
  file : (encodeSegment segment).length < 2 ^ 64
  bitmaps : ∀ column ∈ segment.batch.columns, ∀ bits ∈ column.validity, bits.asBytes.length < 2 ^ 32
  trailer : ∀ entry ∈ trailerSections segment, entry.2.length < 2 ^ 32

instance [F64Arith F] (segment : Segment F) : Decidable segment.Fits :=
  decidable_of_iff (segment.sequence.Fits ∧
      (∀ kills ∈ segment.superseded, kills.length = segment.numRows ∧ ∀ kill ∈ kills, kill < 2 ^ 64) ∧
      (∀ column ∈ segment.batch.columns, column.Interned) ∧ segment.numRows * 8 < 2 ^ 63 ∧
      segment.baseRowId < 2 ^ 64 ∧
      (encodeSegment segment).length < 2 ^ 64 ∧
      (∀ column ∈ segment.batch.columns, ∀ bits ∈ column.validity, bits.asBytes.length < 2 ^ 32) ∧
      ∀ entry ∈ trailerSections segment, entry.2.length < 2 ^ 32)
    ⟨fun ⟨sequence, kills, interned, rows, base, file, bitmaps, trailer⟩ =>
      ⟨sequence, kills, interned, rows, base, file, bitmaps, trailer⟩,
      fun fits => ⟨fits.sequence, fits.kills, fits.interned, fits.rows, fits.base, fits.file,
      fits.bitmaps, fits.trailer⟩⟩

/-- Those of a manifest fit theirs. -/
structure Manifest.Fits [F64Arith F] (manifest : Manifest F) : Prop where
  generation : manifest.generation < 2 ^ 64
  records : ∀ record ∈ manifest.sections.segments, (utf8 record.name.text).length < 2 ^ 16 ∧
    record.baseRowId < 2 ^ 64 ∧
    record.rows < 2 ^ 64 ∧ record.sequence.Fits
  watermark : ∀ next ∈ manifest.sections.nextSequence, next < 2 ^ 64
  history : ∀ name ∈ manifest.sections.history, (utf8 name.text).length < 2 ^ 16
  segmentsLength : (encodeItems encodeRecord (manifest.sections.segments.map (·.text))).length < 2 ^ 32
  historyLength : (encodeItems encodeName (manifest.sections.history.map (·.text))).length < 2 ^ 32

instance [F64Arith F] (manifest : Manifest F) : Decidable manifest.Fits :=
  decidable_of_iff (manifest.generation < 2 ^ 64 ∧
      (∀ record ∈ manifest.sections.segments, (utf8 record.name.text).length < 2 ^ 16 ∧
      record.baseRowId < 2 ^ 64 ∧
        record.rows < 2 ^ 64 ∧ record.sequence.Fits) ∧
      (∀ next ∈ manifest.sections.nextSequence, next < 2 ^ 64) ∧
      (∀ name ∈ manifest.sections.history, (utf8 name.text).length < 2 ^ 16) ∧
      (encodeItems encodeRecord (manifest.sections.segments.map (·.text))).length < 2 ^ 32 ∧
      (encodeItems encodeName (manifest.sections.history.map (·.text))).length < 2 ^ 32)
    ⟨fun ⟨generation, records, watermark, history, segments, names⟩ =>
      ⟨generation, records, watermark, history, segments, names⟩,
      fun fits => ⟨fits.generation, fits.records, fits.watermark, fits.history, fits.segmentsLength,
      fits.historyLength⟩⟩

/-- Those of a delete log fit theirs, and its row ids can be decoded into a vector. -/
structure DeleteLog.Fits (log : DeleteLog) : Prop where
  ids : ∀ id ∈ log.ids, id < 2 ^ 64
  count : log.ids.length * 8 < 2 ^ 63
  stampedAt : log.stampedAt < 2 ^ 64
  superseding : log.superseding < 2 ^ 64

instance (log : DeleteLog) : Decidable log.Fits :=
  decidable_of_iff ((∀ id ∈ log.ids, id < 2 ^ 64) ∧ log.ids.length * 8 < 2 ^ 63 ∧
      log.stampedAt < 2 ^ 64 ∧ log.superseding < 2 ^ 64)
    ⟨fun ⟨ids, count, stampedAt, superseding⟩ => ⟨ids, count, stampedAt, superseding⟩,
      fun fits => ⟨fits.ids, fits.count, fits.stampedAt, fits.superseding⟩⟩

def Object.Fits [F64Arith F] : Object F → Prop
  | .manifest written => written.Fits
  | .segment written => written.Fits
  | .log _ => True
  | .deleteLog written => written.Fits

instance [F64Arith F] : DecidablePred (Object.Fits (F := F))
  | .manifest written => inferInstanceAs (Decidable written.Fits)
  | .segment written => inferInstanceAs (Decidable written.Fits)
  | .log _ => .isTrue trivial
  | .deleteLog written => inferInstanceAs (Decidable written.Fits)

def Disk.Fits [F64Arith F] (disk : Disk F) : Prop := ∀ entry ∈ disk.objects.entries, entry.2.Fits

instance [F64Arith F] (disk : Disk F) : Decidable disk.Fits :=
  inferInstanceAs (Decidable (∀ entry ∈ disk.objects.entries, entry.2.Fits))

/-! ### Reading back -/

variable [F64Arith F] [LawfulBits F] {schema : Schema} {orderingKey : Nat} {disk : Disk F}
  {segment : Segment F}

omit [LawfulBits F] in
theorem Disk.Fits.object {name : ObjectName} {object : Object F} (fits : disk.Fits)
    (held : disk.get name = some object) : object.Fits :=
  fits ⟨name, object⟩ (AList.mem_lookup_iff.mp held)

theorem LogFile.readsBack (file : LogFile F) {columns : Nat} (some_ : 1 ≤ columns) :
    file.ReadsBack columns := by
  intro generation baseRowId records cut after same width fits
  rw [← same]
  exact decodeWal_frames some_ generation baseRowId width fits after

theorem DeleteLog.Fits.readsBack {log : DeleteLog} (fits : log.Fits)
    (ascending : log.ids.Pairwise (· < ·)) : log.ReadsBack := by
  have words : (log.ids.map UInt64.ofNat).map UInt64.toNat = log.ids := by
    rw [List.map_map]
    refine (List.map_congr_left fun id member => ?_).trans (List.map_id _)
    exact UInt64.toNat_ofNat_of_lt' (fits.ids id member)
  have ordered : (log.ids.map UInt64.ofNat).Pairwise (· < ·) := by
    refine List.pairwise_map.mpr (ascending.imp_of_mem fun {a b} left right less => ?_)
    rw [UInt64.lt_iff_toNat_lt, UInt64.toNat_ofNat_of_lt' (fits.ids a left),
      UInt64.toNat_ofNat_of_lt' (fits.ids b right)]
    exact less
  have counted : (log.ids.map UInt64.ofNat).length < 2 ^ 64 := by
    have count := fits.count
    rw [List.length_map]
    omega
  exact ⟨⟨_, ordered, counted⟩, .ofNat log.stampedAt, .ofNat log.superseding, words,
    UInt64.toNat_ofNat_of_lt' fits.stampedAt, UInt64.toNat_ofNat_of_lt' fits.superseding,
    decode_encodeTombstones _ _ _⟩

theorem Segment.Mapped.readsBack (mapped : segment.Mapped schema) (births : segment.SequenceOk)
    (narrow : schema.Narrow) (fits : segment.Fits) :
    decodeSegment (encodeSegment segment) = .ok segment := by
  obtain ⟨rfl, binds, maps, field, held, -, -⟩ := mapped
  have seq := fits.sequence
  refine decode_encodeSegment ⟨binds, (List.getElem?_eq_some_iff.mp held).1, maps,
    ⟨?_, ?_, fits.kills⟩, fits.interned, fits.rows, fits.base,
    fits.file⟩ ⟨narrow.count, narrow.fields, fits.bitmaps, fits.trailer⟩
  · intro base same
    rwa [same] at seq
  · intro values same
    rw [same] at seq
    exact ⟨births values same, seq⟩

omit [LawfulBits F] in
/-- A segment's record is within the bounds of the file, with a map of its type for each column. -/
theorem Segment.Mapped.record (mapped : segment.Mapped schema) (name : ObjectName)
    (short : (utf8 name.text).length < 2 ^ 16)
    (bounds : (SegmentRecord.of name segment).baseRowId < 2 ^ 64 ∧
      (SegmentRecord.of name segment).rows < 2 ^ 64 ∧
      (SegmentRecord.of name segment).sequence.Fits) : ((SegmentRecord.of name segment).text).Formed
      schema.fields where
  name := short
  base := bounds.1
  rows := bounds.2.1
  sequence := bounds.2.2
  maps := by
    change List.Forall₂ _ schema.fields segment.zoneMaps
    rw [mapped.zoneMaps]
    exact List.forall₂_map_right_iff.mpr (mapped.binds.imp fun field column binds map computed =>
      binds.typed ▸ computeZoneMap_fits column map computed)

theorem Layout.manifest_readsBack {generation nextLog : Nat} {sections : ManifestSections F}
    {segments past : List (Segment F)} {kills : Tombstones}
    (layout : Layout disk schema orderingKey generation sections segments past kills nextLog)
    (mapped : ∀ segment ∈ segments, segment.Mapped schema)
    (keyed : schema.checkOrderingKey orderingKey = .ok ()) (narrow : schema.Narrow)
    (fits : (⟨schema, orderingKey, generation, sections⟩ : Manifest F).Fits) :
    (Object.manifest ⟨schema, orderingKey, generation, sections⟩ : Object F).ReadsBack
      schema.fields.length := by
  have formed : (⟨schema, orderingKey, generation, sections⟩ : Manifest F).text.Formed := {
    keyed := Schema.checkOrderingKey_lt keyed
    generation := fits.generation
    columns := fun field member => (narrow.fields field member).name
    records := fun record member => by
      obtain ⟨own, listed, rfl⟩ := List.mem_map.mp member
      have bounds := fits.records own listed
      change own ∈ sections.segments at listed
      rw [layout.records] at listed
      obtain ⟨segment, inside, rfl⟩ := List.mem_map.mp listed
      exact (mapped segment inside).record _ bounds.1 bounds.2
    watermark := fits.watermark
    history := fun name member => by
      obtain ⟨own, listed, rfl⟩ := List.mem_map.mp member
      exact fits.history own listed }
  refine ((manifest_roundTrips_iff formed).mpr ?_).1
  exact ⟨narrow.count, fun field member => (narrow.fields field member).scale, fits.segmentsLength,
    fits.historyLength⟩

/-- Of a table whose schema fits, everything that an open looks at is decoded to what was written.
-/
theorem Image.On.readable {image : Image F} (on : image.On disk schema orderingKey)
    (keyed : schema.checkOrderingKey orderingKey = .ok ())
    (narrow : schema.Narrow) (fits : disk.Fits) : disk.Readable schema.fields.length := by
  have layout := on.layout
  have stored {name : ObjectName} {written : Segment F} (mapped : written.Mapped schema)
    (births : written.SequenceOk)
      (held : disk.get name = some (.segment written)) :
        (Object.segment written).ReadsBack schema.fields.length :=
    mapped.readsBack births narrow (fits.object held)
  intro name object reads held
  cases name with
  | manifest =>
    rw [layout.manifest] at held
    obtain rfl := Option.some.inj held
    have bounds : Manifest.Fits _ := fits.object layout.manifest
    exact layout.manifest_readsBack
      (fun segment member => (on.segments segment (by simp [Image.visible, member])).mapped)
      keyed narrow bounds
  | wal =>
    have some_ : 1 ≤ schema.fields.length :=
      Nat.lt_of_le_of_lt (Nat.zero_le _) (Schema.checkOrderingKey_lt keyed)
    rcases on.log with ⟨none, -⟩ | ⟨file, log, -⟩
    · rw [none] at held
      cases held
    · rw [log] at held
      obtain rfl := Option.some.inj held
      exact file.readsBack some_
  | deleteLog generation number =>
    obtain ⟨manifest, named, rfl⟩ := reads
    rw [layout.manifest] at named
    obtain rfl := Object.manifest.inj (Option.some.inj named)
    have found := held
    obtain ⟨-, log, rfl, ascending, -⟩ := layout.deleteLogs number object held
    have bounds : log.Fits := fits.object found
    exact bounds.readsBack ascending
  | segment generation base =>
    obtain ⟨manifest, named, listed⟩ := reads
    rw [layout.manifest] at named
    obtain rfl := Object.manifest.inj (Option.some.inj named)
    simp only [layout.records, List.map_eq_nil_iff, List.map_map] at listed
    split at listed
    · next bare =>
      subst listed
      obtain ⟨rfl, segment, orphan, rfl⟩ := (on.orphans bare base object).mp held
      have ok := on.segments segment (by simp [Image.visible, orphan])
      exact stored ok.mapped ok.sequenceOk held
    · obtain ⟨segment, member, same⟩ := List.mem_map.mp listed
      cases same
      rw [layout.files segment member] at held
      obtain rfl := Option.some.inj held
      have ok := on.segments segment (by simp [Image.visible, member])
      exact stored ok.mapped ok.sequenceOk (layout.files segment member)
  | history index =>
    obtain ⟨manifest, named, listed⟩ := reads
    rw [layout.manifest] at named
    obtain rfl := Object.manifest.inj (Option.some.inj named)
    simp only [layout.history] at listed
    obtain ⟨place, inside, same⟩ := List.mem_map.mp listed
    cases same
    have bound : index < image.past.length := List.mem_range.mp inside
    have here := List.getElem?_eq_getElem bound
    rw [layout.historyFiles index _ here] at held
    obtain rfl := Option.some.inj held
    have ok := on.past _ (List.getElem_mem bound)
    exact stored ok.mapped ok.sequenceOk (layout.historyFiles index _ here)

/-! ### Recovery from the files -/

/-- Where no call fails, no full buffer blocks and the files hold what is written, a crash at any
point leaves files that are decoded to what was written, and an open of it shows what was
acknowledged. -/
theorem Run.recovering {events : List (Event F)} (narrow : schema.Narrow)
    (run : Run Unblocking schema orderingKey (·.walSync = .full) NoFailure events (.down disk))
    (fits : disk.Fits) :
    Recovering schema orderingKey events disk ∧
      ((∃ chosen fresh, (Store.unopened schema orderingKey chosen : Except StorageError (Store F)) =
        .ok fresh) →
        disk.Readable schema.fields.length) := by
  refine ⟨run.fallen.recovers, fun ⟨chosen, fresh, made⟩ => ?_⟩
  obtain ⟨unfilled, rfl, rfl, -⟩ := Store.unopened_unfilled made
  rcases run.fallen with ⟨blank, -⟩ | ⟨-, image, on, -⟩
  · intro name object _ held
    rw [blank name] at held
    cases held
  · exact on.readable unfilled.keyed narrow fits

def clocked : Schema := ⟨[.new "at" .i64 false]⟩

def corrected : Option (List (Event UInt64) × Store UInt64 × Disk UInt64) := do
  let (store, disk) ← openTable clocked 0 eager .empty
  rehearse (fun store _ op => decide (op.Filled ∧ store.Unblocked op))
    (fun _ _ _ outcome => outcome = .ok)
    [(.append [.i64 1], []), (.supersede [[.i64 2]] [0], [])] store disk

theorem Run.recovering_corrected : ∃ (events : List (Event UInt64)) (disk : Disk UInt64),
    acknowledged 0 events = [[([.i64 1], true), ([.i64 2], false)]] ∧
    Recovering clocked 0 events disk ∧ disk.Readable 1 := by
  obtain ⟨⟨store, disk⟩, opened⟩ : ∃ table,
      openTable clocked 0 eager (.empty : Disk UInt64) = some table :=
    Option.isSome_iff_exists.mp (by decide +kernel)
  obtain ⟨⟨more, after, disk'⟩, played⟩ : ∃ result, corrected = some result :=
    Option.isSome_iff_exists.mp (by decide +kernel)
  have shown : corrected.map (fun played => acknowledged 0 (.opened :: played.1 ++ [.lost])) =
    some [[([.i64 1], true), ([.i64 2], false)]] := by decide +kernel
  have small : corrected.map (fun played => decide (played.2.2.crash 0 false).Fits) =
    some true := by decide +kernel
  rw [played] at shown small
  rw [corrected, opened] at played
  have run : Run Unblocking clocked 0 (·.walSync = .full) NoFailure [.opened] (.up store disk) :=
    .boot (.blank fun _ => rfl) (Boot.completes rfl (fun _ _ => .inl rfl) opened)
  have life : Life Unblocking (.up store disk) more (.up after disk') :=
    Life.rehearsed (by simp [Unblocking]) (by simp [Unblocking, NoFailure]) .start played
  have narrow : clocked.Narrow := ⟨by decide, fun field member => by
    rw [List.mem_singleton.mp member]
    exact ⟨by decide +kernel, fun _ none => by cases none⟩⟩
  have recovers := Run.recovering narrow ((run.lives life).step (.lose 0 false))
    (of_decide_eq_true (Option.some.inj small))
  exact ⟨_, _, Option.some.inj shown, recovers.1, recovers.2 ⟨eager, _, rfl⟩⟩

end TallyDB
