import TallyDB.StorageLite.Decoded
import TallyDB.StorageLite.ManifestFormat
import TallyDB.Wire.Log

/-!
# Manifest files round-trip

The encoder of a manifest and what its decoder makes of the file: a manifest comes back
when every part fits its length field, and sections of unassigned tags change nothing.
-/

namespace TallyDB

open Wire Reader

variable {F : Type}

/-! ### Encoding -/

def encodeName (name : String) : Bytes := toLe 2 (utf8 name).length ++ utf8 name

def encodeSummary : SequenceSummary → Bytes
  | .rowIds => [0]
  | .contiguous base => 1 :: toLe 8 base
  | .explicit last => 2 :: toLe 8 last

def encodeRecord [F64Arith F] (record : RecordText F) : Bytes :=
  encodeName record.name ++
    (toLe 8 record.baseRowId ++ (toLe 8 record.rows ++ ([if record.ordered then 1 else 0] ++
    (encodeSummary record.sequence ++
    (toLe 4 record.zoneMaps.length ++ record.zoneMaps.flatMap encodeZoneMap)))))

def encodeItems {α : Type} (item : α → Bytes) (items : List α) : Bytes :=
  toLe 4 items.length ++ items.flatMap item

def sectionBytes [F64Arith F] (sections : SectionsText F) : List (Nat × Bytes) :=
  (if sections.segments.isEmpty then [] else [(1, encodeItems encodeRecord sections.segments)]) ++
    ((match sections.nextSequence with
      | none => []
      | some nextSequence => [(2, toLe 8 nextSequence)]) ++
    (if sections.history.isEmpty then [] else [(3, encodeItems encodeName sections.history)]))

def SectionsText.isEmpty (sections : SectionsText F) : Bool :=
  sections.segments.isEmpty && sections.nextSequence.isNone && sections.history.isEmpty

def manifestPayload (version : Nat) (manifest : ManifestText F)
    (entries : List (Nat × Bytes)) : Bytes :=
  toLe 8 manifest.generation ++ (toLe 4 manifest.orderingKey ++ (toLe 4 manifest.schema.fields.length ++
    (manifest.schema.fields.flatMap encodeField ++ if version = 2 then encodeSections entries else [])))

/-- A manifest's file with any list of sections, under its checksum. -/
def manifestFile (version : Nat) (manifest : ManifestText F) (entries : List (Nat × Bytes)) : Bytes :=
  manifestMagic ++ (toLe 2 version ++
    (toLe 2 0 ++ (toLe 4 (crc32c (manifestPayload version manifest entries)).toNat ++
    manifestPayload version manifest entries)))

def encodeManifest [F64Arith F] (manifest : ManifestText F) : Bytes :=
  manifestFile (if manifest.sections.isEmpty then 1 else 2) manifest (sectionBytes manifest.sections)

/-! ### Manifests of the engine -/

/-- A record in the bounds of its words, with one optional map of its type for each column. -/
structure RecordText.Formed (fields : List Field) (record : RecordText F) : Prop where
  name : (utf8 record.name).length < 2 ^ 16
  base : record.baseRowId < 2 ^ 64
  rows : record.rows < 2 ^ 64
  sequence : match record.sequence with
    | .rowIds => True
    | .contiguous base => base < 2 ^ 64
    | .explicit last => last < 2 ^ 64
  maps : List.Forall₂ (fun field zoneMap => ∀ map, zoneMap = some map →
    ZoneMap.Fits field.columnType map) fields record.zoneMaps

/-- A manifest in the bounds of its words, whose names have fewer than 65536 bytes. -/
structure ManifestText.Formed (manifest : ManifestText F) : Prop where
  keyed : manifest.orderingKey < manifest.schema.fields.length
  generation : manifest.generation < 2 ^ 64
  columns : ∀ field ∈ manifest.schema.fields, (utf8 field.name).length < 2 ^ 16
  records : ∀ record ∈ manifest.sections.segments, record.Formed manifest.schema.fields
  watermark : ∀ nextSequence, manifest.sections.nextSequence = some nextSequence → nextSequence < 2 ^ 64
  history : ∀ name ∈ manifest.sections.history, (utf8 name).length < 2 ^ 16

/-- Every part fits its length field, and every annotation is one that the registry knows. -/
structure ManifestText.Narrow [F64Arith F] (manifest : ManifestText F) : Prop where
  count : manifest.schema.fields.length < 2 ^ 32
  scales : ∀ field ∈ manifest.schema.fields, ∀ scale, field.logical = some (.decimal64 scale) →
    scale ≤ LogicalType.decimal64Precision
  segments : (encodeItems encodeRecord manifest.sections.segments).length < 2 ^ 32
  history : (encodeItems encodeName manifest.sections.history).length < 2 ^ 32

theorem SectionsText.isEmpty_iff {sections : SectionsText F} : sections.isEmpty = true ↔
    sections = ⟨[], none, []⟩ := by
  obtain ⟨segments, nextSequence, history⟩ := sections
  cases segments <;> cases nextSequence <;> cases history <;> simp [SectionsText.isEmpty]

/-! ### The header -/

def manifestHeaderBytes (version : Nat) (manifest : ManifestText F)
    (entries : List (Nat × Bytes)) : Bytes :=
  manifestMagic ++ (toLe 2 version ++
    (toLe 2 0 ++ (toLe 4 (crc32c (manifestPayload version manifest entries)).toNat ++
    (toLe 8 manifest.generation ++
    (toLe 4 manifest.orderingKey ++ toLe 4 manifest.schema.fields.length)))))

theorem manifestMagic_length : manifestMagic.length = 8 := by decide

theorem readManifestHeader_reads {version : Nat} {manifest : ManifestText F}
    (known : version = 1 ∨ version = 2) (formed : manifest.Formed)
    (count : manifest.schema.fields.length < 2 ^ 32) (entries : List (Nat × Bytes)) :
    Reads (readManifestHeader (manifestPayload version manifest entries))
      (manifestHeaderBytes version manifest entries)
      ⟨version, manifest.generation, manifest.orderingKey, manifest.schema.fields.length⟩ := by
  have keyed := formed.keyed
  refine (manifestMagic_length ▸ Reads.take _ manifestMagic).bind ?_
  refine (Reads.lift (show _ = Except.ok () from if_pos (by simp))).bind
    ((Reads.word _ (show _ < 256 ^ 2 by omega)).bind ?_)
  refine (Reads.lift (show _ = Except.ok () from if_pos (by simpa using known))).bind
    ((Reads.word _ (by decide)).bind ?_)
  refine (Reads.lift (show _ = Except.ok () from if_pos (by simp))).bind
    ((Reads.word _ (UInt32.toNat_lt _)).bind ?_)
  refine (Reads.lift (show _ = Except.ok () from if_pos (by simp))).bind
    ((Reads.word _ (show _ < 256 ^ 8 from formed.generation)).bind ?_)
  refine (Reads.word _ (show manifest.orderingKey < 256 ^ 4 by omega)).bind ?_
  refine .congr ((Reads.word _ (show _ < 256 ^ 4 from count)).bind ?_) (List.append_nil _) rfl
  exact (Reads.lift (show _ = Except.ok () from if_pos (by simpa using keyed))).finish _

theorem manifestFile_split (version : Nat) (manifest : ManifestText F) (entries : List (Nat × Bytes)) :
    manifestFile version manifest entries = manifestHeaderBytes version manifest entries ++
      (manifest.schema.fields.flatMap encodeField ++
      if version = 2 then encodeSections entries else []) := by
  simp only [manifestFile, manifestHeaderBytes, manifestPayload, List.append_assoc]

theorem manifestFile_drop (version : Nat) (manifest : ManifestText F) (entries : List (Nat × Bytes)) :
    (manifestFile version manifest entries).drop 16 = manifestPayload version manifest entries := by
  rw [manifestFile, ← List.append_assoc, ← List.append_assoc, ← List.append_assoc]
  exact List.drop_left' (by simp [manifestMagic_length])

/-! ### Names and records -/

theorem encodeItems_le {α : Type} {item : α → Bytes} (one : ∀ value, 1 ≤ (item value).length)
    (items : List α) :
    items.length ≤ (encodeItems item items).length := by
  have : items.length ≤ (items.flatMap item).length := by
    induction items with
    | nil => simp
    | cons first items ih =>
      have := one first
      simp only [List.length_cons, List.flatMap_cons, List.length_append]
      omega
  rw [encodeItems, List.length_append]
  omega

theorem encodeItems_nil {α : Type} (item : α → Bytes) : (encodeItems item []).length < 2 ^ 32 := by
  simp [encodeItems]

theorem encodeName_length (name : String) : (encodeName name).length = 2 + (utf8 name).length := by
  rw [encodeName, List.length_append, toLe_length]

theorem readName_reads {name : String} (short : (utf8 name).length < 2 ^ 16) (reason : String) :
    Reads (readName reason) (encodeName name) name := by
  refine (Reads.word _ (show _ < 256 ^ 2 from short)).bind ?_
  refine .congr ((Reads.take _ (utf8 name)).bind (.lift (show _ = Except.ok name by
      rw [fromUtf8_utf8]
      rfl))) (List.append_nil _) rfl

theorem readOrdered_reads (name : String) (ordered : Bool) : Reads (readOrdered name)
      [if ordered then 1 else 0] ordered := by
  refine .bind (.byte _ _) ?_
  cases ordered with
  | false =>
    exact .pure _
  | true =>
    exact .pure _

theorem readSummary_reads (name : String) {sequence : SequenceSummary} (fits : match sequence with
    | .rowIds => True
    | .contiguous base => base < 2 ^ 64
    | .explicit last =>
        last < 2 ^ 64) : Reads (readSummary name) (encodeSummary sequence) sequence := by
  cases sequence with
  | rowIds =>
    refine .bind (.byte _ 0) ?_
    rw [if_pos rfl]
    exact .pure _
  | contiguous base =>
    refine .bind (.byte _ 1) ?_
    rw [if_neg (by decide), if_pos rfl]
    exact (Reads.word _ (show base < 256 ^ 8 from fits)).map _
  | explicit last =>
    refine .bind (.byte _ 2) ?_
    rw [if_neg (by decide), if_neg (by decide), if_pos rfl]
    exact (Reads.word _ (show last < 256 ^ 8 from fits)).map _

variable [F64Arith F]

theorem readZoneMaps_reads [LawfulBits F] (name : String) {fields : List Field}
    {zoneMaps : List (Option (ZoneMap F))}
    (fits : List.Forall₂ (fun field zoneMap => ∀ map, zoneMap = some map →
      ZoneMap.Fits field.columnType map) fields zoneMaps) :
    Reads (each (fun field : Field => decodeZoneMap field.columnType name) fields)
      (zoneMaps.flatMap encodeZoneMap) zoneMaps := by
  induction fits with
  | nil => exact .pure []
  | cons first _ ih => exact (decodeZoneMap_reads name first).bind (ih.finish _)

theorem readRecord_reads [LawfulBits F] {fields : List Field} {record : RecordText F}
    (count : fields.length < 2 ^ 32) (formed : record.Formed fields) :
    Reads (readRecord fields) (encodeRecord record) record := by
  have lengths := formed.maps.length_eq
  refine (readName_reads formed.name _).bind ?_
  refine (Reads.word _ (show _ < 256 ^ 8 from formed.base)).bind
    ((Reads.word _ (show _ < 256 ^ 8 from formed.rows)).bind ?_)
  refine (readOrdered_reads _ _).bind ((readSummary_reads _ formed.sequence).bind ?_)
  refine (Reads.word _ (show _ < 256 ^ 4 by omega)).bind ?_
  refine (Reads.lift (show _ = Except.ok () from if_pos (by simp [lengths]))).bind ?_
  exact (readZoneMaps_reads _ formed.maps).finish _

/-! ### Sections -/

theorem countedReader_reads {α : Type} {item : FormatReader α} {encode : α → Bytes} {items : List α}
    (reads : ∀ value ∈ items, Reads item (encode value) value) (count : items.length < 2 ^ 32) :
    Reads (do
      let count ← word endOfFile 4
      times item count) (encodeItems encode items) items :=
  (Reads.word _ (show _ < 256 ^ 4 from count)).bind (.times reads)

theorem section_reads {fields : List Field} {found : SectionsText F} {tag : Nat} {payload : Bytes}
    (known : tag < 2 ^ 16)
    (short : payload.length < 2 ^ 32) {found' : SectionsText F}
    (taken : (if tag = 1 then do
        let records ← lift (countedItems (readRecord fields) "segments" payload)
        return { found with segments := found.segments ++ records }
      else if tag = 2 then do
        let _ ← lift (require (payload.length = 8) (.corrupt "knowledge section is 8 bytes"))
        return { found with nextSequence := some (ofLe payload) }
      else if tag = 3 then do
        let names ← lift (countedItems (readName "history segment name is not UTF-8") "history" payload)
        return { found with history := found.history ++ names }
      else return found : FormatReader (SectionsText F)) = pure found') :
    Reads (readManifestSection fields found) (encodeSection (tag, payload)) found' := by
  refine (Reads.word _ (show tag < 256 ^ 2 from known)).bind
    ((Reads.word _ (show _ < 256 ^ 4 from short)).bind ?_)
  refine .congr ((Reads.take _ payload).bind ?_) (List.append_nil _) rfl
  rw [taken]
  exact .pure _

/-- Tags that this reader knows. -/
def Assigned (entry : Nat × Bytes) : Prop := entry.1 = 1 ∨ entry.1 = 2 ∨ entry.1 = 3

instance : DecidablePred Assigned := fun _ => inferInstanceAs (Decidable (_ ∨ _))

theorem unassigned_reads {fields : List Field} (found : SectionsText F) {entry : Nat × Bytes}
    (unassigned : ¬ Assigned entry)
    (tag : entry.1 < 2 ^ 16) (short : entry.2.length < 2 ^ 32) : Reads
      (readManifestSection fields found) (encodeSection entry) found := by
  simp only [Assigned, not_or] at unassigned
  refine section_reads tag short ?_
  rw [if_neg unassigned.1, if_neg unassigned.2.1, if_neg unassigned.2.2]

/-- What one of the sections of a manifest adds to what was read before it. -/
def applySection (sections found : SectionsText F) (entry : Nat × Bytes) : SectionsText F :=
  if entry.1 = 1 then { found with segments := found.segments ++ sections.segments }
  else if entry.1 = 2 then { found with nextSequence := sections.nextSequence }
  else if entry.1 = 3 then { found with history := found.history ++ sections.history }
  else found

theorem mem_sectionBytes {sections : SectionsText F} {entry : Nat × Bytes}
    (member : entry ∈ sectionBytes sections) :
    entry = (1, encodeItems encodeRecord sections.segments) ∨
      (∃ nextSequence, sections.nextSequence = some nextSequence ∧ entry = (2, toLe 8 nextSequence)) ∨
      entry = (3, encodeItems encodeName sections.history) := by
  simp only [sectionBytes, List.mem_append] at member
  rcases member with member | member | member
  · split at member
    · cases member
    · exact .inl (List.mem_singleton.mp member)
  · split at member
    · cases member
    · next nextSequence some_ => exact .inr (.inl ⟨nextSequence, some_, List.mem_singleton.mp member⟩)
  · split at member
    · cases member
    · exact .inr (.inr (List.mem_singleton.mp member))

theorem encodeRecord_pos (record : RecordText F) : 1 ≤ (encodeRecord record).length := by
  rw [encodeRecord, List.length_append, encodeName_length]
  omega

theorem encodeName_pos (name : String) : 1 ≤ (encodeName name).length := by
  rw [encodeName_length]
  omega

theorem ownSection_reads [LawfulBits F] {manifest : ManifestText F} (formed : manifest.Formed)
    (count : manifest.schema.fields.length < 2 ^ 32) (found : SectionsText F) {entry : Nat × Bytes}
    (member : entry ∈ sectionBytes manifest.sections) (short : entry.2.length < 2 ^ 32) :
    Reads (readManifestSection manifest.schema.fields found) (encodeSection entry)
      (applySection manifest.sections found entry) := by
  rcases mem_sectionBytes member with rfl | ⟨nextSequence, some_, rfl⟩ | rfl
  · have counted : countedItems (readRecord manifest.schema.fields) "segments"
      (encodeItems encodeRecord manifest.sections.segments) =
        .ok manifest.sections.segments :=
      (countedReader_reads (fun record member => readRecord_reads count (formed.records record member))
        (Nat.lt_of_le_of_lt (encodeItems_le encodeRecord_pos _) short)).exactly _
    refine section_reads (by decide) short ?_
    rw [if_pos rfl, counted]
    rfl
  · have fits := formed.watermark nextSequence some_
    refine section_reads (by decide) short ?_
    rw [if_neg (by decide), if_pos rfl, ofLe_toLe_of_lt fits, toLe_length, ← some_]
    rfl
  · have counted : countedItems (readName "history segment name is not UTF-8") "history"
      (encodeItems encodeName manifest.sections.history) =
        .ok manifest.sections.history :=
      (countedReader_reads (fun name member => readName_reads (formed.history name member) _)
        (Nat.lt_of_le_of_lt (encodeItems_le encodeName_pos _) short)).exactly _
    refine section_reads (by decide) short ?_
    rw [if_neg (by decide), if_neg (by decide), if_pos rfl, counted]
    rfl

theorem section_short {sections : SectionsText F}
    (segments : (encodeItems encodeRecord sections.segments).length < 2 ^ 32)
    (history : (encodeItems encodeName sections.history).length < 2 ^ 32) {entry : Nat × Bytes}
    (member : entry ∈ sectionBytes sections) :
    entry.2.length < 2 ^ 32 := by
  rcases mem_sectionBytes member with rfl | ⟨nextSequence, -, rfl⟩ | rfl
  · exact segments
  · rw [toLe_length]
    decide
  · exact history

theorem foldl_sectionBytes (sections : SectionsText F) : (sectionBytes sections).foldl
      (applySection sections) ⟨[], none, []⟩ = sections := by
  obtain ⟨segments, nextSequence, history⟩ := sections
  cases segments with
  | nil => cases nextSequence <;> cases history <;> rfl
  | cons record records => cases nextSequence <;> cases history <;> rfl

/-- Sections that keep a manifest's own among them, in their order. -/
structure Extends (manifest : ManifestText F) (entries : List (Nat × Bytes)) : Prop where
  own : entries.filter (fun entry => decide (Assigned entry)) = sectionBytes manifest.sections
  count : entries.length < 2 ^ 16
  others : ∀ entry ∈ entries, ¬ Assigned entry → entry.1 < 2 ^ 16 ∧ entry.2.length < 2 ^ 32

theorem readSections_reads [LawfulBits F] {manifest : ManifestText F} (formed : manifest.Formed)
    (narrow : manifest.Narrow) {entries : List (Nat × Bytes)}
    (extends_ : Extends manifest entries) :
    Reads (readManifestSections 2 manifest.schema.fields)
      (encodeSections entries) manifest.sections := by
  have one (found : SectionsText F) (_ : True) (entry : Nat × Bytes) (member : entry ∈ entries) :
      Reads (readManifestSection manifest.schema.fields found) (encodeSection entry)
        (if decide (Assigned entry) then applySection manifest.sections found entry else found) := by
    by_cases assigned : Assigned entry
    · have own : entry ∈ entries.filter fun entry => decide (Assigned entry) :=
        List.mem_filter.mpr ⟨member, decide_eq_true assigned⟩
      rw [extends_.own] at own
      rw [if_pos (decide_eq_true assigned)]
      exact ownSection_reads formed narrow.count found own
        (section_short narrow.segments narrow.history own)
    · obtain ⟨tag, short⟩ := extends_.others entry member assigned
      rw [if_neg (by simpa using assigned)]
      exact unassigned_reads found assigned tag short
  have all : Reads (change (readManifestSection manifest.schema.fields) entries.length ⟨[], none,
    []⟩) (entries.flatMap encodeSection)
      (entries.foldl (fun found entry =>
        if decide (Assigned entry) then applySection manifest.sections found entry else found)
        ⟨[], none, []⟩) :=
    .change one (fun _ _ _ => trivial) trivial
  rw [← List.foldl_filter, extends_.own, foldl_sectionBytes] at all
  exact (Reads.word _ (show _ < 256 ^ 2 from extends_.count)).bind all

/-! ### The whole file -/

theorem fields_reads {fields : List Field} (narrow : ∀ field ∈ fields, field.Narrow) :
    Reads (times decodeField fields.length) (fields.flatMap encodeField) fields :=
  .times fun field member => decodeField_reads (narrow field member)

theorem ManifestText.Narrow.fields {manifest : ManifestText F} (formed : manifest.Formed)
    (narrow : manifest.Narrow) :
    ∀ field ∈ manifest.schema.fields, field.Narrow :=
  fun field member => ⟨formed.columns field member, narrow.scales field member⟩

/-- A manifest's file is read back, whatever sections of unassigned tags stand among its own. -/
theorem decode_manifestFile [LawfulBits F] {manifest : ManifestText F} (formed : manifest.Formed)
    (narrow : manifest.Narrow) {entries : List (Nat × Bytes)}
    (extends_ : Extends manifest entries) : decodeManifest
      (manifestFile 2 manifest entries) = .ok manifest := by
  have reads : Reads (manifestParts (F := F) (manifestPayload 2 manifest entries))
      (manifestFile 2 manifest entries) (2, manifest) := by
    rw [manifestFile_split, if_pos rfl]
    refine (readManifestHeader_reads (.inr rfl) formed narrow.count entries).bind
      ((fields_reads (narrow.fields formed)).bind ?_)
    exact (readSections_reads formed narrow extends_).finish _
  have taken := reads.takes []
  rw [List.append_nil] at taken
  rw [decodeManifest, manifestFile_drop, taken]
  rfl

theorem decode_manifestFile_one [LawfulBits F] {manifest : ManifestText F}
    (formed : manifest.Formed) (narrow : manifest.Narrow)
    (empty : manifest.sections = ⟨[], none, []⟩) : decodeManifest
      (manifestFile 1 manifest []) = .ok manifest := by
  have reads : Reads (manifestParts (F := F) (manifestPayload 1 manifest []))
      (manifestFile 1 manifest []) (1, manifest) := by
    rw [manifestFile_split, if_neg (by decide)]
    refine (readManifestHeader_reads (.inl rfl) formed narrow.count []).bind
      ((fields_reads (narrow.fields formed)).bind ?_)
    refine .congr ((Reads.pure _).bind (.pure _)) rfl ?_
    rw [← empty]
  have taken := reads.takes []
  rw [List.append_nil] at taken
  rw [decodeManifest, manifestFile_drop, taken]
  rfl

theorem sectionBytes_assigned (sections : SectionsText F) :
    ((sectionBytes sections).filter fun entry => decide (Assigned entry)) = sectionBytes sections := by
  refine List.filter_eq_self.mpr fun entry member => decide_eq_true ?_
  rcases mem_sectionBytes member with rfl | ⟨nextSequence, -, rfl⟩ | rfl
  · exact .inl rfl
  · exact .inr (.inl rfl)
  · exact .inr (.inr rfl)

theorem sectionBytes_length (sections : SectionsText F) : (sectionBytes sections).length ≤ 3 := by
  obtain ⟨segments, nextSequence, history⟩ := sections
  cases segments with
  | nil => cases nextSequence <;> cases history <;> simp [sectionBytes]
  | cons record records => cases nextSequence <;> cases history <;> simp [sectionBytes]

theorem extends_own (manifest : ManifestText F) : Extends manifest
      (sectionBytes manifest.sections) where
  own := sectionBytes_assigned manifest.sections
  count := Nat.lt_of_le_of_lt (sectionBytes_length _) (by decide)
  others entry member unassigned := by
    have own := List.filter_eq_self.mp (sectionBytes_assigned manifest.sections) entry member
    exact absurd (of_decide_eq_true own) unassigned

theorem decode_encodeManifest [LawfulBits F] {manifest : ManifestText F} (formed : manifest.Formed)
    (narrow : manifest.Narrow) :
    decodeManifest (encodeManifest manifest) = .ok manifest := by
  unfold encodeManifest
  by_cases empty : manifest.sections.isEmpty
  · have same := SectionsText.isEmpty_iff.mp empty
    rw [if_pos empty, show sectionBytes manifest.sections = [] by rw [same]; rfl]
    exact decode_manifestFile_one formed narrow same
  · rw [if_neg empty]
    exact decode_manifestFile formed narrow (extends_own manifest)

/-! ### What any file can give -/

theorem readName_sound (reason : String) : Sound (readName reason) fun name used =>
      used.length = (encodeName name).length := by
  refine (Sound.word endOfFile 2).bind ?_
  rintro length _ ⟨-, rfl⟩
  refine (Sound.take endOfFile length).bind ?_
  rintro bytes _ ⟨rfl, rfl⟩
  refine .lift (fun message failed => ?_) fun name decoded => ?_
  · cases text : fromUtf8 bytes <;> rw [text] at failed <;> cases failed
  · simp [encodeName, utf8_of_fromUtf8 (ofOption_ok decoded)]

theorem countedItems_ok {α : Type} {item : FormatReader α} {what : String} {payload : Bytes}
    {items : List α}
    (counted : countedItems item what payload = .ok items) :
    ∃ rest, payload = toLe 4 items.length ++ rest ∧ times item items.length rest = .ok (items, []) := by
  unfold countedItems Reader.exactly at counted
  split at counted
  · next items' taken =>
    obtain rfl := Except.ok.inj counted
    obtain ⟨count, rest, first, second⟩ := bind_ok_inv taken
    obtain ⟨used, rfl, -, rfl⟩ := (Sound.word endOfFile 4).ok first
    obtain ⟨length, -⟩ := (Gives.any item).times count rest _ [] second
    exact ⟨rest, by rw [length], by rw [length]; exact second⟩
  · cases counted
  · cases counted

theorem countedNames_length {reason : String} {payload : Bytes} {names : List String}
    (counted : countedItems (readName reason) "history" payload = .ok names) :
    (encodeItems encodeName names).length = payload.length := by
  obtain ⟨rest, rfl, taken⟩ := countedItems_ok counted
  obtain ⟨used, rfl, length⟩ := ((readName_sound reason).times_size names.length).ok taken
  simp [encodeItems, List.length_flatMap, length]

theorem decodeZoneMap_costs (columnType : ColumnType) (name : String) : Costs
      (decodeZoneMap (F := F) columnType name) 0 := by
  have bits : Costs readBits64 0 := ((Costs.word endOfFile 8).map _).any
  refine (Costs.byte endOfFile).any.first fun presence => (Costs.lift _).first fun _ => ?_
  split
  · exact .pure none
  · refine bits.first fun min => bits.first fun max => ?_
    cases columnType with
    | f64 => exact .pure _
    | i64 =>
      dsimp only
      split
      · exact .lift _
      · exact .pure _
    | key => exact .lift _

theorem readOrdered_costs (name : String) : Costs (readOrdered name) 0 := by
  refine (Costs.byte endOfFile).any.first fun byte => ?_
  split
  · exact .pure _
  · split
    · exact .pure _
    · exact .lift _

theorem readSummary_costs (name : String) : Costs (readSummary name) 0 := by
  have number (f : Nat → SequenceSummary) : Costs (f <$> word endOfFile 8) 0 :=
    ((Costs.word endOfFile 8).map f).any
  refine (Costs.byte endOfFile).any.first fun kind => ?_
  split
  · exact .pure _
  · split
    · exact number _
    · split
      · exact number _
      · exact .lift _

/-- A record takes the length of its name and its base, to say the least. -/
theorem readRecord_costs (fields : List Field) : Costs (readRecord (F := F) fields) 10 := by
  have name (reason : String) : Costs (readName reason) 2 :=
    (Costs.word endOfFile 2).first fun length => (Costs.take endOfFile length).any.first
      fun bytes => .lift _
  have word (width : Nat) : Costs (word endOfFile width) 0 := (Costs.word endOfFile width).any
  refine (name _).bind fun name => (Costs.word endOfFile 8).first fun base =>
    (word 8).first fun rows => ?_
  refine (readOrdered_costs name).first fun ordered => (readSummary_costs name).first fun sequence => ?_
  refine (word 4).first fun mapCount => (Costs.lift _).first fun _ => ?_
  exact (Costs.each (fun field : Field => decodeZoneMap_costs field.columnType name)
    fields).any.first fun maps => .pure _

theorem readManifestSection_gives (fields : List Field) (found : SectionsText F) : Gives
      (readManifestSection fields found) fun found' =>
    ∃ payload : Bytes, payload.length < 2 ^ 32 ∧
      ((found'.segments = found.segments ∧ found'.history = found.history) ∨
        (∃ records, countedItems (readRecord fields) "segments" payload = .ok records ∧
          found' = { found with segments := found.segments ++ records }) ∨
        ∃ names, countedItems (readName "history segment name is not UTF-8") "history"
        payload = .ok names ∧
          found' = { found with history := found.history ++ names }) := by
  refine (Gives.any _).bind fun tag _ => (Gives.word endOfFile 4).bind fun length small => ?_
  refine (Gives.take endOfFile length).bind fun payload long => ?_
  have short : payload.length < 2 ^ 32 := long ▸ small
  split
  · have read : Gives (lift (countedItems (readRecord (F := F) fields) "segments" payload))
        fun records =>
        countedItems (readRecord fields) "segments" payload = .ok records := .lift fun _ given => given
    exact read.bind fun records counted => .pure ⟨payload, short, .inr (.inl ⟨records, counted, rfl⟩)⟩
  · split
    · exact (Gives.any _).bind fun _ _ => .pure ⟨payload, short, .inl ⟨rfl, rfl⟩⟩
    · split
      · have read : Gives
            (lift (countedItems (readName "history segment name is not UTF-8") "history" payload))
            fun names =>
            countedItems (readName "history segment name is not UTF-8") "history" payload =
              .ok names := .lift fun _ given => given
        exact read.bind fun names counted => .pure ⟨payload, short, .inr (.inr ⟨names, counted, rfl⟩)⟩
      · exact .pure ⟨payload, short, .inl ⟨rfl, rfl⟩⟩

theorem readManifestSection_records (fields : List Field) (found : SectionsText F) : Gives
      (readManifestSection fields found) fun found' =>
    10 * found'.segments.length ≤ 10 * found.segments.length + 2 ^ 32 := by
  refine (readManifestSection_gives fields found).mono ?_
  rintro found' ⟨payload, short, ⟨same, -⟩ | ⟨records, counted, rfl⟩ | ⟨names, -, rfl⟩⟩
  · rw [same]
    omega
  · obtain ⟨rest, rfl, taken⟩ := countedItems_ok counted
    have costs := (readRecord_costs fields).times records.length rest records [] taken
    simp only [List.length_append, toLe_length, List.length_nil] at short costs ⊢
    omega
  · dsimp only
    omega

theorem sections_records (fields : List Field) (count : Nat) (found : SectionsText F) :
    Gives (change (readManifestSection fields) count found) fun found' =>
      10 * found'.segments.length ≤ 10 * found.segments.length + count * 2 ^ 32 := by
  induction count generalizing found with
  | zero => exact .pure (by omega)
  | succ count ih =>
    refine (readManifestSection_records fields found).bind fun middle first =>
      (ih middle).mono fun found' rest => ?_
    rw [Nat.succ_mul]
    omega

/-- A payload whose length is cut off is read in part, which its own count refuses. -/
theorem overlong_refused {fields : List Field} {found : SectionsText F} {payload rest : Bytes}
    {records : List (RecordText F)}
    (reads : Reads (do
      let count ← word endOfFile 4
      times (readRecord fields) count) payload records) (long : 2 ^ 32 ≤ payload.length) :
    ∃ fault, readManifestSection fields found (encodeSection (1, payload) ++ rest) = .error fault := by
  let short := payload.length % 256 ^ 4
  have less : short < 256 ^ 4 := Nat.mod_lt _ (by decide)
  have part : short ≤ (payload ++ rest).length ∧ (payload ++ rest).take short = payload.take short := by
    have : short < payload.length := Nat.lt_of_lt_of_le less long
    rw [List.length_append, List.take_append_of_le_length (by omega)]
    exact ⟨by omega, rfl⟩
  have taken : take endOfFile short (payload ++ rest) =
      .ok (payload.take short, (payload ++ rest).drop short) := by
    rw [take, if_pos part.1, part.2]
  have more : payload.drop short ≠ [] := by
    rw [ne_eq, List.drop_eq_nil_iff]
    exact Nat.not_le_of_lt (Nat.lt_of_lt_of_le less long)
  have whole : payload.take short ++ payload.drop short = payload := List.take_append_drop short payload
  obtain ⟨error, refused⟩ :=
    Reads.exactly_short (fun _ => .corrupt "trailing bytes in the segments section")
    (whole.symm ▸ reads) more
  have failed (rest : Bytes) :
      lift (countedItems (readRecord fields) "segments" (payload.take short)) rest =
      .error (.refused error) :=
    congrArg (Except.map _) refused
  refine ⟨.refused error, ?_⟩
  rw [encodeSection, ← toLe_mod 4 payload.length, List.append_assoc, List.append_assoc]
  unfold readManifestSection
  rw [bind_ok ((Reads.word endOfFile (show 1 < 256 ^ 2 by decide)).takes _),
    bind_ok ((Reads.word endOfFile less).takes _), bind_ok taken,
    if_pos rfl, bind_error (failed _)]

theorem decodeManifest_ok {bytes : Bytes} {manifest : ManifestText F}
    (decoded : decodeManifest bytes = .ok manifest) :
    ∃ version, manifestParts (bytes.drop 16) bytes = .ok ((version, manifest), []) := by
  unfold decodeManifest at decoded
  split at decoded
  · cases decoded
  · next parts rest taken =>
    split at decoded
    · next empty =>
      obtain rfl := Except.ok.inj decoded
      obtain rfl := List.eq_nil_of_length_eq_zero empty
      exact ⟨parts.1, taken⟩
    · cases decoded

theorem manifestParts_gives (payload : Bytes) : Gives (manifestParts (F := F) payload) fun parts =>
    parts.2.schema.fields.length < 2 ^ 32 ∧ ∀ field ∈ parts.2.schema.fields, field.Narrow := by
  have header : Gives (readManifestHeader payload) fun header => header.columnCount < 2 ^ 32 := by
    refine (Gives.any _).bind fun magic _ => (Gives.any _).bind fun _ _ =>
      (Gives.any _).bind fun version _ => ?_
    refine (Gives.any _).bind fun _ _ => (Gives.any _).bind fun reserved _ =>
      (Gives.any _).bind fun _ _ => ?_
    refine (Gives.any _).bind fun stored _ => (Gives.any _).bind fun _ _ =>
      (Gives.any _).bind fun generation _ => ?_
    refine (Gives.any _).bind fun orderingKey _ =>
      (Gives.word endOfFile 4).bind fun columnCount small => ?_
    exact (Gives.any _).bind fun _ _ => .pure small
  refine header.bind fun header small => (decodeField_gives.times header.columnCount).bind
    fun fields narrow => ?_
  exact (Gives.any _).bind fun sections _ => .pure ⟨narrow.1.symm ▸ small, narrow.2⟩

theorem readSections_of_decoded {manifest : ManifestText F} (formed : manifest.Formed)
    {entries : List (Nat × Bytes)}
    (count : manifest.schema.fields.length < 2 ^ 32)
    (fields : ∀ field ∈ manifest.schema.fields, field.Narrow) (few : entries.length < 2 ^ 16)
    (decoded : decodeManifest (manifestFile 2 manifest entries) = .ok manifest) :
    change (readManifestSection manifest.schema.fields) entries.length ⟨[], none, []⟩
      (entries.flatMap encodeSection) =
      .ok (manifest.sections, []) := by
  obtain ⟨version, taken⟩ := decodeManifest_ok decoded
  rw [manifestFile_drop, manifestFile_split, if_pos rfl, manifestParts,
    bind_ok ((readManifestHeader_reads (.inr rfl) formed count entries).takes _),
    bind_ok ((fields_reads fields).takes _)] at taken
  obtain ⟨sections, rest, read, last⟩ := bind_ok_inv taken
  obtain ⟨same, rfl⟩ := Prod.mk.inj (Except.ok.inj last)
  obtain rfl : sections = manifest.sections :=
    congrArg (fun parts : Nat × ManifestText F => parts.2.sections) same
  rwa [readManifestSections, if_pos rfl, encodeSections,
    bind_ok ((Reads.word endOfFile (show _ < 256 ^ 2 from few)).takes _)] at read

theorem segments_narrow [LawfulBits F] {manifest : ManifestText F} (formed : manifest.Formed)
    (count : manifest.schema.fields.length < 2 ^ 32)
    (taken : change (readManifestSection manifest.schema.fields)
      (sectionBytes manifest.sections).length ⟨[], none, []⟩
      ((sectionBytes manifest.sections).flatMap encodeSection) = .ok (manifest.sections, [])) :
    (encodeItems encodeRecord manifest.sections.segments).length < 2 ^ 32 := by
  by_contra long
  have few := sectionBytes_length manifest.sections
  by_cases counted : manifest.sections.segments.length < 2 ^ 32
  · have some_ : manifest.sections.segments.isEmpty = false := by
      cases empty : manifest.sections.segments with
      | nil => exact absurd (by rw [empty]; exact encodeItems_nil _) long
      | cons record records => rfl
    obtain ⟨rest, split_⟩ : ∃ rest,
        sectionBytes manifest.sections = (1, encodeItems encodeRecord manifest.sections.segments) ::
        rest := by
      rw [sectionBytes, some_]
      exact ⟨_, rfl⟩
    have reads := countedReader_reads
      (fun record member => readRecord_reads count (formed.records record member)) counted
    rw [split_, List.length_cons, change, List.flatMap_cons] at taken
    obtain ⟨fault, refused⟩ :=
      @overlong_refused F _ _ ⟨[], none, []⟩ _ (rest.flatMap encodeSection) _ reads
      (Nat.le_of_not_lt long)
    rw [bind_error refused] at taken
    cases taken
  · have bound := sections_records manifest.schema.fields _ _ _ _ _ taken
    simp only [List.length_nil] at bound
    omega

theorem history_narrow [LawfulBits F] {manifest : ManifestText F} (formed : manifest.Formed)
    (count : manifest.schema.fields.length < 2 ^ 32)
    (segments : (encodeItems encodeRecord manifest.sections.segments).length < 2 ^ 32)
    (taken : change (readManifestSection manifest.schema.fields)
      (sectionBytes manifest.sections).length ⟨[], none, []⟩
      ((sectionBytes manifest.sections).flatMap encodeSection) = .ok (manifest.sections, [])) :
    (encodeItems encodeName manifest.sections.history).length < 2 ^ 32 := by
  by_cases empty : manifest.sections.history = []
  · rw [empty]
    exact encodeItems_nil _
  -- The sections before the history are those of the manifest without one.
  let before : ManifestText F := { manifest with sections := { manifest.sections with history := [] } }
  have split_ : sectionBytes manifest.sections = sectionBytes before.sections ++
      [(3, encodeItems encodeName manifest.sections.history)] := by
    simp only [before, sectionBytes, List.isEmpty_nil, List.isEmpty_eq_false_iff.mpr empty, if_true,
      List.append_nil, List.append_assoc]
    rfl
  have formed' : before.Formed :=
    ⟨formed.keyed, formed.generation, formed.columns, formed.records, formed.watermark, by
      simp [before]⟩
  have first : Reads
    (change (readManifestSection manifest.schema.fields) (sectionBytes before.sections).length
    ⟨[], none, []⟩)
      ((sectionBytes before.sections).flatMap encodeSection) before.sections := by
    have all : Reads (change (readManifestSection manifest.schema.fields)
      (sectionBytes before.sections).length ⟨[], none, []⟩)
        ((sectionBytes before.sections).flatMap encodeSection)
          ((sectionBytes before.sections).foldl (applySection before.sections) ⟨[], none, []⟩) :=
      .change (fun found (_ : True) entry member => ownSection_reads formed' count found member
        (@section_short _ _ before.sections segments (encodeItems_nil _) _ member))
        (fun _ _ _ => trivial) trivial
    rwa [foldl_sectionBytes] at all
  rw [split_, List.length_append, change_add, List.flatMap_append, bind_ok (first.takes _)] at taken
  obtain ⟨found, rest, last, rest_⟩ := bind_ok_inv taken
  obtain ⟨rfl, rfl⟩ := Prod.mk.inj (Except.ok.inj rest_)
  obtain ⟨payload, short, ⟨-, same⟩ | ⟨records, -, same⟩ | ⟨names, counted, same⟩⟩ :=
    readManifestSection_gives _ _ _ _ _ last
  · exact absurd same empty
  · exact absurd (congrArg SectionsText.history same) empty
  · have history : manifest.sections.history = names := congrArg SectionsText.history same
    rw [history, countedNames_length counted]
    exact short

/-- A manifest that its own file gives back is narrow. -/
theorem narrow_of_decoded [LawfulBits F] {manifest : ManifestText F} (formed : manifest.Formed)
    (decoded : decodeManifest (encodeManifest manifest) = .ok manifest) : manifest.Narrow := by
  obtain ⟨version, taken⟩ := decodeManifest_ok decoded
  obtain ⟨count, fields⟩ := manifestParts_gives _ _ _ _ taken
  have scales field member := (fields field member).scale
  by_cases empty : manifest.sections.isEmpty
  · have same := SectionsText.isEmpty_iff.mp empty
    refine ⟨count, scales, ?_, ?_⟩
    · rw [same]
      exact encodeItems_nil _
    · rw [same]
      exact encodeItems_nil _
  · rw [encodeManifest, if_neg empty] at decoded
    have read := readSections_of_decoded formed count fields (extends_own manifest).count decoded
    have segments := segments_narrow formed count read
    exact ⟨count, scales, segments, history_narrow formed count segments read⟩

/-- A manifest comes back from its file, and from every file with more sections, exactly where its
parts fit their fields. -/
theorem manifest_roundTrips_iff [LawfulBits F] {manifest : ManifestText F} (formed : manifest.Formed) :
    (decodeManifest (encodeManifest manifest) = .ok manifest ∧
      ∀ entries, Extends manifest entries → decodeManifest (manifestFile 2 manifest entries) =
      .ok manifest) ↔ manifest.Narrow := by
  constructor
  · exact fun kept => narrow_of_decoded formed kept.1
  · exact fun narrow =>
      ⟨decode_encodeManifest formed narrow, fun _ extends_ =>
      decode_manifestFile formed narrow extends_⟩

def flushedManifest : ManifestText UInt64 where
  schema := ⟨[.new "t" .i64 false, .new "x" .f64 true]⟩
  orderingKey := 0
  generation := 4
  sections := ⟨[⟨"seg", 7, 2, true, .contiguous 5, [some (.i64 1 2), none]⟩], some 9, ["old"]⟩

theorem flushedManifest_formed : flushedManifest.Formed where
  keyed := by decide
  generation := by decide
  columns := by decide
  records record member := by
    obtain rfl := List.mem_singleton.mp member
    refine ⟨by decide, by decide, by decide, (by decide : 5 < 2 ^ 64), .cons ?_ (.cons ?_ .nil)⟩
    · rintro map ⟨⟩
      trivial
    · rintro map ⟨⟩
  watermark nextSequence some_ := by
    obtain rfl := Option.some.inj some_
    decide
  history := by decide

theorem flushedManifest_kept : decodeManifest (encodeManifest flushedManifest) = .ok flushedManifest ∧
    ∀ entries, Extends flushedManifest entries → decodeManifest
      (manifestFile 2 flushedManifest entries) = .ok flushedManifest :=
  (manifest_roundTrips_iff flushedManifest_formed).mpr ⟨by decide, by
      simp [flushedManifest, Field.new], by decide +kernel, by decide +kernel⟩

def scaledManifest : ManifestText UInt64 where
  schema := ⟨[⟨"t", .i64, false, some (.decimal64 19), by simp [LogicalType.validFor]⟩]⟩
  orderingKey := 0
  generation := 0
  sections := ⟨[], none, []⟩

theorem scaledManifest_formed : scaledManifest.Formed where
  keyed := by decide
  generation := by decide
  columns := by decide
  records := by simp [scaledManifest]
  watermark := by simp [scaledManifest]
  history := by simp [scaledManifest]

theorem scaledManifest_lost : scaledManifest.Formed ∧
    ¬(decodeManifest (encodeManifest scaledManifest) = .ok scaledManifest ∧
    ∀ entries, Extends scaledManifest entries →
    decodeManifest (manifestFile 2 scaledManifest entries) = .ok scaledManifest) := by
  refine ⟨scaledManifest_formed, fun kept => ?_⟩
  have known := (narrow_of_decoded scaledManifest_formed kept.1).scales _ List.mem_cons_self 19 rfl
  exact absurd known (by decide)

end TallyDB
