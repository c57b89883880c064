import TallyDB.StorageLite.Recover

/-!
# Resetting the log and flushing

A flush leaves the rows where they were, first in the buffer and then in a segment, and at
every call the disk recovers the same ledger.
-/

namespace TallyDB

open Crash

variable {F : Type}

/-! ### Frames -/

theorem SegmentSlot.Yields.frame {slot : SegmentSlot F} {disk other : Disk F} {file : Option ObjectName}
    {segment : Segment F} (yields : slot.Yields disk file segment)
    (same : ∀ own, file = some own → other.get own = disk.get own) :
    slot.Yields other file segment where
  info := yields.info
  name := yields.name
  data := yields.data.imp_right fun ⟨empty, own, named, held⟩ =>
    ⟨empty, own, named, (same own named).trans held⟩

theorem HistorySlot.Yields.frame {slot : HistorySlot F} {disk other : Disk F} {file : Option ObjectName}
    {segment : Segment F} (yields : slot.Yields disk file segment)
    (same : ∀ own, file = some own → other.get own = disk.get own) :
    slot.Yields other file segment where
  name := yields.name
  data := yields.data.imp_right fun ⟨empty, own, named, held⟩ =>
    ⟨empty, own, named, (same own named).trans held⟩

theorem forall₂_imp_mem {α β : Type} {r p : α → β → Prop} {xs : List α} {ys : List β}
    (related : List.Forall₂ r xs ys) (weaken : ∀ x y, y ∈ ys → r x y → p x y) :
    List.Forall₂ p xs ys := by
  induction related with
  | nil => exact .nil
  | cons head _ ih =>
    exact .cons (weaken _ _ List.mem_cons_self head)
      (ih fun x y member => weaken x y (List.mem_cons_of_mem _ member))

namespace Store

variable {store : Store F} {disk other : Disk F} {segments past : List (Segment F)}

/-- The names that a store's slots may read: its own segments below the buffer, its history. -/
def Reads (store : Store F) (segments past : List (Segment F)) : ObjectName → Prop
  | .segment own base => own = store.generation ∧ ∃ segment ∈ segments, segment.baseRowId = base
  | .history index => index < past.length
  | _ => False

/-- Soundness reads the disk through the slots only. -/
theorem Sound.frame [F64 F] (sound : store.Sound disk segments past)
    (same : ∀ name, store.Reads segments past name → other.get name = disk.get name) :
    store.Sound other segments past where
  writable := sound.writable
  keyed := sound.keyed
  threshold := sound.threshold
  bufferSchema := sound.bufferSchema
  bufferKey := sound.bufferKey
  axis := sound.axis
  slots := by
    refine forall₂_imp_mem sound.slots fun slot segment member yields =>
      yields.frame fun own named => ?_
    unfold fileName at named
    split at named
    · obtain rfl := Option.some.inj named
      exact same _ ⟨rfl, segment, member, rfl⟩
    · cases named
  segmentsOk := sound.segmentsOk
  covers := sound.covers
  below := sound.below
  killed := sound.killed
  history := by
    refine forall₂_imp_mem sound.history fun slot entry member yields =>
      yields.frame fun own named => ?_
    unfold historyName at named
    split at named
    · obtain rfl := Option.some.inj named
      have bound : entry.2 < past.length := by simpa using List.snd_lt_of_mem_zipIdx member
      exact same (.history entry.2) bound
    · cases named
  pastOk := sound.pastOk
  remembered := sound.remembered
  virtual := sound.virtual
  inOrder := sound.inOrder

theorem Sound.withWal [F64 F] (sound : store.Sound disk segments past) (writer : Option Nat) :
    ({ store with wal := writer }).Sound disk segments past where
  writable := sound.writable
  keyed := sound.keyed
  threshold := sound.threshold
  bufferSchema := sound.bufferSchema
  bufferKey := sound.bufferKey
  axis := ⟨sound.axis.counted, sound.axis.explicit, sound.axis.contiguous⟩
  slots := sound.slots
  segmentsOk := sound.segmentsOk
  covers := sound.covers
  below := sound.below
  killed := sound.killed
  history := sound.history
  pastOk := sound.pastOk
  remembered := sound.remembered
  virtual := sound.virtual
  inOrder := sound.inOrder

end Store

/-! ### Resetting the log -/

variable [F64 F] {allow : World F → Call F → Outcome → Prop} {crash : World F → Prop}
variable {s : Store F} {w : World F} {segments past : List (Segment F)}
  {flushed live : List (Replayed F)}
variable {post : Except StorageError Unit → Store F → World F → Prop}

/-- Opening a log may fail somewhere after `w`. -/
def OpenFails (allow : World F → Call F → Outcome → Prop) (w : World F) : Prop :=
  ∃ (w' : World F) (name : ObjectName) (left : Leftover), w.trace <+: w'.trace ∧
    allow w' (.openLog name) (.err left)

/-- A write that is no delete log may fail somewhere after `w`. -/
def WriteFails (allow : World F → Call F → Outcome → Prop) (w : World F) : Prop :=
  ∃ (w' : World F) (name : ObjectName) (object : Object F) (left : Leftover), w.trace <+: w'.trace ∧
    (∀ generation number, name ≠ .deleteLog generation number) ∧
      allow w' (.write name object) (.err left)

/-- Replacing the log may fail somewhere after `w`. -/
def LogWriteFails (allow : World F → Call F → Outcome → Prop) (w : World F) : Prop :=
  ∃ (w' : World F) (object : Object F) (left : Leftover), w.trace <+: w'.trace ∧
    allow w' (.write .wal object) (.err left)

omit [F64 F] in
theorem LogWriteFails.writeFails (fails : LogWriteFails allow w) : WriteFails allow w := by
  obtain ⟨v, object, left, after, allowed⟩ := fails
  exact ⟨v, .wal, object, left, after, by simp, allowed⟩

omit [F64 F] in
theorem LogWriteFails.earlier {w' : World F} (fails : LogWriteFails allow w')
    (before : w.trace <+: w'.trace) :
    LogWriteFails allow w := by
  obtain ⟨v, object, left, after, allowed⟩ := fails
  exact ⟨v, object, left, before.trans after, allowed⟩

omit [F64 F] in
theorem WriteFails.earlier {w' : World F} (fails : WriteFails allow w')
    (before : w.trace <+: w'.trace) :
    WriteFails allow w := by
  obtain ⟨v, name, object, left, after, rest⟩ := fails
  exact ⟨v, name, object, left, before.trans after, rest⟩

omit [F64 F] in
theorem OpenFails.earlier {w' : World F} (fails : OpenFails allow w') (before : w.trace <+: w'.trace) :
    OpenFails allow w := by
  obtain ⟨v, name, left, after, rest⟩ := fails
  exact ⟨v, name, left, before.trans after, rest⟩

omit [F64 F] in
theorem World.trace_did (w : World F) (c : Call F) (outcome : Outcome) :
    w.trace <+: (w.did c outcome).trace :=
  List.prefix_append _ _

namespace Store

omit [F64 F] in
theorem wp_refuseReadOnly (writable : s.readOnly = false) :
    Fallible.wp backend allow crash refuseReadOnly post s w ↔ post (.ok ()) s w := by
  simp [refuseReadOnly, writable]

theorem ledger_empty (empty : s.buffer.rows = []) (committed : List Nat) :
    ledgerOf (segments.flatMap Segment.rows ++ unitRows (settled committed [])) s.tombstones =
      s.ledger segments := by
  simp [ledger, empty, settled]

/-- Once the buffer is empty, the log may be replaced by an empty one. -/
theorem wp_resetWal (sound : s.Sound w.disk segments past)
    (laid : s.Full → Laid w.disk s.schema s.orderingKey s.generation s.sections segments
      past s.tombstones
      s.deleteLogSequence s.bufferBase s.buffer.rows)
    (witnessed : s.Full → ∀ sequence, Committed w.disk s.generation sequence →
      Witnessed segments s.tombstones [] sequence)
    (before : s.Full → w.disk.Recovers s.schema s.orderingKey [] (· = s.ledger segments))
    (empty : s.buffer.rows = [])
    (safe : ∀ w', (s.Full → w'.disk.Recovers s.schema s.orderingKey [] (· = s.ledger segments)) →
      crash w')
    (failed : ∀ w', w'.disk = w.disk → w.trace <+: w'.trace → LogWriteFails allow w →
      post (.error (.io (.backend .write))) s w')
    (stranded : ∀ w', w.trace <+: w'.trace → OpenFails allow w →
      (s.Full → w'.disk.Recovers s.schema s.orderingKey [] (· = s.ledger segments)) →
      post (.error (.io (.backend .openLog))) s w')
    (done : ∀ w' writer, w.trace <+: w'.trace → writer.isSome = s.wal.isSome →
      (∀ name, name ≠ .wal → w'.disk.get name = w.disk.get name) →
      ({ s with wal := writer }).Sound w'.disk segments past →
      (({ s with wal := writer }).Full →
      ({ s with wal := writer }).Logged w'.disk segments past [] []) →
      post (.ok ()) { s with wal := writer } w') :
    Fallible.wp backend allow crash resetWal post s w := by
  simp only [resetWal, Fallible.wp_bind, Fallible.wp_read, Fallible.wp_when]
  refine ⟨fun logs => ?_, fun off => ?_⟩
  · simp only [Io.wp_write]
    refine ⟨safe w before, fun _ => ?_, fun left allowed => ?_⟩
    · -- The new log is in place under its own identity.
      let w₁ := w.did (.write .wal (.log (.fresh s.generation s.rows []))) .ok
      have held : LogState w₁.disk w.disk.nextId s.generation s.rows [] [] false :=
        (Disk.get_publish_log _).trans (if_pos rfl)
      have others : ∀ name, name ≠ .wal → w₁.disk.get name = w.disk.get name := fun name different =>
        Disk.get_publish_other different
      have sound₁ : s.Sound w₁.disk segments past :=
        sound.frame fun name reads => others name (by rintro rfl; exact reads)
      have relogged : s.Full →
          ({ s with wal := some w.disk.nextId }).Logged w₁.disk segments past [] [] := by
        intro full
        have old := laid full
        have counted := sound.axis.counted
        have count : s.buffer.len = 0 := by rw [WriteBuffer.len, empty]; rfl
        exact {
          layout := old.layout.frame fun name inside => others name (by rintro rfl; exact inside)
          killedDurable := old.killed
          witnessed := fun sequence committed =>
            witnessed full sequence ((Committed.frame fun number => others _ (by simp)).mp committed)
          log := {
            file := ⟨w.disk.nextId, s.rows, rfl, counted.trans (by rw [count]; rfl), held⟩
            rows := empty.symm
            shared := by simp }
          leftover := fun bare base object held =>
            old.leftover bare base object
            ((others (.segment s.generation base) (by simp)).symm.trans held)
          ordinary := by simp }
      simp only [Io.wp_openLog]
      have recovers (full : s.Full) : w₁.disk.Recovers s.schema s.orderingKey []
          (· = s.ledger segments) :=
        (relogged full).recovers (sound₁.withWal _) (ledger_empty empty _)
      refine ⟨safe w₁ recovers, fun _ => ?_, fun left refused => ?_⟩
      · simp only [Fallible.wp_update]
        rw [show (w.did (.write .wal (.log (.fresh s.generation s.rows []))) .ok).disk.get
          .wal = _ from held]
        refine done _ (some w.disk.nextId) ?_ (by simp [logs]) others (sound₁.withWal _) fun full => ?_
        · exact (World.trace_did w _ _).trans (World.trace_did w₁ _ _)
        · exact relogged ⟨full.persistent, full.walSync, logs⟩
      · exact stranded _ ((World.trace_did w _ _).trans (World.trace_did w₁ _ _))
          ⟨w₁, .wal, left, World.trace_did w _ _, refused⟩ recovers
    · exact failed _ rfl (World.trace_did w _ _) ⟨w, _, left, List.prefix_rfl, allowed⟩
  · refine done w s.wal List.prefix_rfl rfl (fun _ _ => rfl) sound fun full => ?_
    have logs := full.logs
    rw [off] at logs
    cases logs

/-! ### Flush -/

/-- A buffer frozen under the store's schema is one of its segments. -/
theorem Sound.frozen {disk : Disk F} {segment : Segment F} (sound : s.Sound disk segments past)
    (frozen : s.frozenBuffer = .ok segment) : FrozenFrom s segment :=
  frozenBuffer_spec frozen sound.axis (sound.bufferSchema ▸ Schema.fields_ne_nil sound.keyed)

theorem Sound.frozenOk {disk : Disk F} {segment : Segment F} (sound : s.Sound disk segments past)
    (frozen : FrozenFrom s segment) (filled : s.buffer.isEmpty = false) :
    SegmentOk s.schema s.orderingKey segment where
  schema := frozen.schema.trans sound.bufferSchema
  orderingKey := frozen.orderingKey.trans sound.bufferKey
  filled := by
    rw [frozen.count]
    exact Nat.pos_of_ne_zero (by simpa [WriteBuffer.isEmpty] using filled)
  sequenceOk := frozen.sequenceOk
  mapped := by
    rw [← sound.bufferSchema]
    exact frozen.mapped (by rw [sound.bufferSchema, sound.bufferKey, sound.keyed])
  inOrder := frozen.inOrder sound.inOrder

def flushedWith (store : Store F) (segment : Segment F) (sections : ManifestSections F)
    (writer : Option Nat) : Store F :=
  { store.flushed segment with sections, wal := writer }

/-- The flushed store, once its segment can be read back. -/
theorem Sound.adoptFlushed {segment : Segment F} {disk : Disk F} {sections : ManifestSections F}
    (sound : s.Sound disk segments past) (frozen : FrozenFrom s segment)
    (ok : SegmentOk s.schema s.orderingKey segment) (kept : sections.history = s.sections.history) :
    (s.flushedWith segment sections s.wal).Sound disk (segments ++ [segment]) past where
  writable := sound.writable
  keyed := sound.keyed
  threshold := sound.threshold
  bufferSchema := rfl
  bufferKey := rfl
  axis := by
    have axis := @flushed_axis F s segment
    exact ⟨axis.counted, axis.explicit, axis.contiguous⟩
  slots := List.rel_append sound.slots (.cons ⟨rfl, rfl, .inl rfl⟩ .nil)
  segmentsOk member inside := by
    rcases List.mem_append.mp inside with old | new
    · exact sound.segmentsOk member old
    · exact List.mem_singleton.mp new ▸ ok
  covers := by
    have counted := sound.axis.counted
    have covers := sound.covers.concat frozen.base
    rwa [frozen.count, ← counted] at covers
  below birth member := by
    have births : (s.flushedWith segment sections s.wal).bufferBirths = [] :=
      @flushed_births F s segment
    have same : (s.flushedWith segment sections s.wal).watermark = s.watermark :=
      @flushed_watermark F s segment
    rw [births, List.append_nil, List.flatMap_append, List.flatMap_singleton, frozen.births] at member
    exact same ▸ sound.below birth member
  killed := sound.killed
  history := sound.history
  pastOk := sound.pastOk
  remembered := kept.trans sound.remembered
  virtual bare member inside := by
    have before : s.knowledge = none := by simpa [flushedWith, Store.flushed] using bare
    rcases List.mem_append.mp inside with old | new
    · exact sound.virtual before member old
    · exact List.mem_singleton.mp new ▸ frozen.virtual.mpr before
  inOrder := WriteBuffer.empty_inOrder _ _

theorem Sound.newFile {disk : Disk F} (sound : s.Sound disk segments past) {name : ObjectName}
    (inside : InLayout s.generation segments past name) :
    name ≠ .segment s.generation s.bufferBase := by
  rintro rfl
  obtain ⟨-, segment, member, same⟩ := inside
  have bound := (sound.covers.bound member).2
  have filled := (sound.segmentsOk segment member).filled
  omega

theorem Filed.fileWritten {segment : Segment F} {disk other : Disk F}
    (filed : s.Filed disk segments past)
    (sound : s.Sound disk segments past) (base : segment.baseRowId = s.bufferBase)
    (ok : SegmentOk s.schema s.orderingKey segment)
    (same : ∀ name, name ≠ .segment s.generation s.bufferBase → other.get name = disk.get name)
    (held : other.get (.segment s.generation s.bufferBase) = some (.segment segment)) :
    s.Filed other segments past where
  layout := filed.layout.frame fun name inside => same name (sound.newFile inside)
  killedDurable := filed.killedDurable
  leftover bare place object found := by
    by_cases here : place = s.bufferBase
    · subst here
      have first : s.bufferBase = 0 :=
        (sound.covers.nil_iff fun segment member => (sound.segmentsOk segment member).filled).mp bare
      rw [held] at found
      obtain rfl := Option.some.inj found
      exact ⟨first, segment, rfl, ok, base.trans first⟩
    · exact filed.leftover bare place object
        ((same (.segment s.generation place) (by simpa using here)).symm.trans found)

/-- Once the manifest names the segment, it is one of the store's. -/
theorem Filed.adoptFlushed {segment : Segment F} {disk other : Disk F} {sections : ManifestSections F}
    (filed : s.Filed disk segments past) (sound : s.Sound disk segments past)
    (base : segment.baseRowId = s.bufferBase)
    (named : sections = { s.sections with
      segments := s.sections.segments ++ [.of (.segment s.generation segment.baseRowId) segment] })
    (same : ∀ name, name ≠ .segment s.generation s.bufferBase → name ≠ .manifest →
      other.get name = disk.get name)
    (held : other.get (.segment s.generation s.bufferBase) = some (.segment segment))
    (manifest : other.get .manifest = some (s.manifest sections)) :
    (s.flushedWith segment sections s.wal).Filed other (segments ++ [segment]) past where
  layout := by
    have old := filed.layout
    refine ⟨manifest, ?_, ?_, ?_, ?_, ?_, ?_⟩
    · change sections.segments = (segments ++ [segment]).map fun segment =>
        .of (.segment s.generation segment.baseRowId) segment
      rw [List.map_append, ← old.records, named]
      rfl
    · intro member inside
      rcases List.mem_append.mp inside with earlier | new
      · have inside : InLayout s.generation segments past (.segment s.generation member.baseRowId) :=
          ⟨rfl, member, earlier, rfl⟩
        exact (same _ (sound.newFile inside) (by simp)).trans (old.files member earlier)
      · obtain rfl := List.mem_singleton.mp new
        rw [base]
        exact held
    · rw [named]
      exact old.history
    · exact fun index member found => (same _ (by simp) (by simp)).trans
        (old.historyFiles index member found)
    · exact fun number object found =>
        old.deleteLogs number object
          ((same (.deleteLog s.generation number) (by simp) (by simp)).symm.trans found)
    · intro id stamp killed
      obtain ⟨number, log, found, member⟩ := old.logged id stamp killed
      exact ⟨number, log, (same (.deleteLog s.generation number) (by simp) (by simp)).trans found,
        member⟩
  killedDurable id killed := by
    have durable := filed.killedDurable id killed
    have counted := sound.axis.counted
    change id < s.rows
    omega
  leftover bare := by simp at bare

/-- The log keeps its units while a segment file and a manifest are written. -/
theorem Logged.fileWritten {segment : Segment F} {other : Disk F}
    (logged : s.Logged w.disk segments past flushed live)
    (sound : s.Sound w.disk segments past) (frozen : FrozenFrom s segment)
    (ok : SegmentOk s.schema s.orderingKey segment)
    (same : ∀ name, name ≠ .segment s.generation s.bufferBase → other.get name = w.disk.get name)
    (held : other.get (.segment s.generation s.bufferBase) = some (.segment segment)) :
    s.Logged other segments past flushed live where
  layout := (logged.filed.fileWritten sound frozen.base ok same held).layout
  killedDurable := logged.killedDurable
  witnessed sequence committed :=
    logged.witnessed sequence ((Committed.frame fun number => same _ (by simp)).mp committed)
  log := by
    obtain ⟨writer, base, holds, start, found⟩ := logged.log.file
    exact ⟨⟨writer, base, holds, start, (same .wal (by simp)).trans found⟩, logged.log.rows,
      logged.log.shared⟩
  leftover := by
    intro bare base object found
    obtain ⟨first, own, kind, ok', start⟩ :=
      (logged.filed.fileWritten sound frozen.base ok same held).leftover bare base object found
    by_cases here : base = s.bufferBase
    · subst here
      rw [held] at found
      obtain rfl := Option.some.inj found
      obtain rfl := Object.segment.inj kind
      exact ⟨first, segment, rfl, ok, start, frozen.rows ▸ List.prefix_rfl⟩
    · exact logged.leftover bare base object
        ((same (.segment s.generation base) (by simpa using here)).symm.trans found)
  ordinary := logged.ordinary

/-- Once the manifest names the segment, the log's units are all flushed. -/
theorem Logged.adoptFlushed {segment : Segment F} {other : Disk F} {sections : ManifestSections F}
    (logged : s.Logged w.disk segments past flushed live) (sound : s.Sound w.disk segments past)
    (frozen : FrozenFrom s segment)
    (named : sections = { s.sections with
      segments := s.sections.segments ++ [.of (.segment s.generation segment.baseRowId) segment] })
    (same : ∀ name, name ≠ .segment s.generation s.bufferBase → name ≠ .manifest →
      other.get name = w.disk.get name)
    (held : other.get (.segment s.generation s.bufferBase) = some (.segment segment))
    (manifest : other.get .manifest = some (s.manifest sections)) :
    (s.flushedWith segment sections s.wal).Logged other (segments ++ [segment]) past
      (flushed ++ live) [] where
  layout := (logged.filed.adoptFlushed sound frozen.base named same held manifest).layout
  killedDurable := (logged.filed.adoptFlushed sound frozen.base named same held manifest).killedDurable
  witnessed sequence committed := by
    have before := logged.witnessed sequence
      ((Committed.frame fun number => same (.deleteLog s.generation number) (by simp) (by
          simp)).mp committed)
    rw [Witnessed, List.flatMap_append, List.flatMap_singleton, List.mem_append, frozen.births]
    rcases before with born | ⟨rows, filled, member⟩ | killed
    · exact .inl (.inl born)
    · exact .inl (.inr (logged.log.shared sequence rows member filled))
    · exact .inr (.inr killed)
  log := by
    obtain ⟨writer, base, holds, start, found⟩ := logged.log.file
    rw [← List.append_nil (flushed ++ live)] at found
    refine ⟨⟨writer, base, holds, ?_, (same .wal (by simp) (by simp)).trans found⟩, rfl, by simp⟩
    have counted := sound.axis.counted
    have rows := congrArg List.length logged.log.rows
    change _ = s.rows
    rw [unitRows_append, List.length_append, rows, ← Nat.add_assoc, start]
    exact counted.symm
  leftover bare := by simp at bare
  ordinary bare := by simp at bare

theorem settledLedger_congr {other : Disk F}
    (same : ∀ number, other.get (.deleteLog s.generation number) =
      w.disk.get (.deleteLog s.generation number)) :
    s.settledLedger other segments live = s.settledLedger w.disk segments live := by
  unfold settledLedger
  rw [settled_congr fun sequence => ?_]
  rw [mem_committedOf, mem_committedOf]
  exact Committed.frame same

/-- The rule for a flush. It ends as it began where the buffer is empty or holds a key column
of nulls; otherwise in a flushed store. A failed write leaves either. -/
theorem wp_flush (sound : s.Sound w.disk segments past)
    (logged : s.Full → s.Logged w.disk segments past flushed live)
    (safe : ∀ w', (s.Full →
      w'.disk.Recovers s.schema s.orderingKey (s.pending w.disk live) fun ledger =>
      ledger = s.ledger segments ∨ ledger = s.settledLedger w.disk segments live) → crash w')
    (idle : s.buffer.isEmpty = true → post (.ok ()) s w)
    (refused : ∀ e, s.buffer.isEmpty = false → s.frozenBuffer = .error e → post (.error e) s w)
    (unflushed : ∀ w', w.trace <+: w'.trace → WriteFails allow w → s.buffer.isEmpty = false →
      (∀ generation number, w'.disk.get (.deleteLog generation number) =
      w.disk.get (.deleteLog generation number)) →
      s.Sound w'.disk segments past → (s.Full → s.Logged w'.disk segments past flushed live) →
      post (.error (.io (.backend .write))) s w')
    (unreset : ∀ w' segment sections, w.trace <+: w'.trace → WriteFails allow w → FrozenFrom s segment →
      s.buffer.isEmpty = false → sections.nextSequence = s.sections.nextSequence ∧
      sections.history = s.sections.history →
      (∀ generation number, w'.disk.get (.deleteLog generation number) =
      w.disk.get (.deleteLog generation number)) →
      (s.flushedWith segment sections s.wal).Sound w'.disk (segments ++ [segment]) past →
      (s.Full → (s.flushedWith segment sections s.wal).Logged w'.disk (segments ++ [segment]) past
      (flushed ++ live) []) →
      post (.error (.io (.backend .write))) (s.flushedWith segment sections s.wal) w')
    (stranded : ∀ s' w', w.trace <+: w'.trace → OpenFails allow w →
      (s.Full → w'.disk.Recovers s.schema s.orderingKey (s.pending w.disk live)
      (· = s.ledger segments)) →
      post (.error (.io (.backend .openLog))) s' w')
    (done : ∀ w' segment sections writer, w.trace <+: w'.trace → FrozenFrom s segment →
      s.buffer.isEmpty = false → sections.nextSequence = s.sections.nextSequence ∧
      sections.history = s.sections.history → writer.isSome = s.wal.isSome →
      (∀ generation number, w'.disk.get (.deleteLog generation number) =
      w.disk.get (.deleteLog generation number)) →
      (s.flushedWith segment sections writer).Sound w'.disk (segments ++ [segment]) past →
      (s.Full → (s.flushedWith segment sections writer).Logged w'.disk
      (segments ++ [segment]) past [] []) →
      post (.ok ()) (s.flushedWith segment sections writer) w') :
    Fallible.wp backend allow crash flush post s w := by
  simp only [flush, Fallible.wp_bind, wp_refuseReadOnly sound.writable, Fallible.wp_read]
  cases filled : s.buffer.isEmpty with
  | true => exact idle filled
  | false =>
    simp only [Bool.false_eq_true, if_false, Fallible.wp_bind, Fallible.wp_ofExcept]
    cases frozen : s.frozenBuffer with
    | error e => exact refused e filled frozen
    | ok segment =>
      have from_ := sound.frozen frozen
      have ok := sound.frozenOk from_ filled
      have rows : (s.flushed segment).ledger (segments ++ [segment]) = s.ledger segments := by
        simp [ledger, Store.flushed, WriteBuffer.empty, from_.rows]
      simp only [Fallible.wp_when, Fallible.wp_update]
      refine ⟨fun persistent => ?_, fun memory => ?_⟩
      · simp only [publishSegment, Fallible.wp_bind, Fallible.wp_read, Io.wp_write]
        let name := ObjectName.segment s.generation segment.baseRowId
        let sections : ManifestSections F :=
          { s.sections with segments := s.sections.segments ++ [.of name segment] }
        let w₁ := w.did (.write name (.segment segment)) .ok
        let w₂ := w₁.did (.write .manifest (s.manifest sections)) .ok
        have first (other : ObjectName) (different : other ≠ .segment s.generation s.bufferBase) :
            w₁.disk.get other = w.disk.get other := by
          rw [← from_.base] at different
          exact Disk.get_publish_other different
        have held₁ : w₁.disk.get (.segment s.generation s.bufferBase) = some (.segment segment) := by
          rw [← from_.base]
          exact (Disk.get_publish (by simp)).trans (if_pos rfl)
        have second (other : ObjectName) (different : other ≠ .manifest) :
            w₂.disk.get other = w₁.disk.get other := Disk.get_publish_other different
        have held₂ : w₂.disk.get .manifest = some (s.manifest sections) :=
          (Disk.get_publish (by simp [manifest])).trans (if_pos rfl)
        have sound₁ : s.Sound w₁.disk segments past := by
          refine sound.frame fun other reads => first other ?_
          cases other with
          | segment generation base => exact sound.newFile reads
          | _ => simp
        have logged₁ (full : s.Full) : s.Logged w₁.disk segments past flushed live :=
          (logged full).fileWritten sound from_ ok first held₁
        have logs₁ (generation number : Nat) :
            w₁.disk.get (.deleteLog generation number) = w.disk.get (.deleteLog generation number) :=
          first _ (by simp)
        have later₁ : w.trace <+: w₁.trace := World.trace_did w _ _
        have later₂ : w.trace <+: w₂.trace := later₁.trans (World.trace_did w₁ _ _)
        refine ⟨safe w fun full => (logged full).recovers sound (.inr rfl), fun _ => ?_,
          fun left allowed => ?_⟩
        · refine ⟨safe w₁ fun full => Disk.Recovers.widen ((logged₁ full).recovers sound₁
            (.inr (settledLedger_congr (logs₁ _))))
            (pending_subset rfl (fun _ => (Committed.frame (logs₁ _)).mpr) fun _ => .inl),
            fun _ => ?_, fun left allowed => ?_⟩
          · have adopted : (s.flushedWith segment sections s.wal).Sound w₂.disk
                (segments ++ [segment]) past := by
              refine (sound₁.frame fun other reads => second other ?_).adoptFlushed from_ ok rfl
              rintro rfl
              exact reads
            have relogged (full : s.Full) :
                (s.flushedWith segment sections s.wal).Logged w₂.disk (segments ++ [segment]) past
                  (flushed ++ live) [] :=
              (logged full).adoptFlushed sound from_ rfl
                (fun other file manifest => (second other manifest).trans (first other file))
                ((second _ (by simp)).trans held₁) held₂
            have logs₂ (generation number : Nat) :
                w₂.disk.get (.deleteLog generation number) = w.disk.get
                  (.deleteLog generation number) :=
              (second _ (by simp)).trans (logs₁ generation number)
            refine wp_resetWal adopted
              (fun full => (relogged ⟨full.persistent, full.walSync, full.logs⟩).laid adopted)
              (fun full => (relogged ⟨full.persistent, full.walSync, full.logs⟩).witnessed)
              (fun full => (relogged ⟨full.persistent, full.walSync, full.logs⟩).recovers adopted
                (ledger_empty rfl _))
              rfl (fun w' recovers => safe w' fun full => ?_) ?_ ?_ ?_
            · exact ((recovers ⟨full.persistent, full.walSync, full.logs⟩).widen (by simp)).mono
                  fun ledger same =>
                .inl (same.trans rows)
            · intro w' same later fails
              exact unreset w' segment sections (later₂.trans later)
                (fails.writeFails.earlier later₂) from_ filled ⟨rfl, rfl⟩
                (fun generation number => by rw [same]; exact logs₂ generation number) (same ▸ adopted)
                fun full => same ▸ relogged full
            · intro w' later fails recovers
              exact stranded _ w' (later₂.trans later) (fails.earlier later₂) fun full =>
                rows ▸ (recovers ⟨full.persistent, full.walSync, full.logs⟩).widen (by simp)
            · intro w' writer later logs others sound' logged'
              exact done w' segment sections writer (later₂.trans later) from_ filled ⟨rfl, rfl⟩ logs
                (fun generation number => (others _ (by simp)).trans (logs₂ generation number)) sound'
                fun full => logged' ⟨full.persistent, full.walSync, logs ▸ full.logs⟩
          · exact unflushed _ (later₁.trans (World.trace_did w₁ _ _))
              ⟨w₁, .manifest, _, left, later₁, by simp, allowed⟩ filled logs₁ sound₁ logged₁
        · exact unflushed _ (World.trace_did w _ _) ⟨w, name, _, left, List.prefix_rfl, by
              simp [name], allowed⟩ filled
            (fun _ _ => rfl) sound logged
      · -- Without a backend nothing is written and no log is held.
        have short : ¬s.Full := fun full => by
          have stored := full.persistent
          rw [memory] at stored
          cases stored
        have adopted : (s.flushedWith segment s.sections s.wal).Sound w.disk
            (segments ++ [segment]) past :=
          sound.adoptFlushed from_ ok rfl
        have unlogged (full : (s.flushedWith segment s.sections s.wal).Full) :
            (s.flushedWith segment s.sections s.wal).Logged w.disk
              (segments ++ [segment]) past flushed [] :=
          (short ⟨full.persistent, full.walSync, full.logs⟩).elim
        refine wp_resetWal adopted (fun full => (unlogged full).laid adopted)
          (fun full => (unlogged full).witnessed)
          (fun full => (unlogged full).recovers adopted (ledger_empty rfl _)) rfl
            (fun w' _ => safe w' fun full => (short full).elim) ?_ ?_ ?_
        · intro w' same later fails
          exact unreset w' segment s.sections later fails.writeFails from_ filled ⟨rfl, rfl⟩
            (fun _ _ => by rw [same]) (same ▸ adopted)
            fun full => (short full).elim
        · exact fun w' later fails _ => stranded _ w' later fails fun full => (short full).elim
        · intro w' writer later logs others sound' logged'
          exact done w' segment s.sections writer later from_ filled ⟨rfl, rfl⟩ logs
            (fun _ _ => others _ (by simp)) sound'
            fun full => (short full).elim

/-- A store at rest: sound, and logged where it syncs every record. -/
structure Held (store : Store F) (disk : Disk F) (segments past : List (Segment F))
    (flushed live : List (Replayed F)) : Prop where
  sound : store.Sound disk segments past
  logged : store.Full → store.Logged disk segments past flushed live

/-- What a flush makes of a store: the same one, or one with the buffer moved to a segment. -/
inductive Flushes (store : Store F) (segments : List (Segment F)) (flushed live : List (Replayed F)) :
    Store F → List (Segment F) → List (Replayed F) → List (Replayed F) → Prop where
  | kept : Flushes store segments flushed live store segments flushed live
  | moved (segment : Segment F) (sections : ManifestSections F) (writer : Option Nat)
      (flushed' : List (Replayed F)) (frozen : FrozenFrom store segment)
        (filled : store.buffer.isEmpty = false)
      (next : sections.nextSequence = store.sections.nextSequence ∧
        sections.history = store.sections.history) (logs : writer.isSome = store.wal.isSome)
      (old : flushed' = [] ∨ flushed' = flushed ++ live) :
      Flushes store segments flushed live (store.flushedWith segment sections writer)
        (segments ++ [segment]) flushed' []

def SameKills (before after : World F) : Prop :=
  before.trace <+: after.trace ∧ ∀ generation number,
    after.disk.get (.deleteLog generation number) = before.disk.get (.deleteLog generation number)

omit [F64 F] in
theorem SameKills.refl (w : World F) : SameKills w w := ⟨List.prefix_rfl, fun _ _ => rfl⟩

omit [F64 F] in
theorem SameKills.trans {first second third : World F} (left : SameKills first second)
    (right : SameKills second third) : SameKills first third :=
  ⟨left.1.trans right.1, fun generation number =>
    (right.2 generation number).trans (left.2 generation number)⟩

/-- The rule for a flush of a store at rest. -/
theorem wp_flushHeld (held : s.Held w.disk segments past flushed live)
    (safe : ∀ w', (s.Full →
      w'.disk.Recovers s.schema s.orderingKey (s.pending w.disk live) fun ledger =>
      ledger = s.ledger segments ∨ ledger = s.settledLedger w.disk segments live) → crash w')
    (refused : ∀ column, s.buffer.isEmpty = false → s.frozenBuffer = .error (.allNullKeyColumn column) →
      post (.error (.allNullKeyColumn column)) s w)
    (failed : ∀ s' w' segments' flushed' live', SameKills w w' → WriteFails allow w →
      s.Flushes segments flushed live s' segments' flushed' live' →
      s'.Held w'.disk segments' past flushed' live' →
      post (.error (.io (.backend .write))) s' w')
    (stranded : ∀ s' w', w.trace <+: w'.trace → OpenFails allow w →
      (s.Full → w'.disk.Recovers s.schema s.orderingKey (s.pending w.disk live)
      (· = s.ledger segments)) →
      post (.error (.io (.backend .openLog))) s' w')
    (done : ∀ s' w' segments' flushed' live', SameKills w w' → w' = w ∨ segments' ≠ [] →
      s.Flushes segments flushed live s' segments' flushed' live' →
      s'.Held w'.disk segments' past flushed' live' →
      s'.buffer.rows = [] → post (.ok ()) s' w') :
    Fallible.wp backend allow crash flush post s w := by
  refine wp_flush held.sound held.logged safe ?_ ?_ ?_ ?_ stranded ?_
  · intro empty
    exact done s w segments flushed live (.refl w) (.inl rfl) .kept held (isEmpty_iff.mp empty)
  · intro e filled error
    obtain ⟨column, rfl⟩ := frozenBuffer_error error
    exact refused column filled error
  · intro w' later fails _ logs sound logged
    exact failed s w' segments flushed live ⟨later, logs⟩ fails .kept ⟨sound, logged⟩
  · intro w' segment sections later fails frozen filled next logs sound logged
    exact failed _ w' _ _ [] ⟨later, logs⟩ fails
      (.moved segment sections s.wal (flushed ++ live) frozen filled next rfl (.inr rfl))
      ⟨sound, fun full => logged ⟨full.persistent, full.walSync, full.logs⟩⟩
  · intro w' segment sections writer later frozen filled next logs same sound logged
    exact done _ w' _ _ [] ⟨later, same⟩ (.inr (by simp))
      (.moved segment sections writer [] frozen filled next logs (.inl rfl))
      ⟨sound, fun full => logged ⟨full.persistent, full.walSync, logs ▸ full.logs⟩⟩ rfl

end Store

end TallyDB
