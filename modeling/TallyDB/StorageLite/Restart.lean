import TallyDB.StorageLite.Known
import TallyDB.StorageLite.Boot

/-!
# Restarting, in every mode

A steady store leaves an image on its disk, whatever the log holds and whatever failed
before. An open of that disk ends in a steady store over the image, or leaves the image.
-/

namespace TallyDB

open Crash

variable {F : Type} [F64 F] {allow : World F → Call F → Outcome → Prop} {crash : World F → Prop}
variable {s : Store F} {w : World F} {disk other : Disk F} {segments past : List (Segment F)}
  {image : Image F}
variable {schema : Schema} {orderingKey : Nat}

theorem Image.Stands.others (stands : image.Stands disk schema orderingKey)
    (same : ∀ name, name ≠ .wal → other.get name = disk.get name) :
    image.Stands other schema orderingKey where
  layout := stands.layout.frame fun name inside => same name (by rintro rfl; exact inside)
  orphans bare base object := by
    rw [same _ (by simp)]
    exact stands.orphans bare base object
  alone := stands.alone
  committed sequence :=
    (stands.committed sequence).trans (Committed.frame fun number => same _ (by simp)).symm
  covers := stands.covers
  segments := stands.segments
  past := stands.past
  killed := stands.killed

theorem Image.Stands.fallen (stands : image.Stands disk schema orderingKey) (survivors : Nat)
    (torn : Bool) :
    image.Stands (disk.crash survivors torn) schema orderingKey :=
  stands.others fun _ different => Disk.get_crash_other survivors torn different

namespace Store

/-- What a store leaves on its disk, beside the log. -/
def left (store : Store F) (disk : Disk F) (segments past : List (Segment F)) : Image F :=
  imageOf disk store.generation store.sections segments past store.tombstones
    store.deleteLogSequence 0 []

theorem Steady.stands (steady : s.Steady disk segments past) (stored : s.persistent = true) :
    (s.left disk segments past).Stands disk s.schema s.orderingKey :=
  have filed := steady.filed stored
  imageOf_stands filed.layout steady.sound.covers steady.sound.segmentsOk steady.sound.pastOk
    filed.killedDurable filed.leftover

/-! ### Replaying any log -/

section Replay

variable {World Outcome : Type} {sem : Semantics (Call F) Call.Resp World Outcome}
variable {allow : World → Call F → Outcome → Prop} {crash : World → Prop} {w : World}
variable {post : Except StorageError Unit → Store F → World → Prop}

omit [F64 F] in
theorem wp_takeRowAny {row : Row F} (axis : s.AxisOk) (refused : ∀ e, post (.error e) s w)
    (after : ∀ s', s.Replays [.row row] s' → post (.ok ()) s' w) : Fallible.wp sem allow crash
      (takeRow row) post s w := by
  cases valid : s.buffer.validate row with
  | ok _ => exact (wp_takeRow valid).mpr (after _ (.ordinary axis valid))
  | error e =>
    simp only [takeRow, appendRow, Fallible.wp_bind, Fallible.wp_read, Fallible.wp_ofExcept,
      append_error valid]
    exact refused e

omit [F64 F] in
/-- Replaying any unit takes it, or fails at a row that does not fit the schema. -/
theorem wp_applyAny {unit : Replayed F} (axis : s.AxisOk) (refused : ∀ e s', post (.error e) s' w)
    (after : ∀ s', s.Replays [unit] s' → post (.ok ()) s' w) : Fallible.wp sem allow crash
      (applyReplayed unit) post s w := by
  cases unit with
  | row cells => exact wp_takeRowAny axis (fun e => refused e s) after
  | supersession sequence rows =>
    refine Fallible.wp_each (fun rest s' w' => ∃ done, done ++ rest = rows ∧ w' = w ∧
      s.Replays [.supersession sequence done] s')
      ⟨[], rfl, rfl, .bare axis⟩ ?_ ?_
    · rintro cells rest s' w' ⟨done, split, rfl, sofar⟩
      cases valid : s'.buffer.validate cells with
      | ok _ =>
          exact (wp_takeRowAt valid).mpr ⟨done ++ [cells], by
              simp [split], rfl, .supersession sofar valid⟩
      | error e =>
        simp only [takeRowAt, appendSuperseding, Fallible.wp_bind, Fallible.wp_read,
          Fallible.wp_ofExcept, append_error valid]
        exact refused e s'
    · rintro s' w' ⟨done, split, rfl, finished⟩
      rw [List.append_nil] at split
      exact after s' (split ▸ finished)

omit [F64 F] in
theorem wp_replayAny {units : List (Replayed F)} (axis : s.AxisOk)
    (refused : ∀ e s', post (.error e) s' w)
    (after : ∀ s', s.Replays units s' → post (.ok ()) s' w) :
    Fallible.wp sem allow crash (Fallible.each applyReplayed units) post s w := by
  refine Fallible.wp_each (fun rest s' w' => ∃ done, done ++ rest = units ∧ w' = w ∧
    s.Replays done s') ⟨[], rfl, rfl, .refl axis⟩ ?_ ?_
  · rintro unit rest s' w' ⟨done, split, rfl, sofar⟩
    exact wp_applyAny sofar.axis refused fun s'' next =>
      ⟨done ++ [unit], by simp [split], rfl, sofar.trans next⟩
  · rintro s' w' ⟨done, split, rfl, finished⟩
    rw [List.append_nil] at split
    exact after s' (split ▸ finished)

end Replay

structure Restarts (s : Store F) (image : Image F) (s' : Store F) (disk : Disk F) : Prop where
  steady : s'.Steady disk image.visible image.past
  schema : s'.schema = s.schema
  orderingKey : s'.orderingKey = s.orderingKey
  segmentRows : s'.segmentRows = s.segmentRows
  persistent : s'.persistent = true
  kills : ∀ id, s'.tombstones.lookup id = image.kills.lookup id
  nextSequence : s'.sections.nextSequence = image.sections.nextSequence
  watermark : (recoveredWatermark image.sections.nextSequence s'.tombstones image.slots).getD
    image.total ≤ s'.watermark

section Open

variable {post : Except StorageError Unit → Store F → World F → Prop}

theorem Built.steady (built : s.Built image w.disk) : s.Steady w.disk image.visible image.past where
  sound := built.sound
  filed _ := by
    refine ⟨built.layout, built.killed, fun bare base object held => ?_⟩
    have visible : image.recorded = [] := built.recorded.trans bare
    have orphan : image.orphan = none := by
      simp only [Image.visible, List.append_eq_nil_iff] at bare
      simpa using bare.2
    rw [built.generation, built.stands.orphans visible] at held
    obtain ⟨-, segment, impossible, -⟩ := held
    rw [orphan] at impossible
    cases impossible

theorem wp_replayWalSteady {committed : List Nat} (built : s.Built image w.disk)
    (safe : ∀ w', (∀ name, name ≠ .wal → w'.disk.get name = w.disk.get name) → crash w')
    (failed : ∀ e s' w', (∀ name, name ≠ .wal → w'.disk.get name = w.disk.get name) →
      post (.error e) s' w')
    (done : ∀ s' w' units writer, (∀ name, name ≠ .wal → w'.disk.get name = w.disk.get name) →
      s.Replays units s' →
      post (.ok ()) { s' with wal := writer } w') :
    Fallible.wp backend allow crash (replayWal committed) post s w := by
  have same {w' : World F} (quiet : w'.disk = w.disk) (name : ObjectName) (_ : name ≠ .wal) :
      w'.disk.get name = w.disk.get name := by
    rw [quiet]
  have rest (base : Nat) (entries : List (WalEntry F)) : Fallible.wp backend allow crash (do
      let replay := skipFlushed (s.rows - base) (resolve committed entries)
      if s.walSync = .off then do
        Fallible.each applyReplayed replay
        Io.discard .wal
      else do
        Io.write .wal (.log (.fresh s.generation s.rows (replay.flatMap Replayed.entries)))
        Fallible.each applyReplayed replay
        let writer ← Io.openLog .wal
        Fallible.update fun store => { store with wal := some writer }) post s
        (w.did (.read .wal) .ok) := by
    simp only
    split
    · simp only [Fallible.wp_bind]
      refine wp_replayAny built.sound.axis (fun e s' => failed e s' _ (same rfl)) fun s' replays => ?_
      refine Io.wp_discard.mpr ⟨safe _ (same rfl), fun _ => ?_, fun left _ => failed _ s' _ (same rfl)⟩
      obtain ⟨buffer, knowledge, count, frame⟩ := replays.frame
      have closed : ({ s' with wal := none } : Store F) = s' := by rw [frame, ← built.unlogged]
      have gone (name : ObjectName) (different : name ≠ .wal) :
          ((w.did (.read .wal) .ok).did (.remove .wal) .ok).disk.get name = w.disk.get name := by
        simp only [World.did, World.answer]
        split
        · rw [Disk.get_erase, if_neg different]
        · rfl
      have after := done s' _ _ none gone replays
      rwa [closed] at after
    · simp only [Fallible.wp_bind, Io.wp_write]
      refine ⟨safe _ (same rfl), fun _ => ?_, fun left _ => failed _ s _ (same rfl)⟩
      have written (name : ObjectName) (different : name ≠ .wal) :
          ((w.did (.read .wal) .ok).did (.write .wal (.log (.fresh s.generation s.rows
            ((skipFlushed (s.rows - base) (resolve committed entries)).flatMap Replayed.entries))))
            .ok).disk.get name =
            w.disk.get name := Disk.get_publish_other different
      refine wp_replayAny built.sound.axis (fun e s' => failed e s' _ written) fun s' replays => ?_
      simp only [Io.wp_openLog, Fallible.wp_update]
      refine ⟨safe _ written, fun _ => ?_, fun left _ => failed _ s' _ written⟩
      split
      · next writer opened => exact done s' _ _ (some writer) written replays
      · next e opened => exact failed e s' _ written
  simp only [replayWal, readWal, Fallible.wp_bind, Fallible.wp_read, Io.wp_find]
  refine ⟨safe w fun _ _ => rfl, fun _ => ?_, fun left _ => failed _ s _ (same rfl)⟩
  cases w.disk.get .wal with
  | none => exact rest s.rows []
  | some object =>
    cases object with
    | log file =>
      simp only
      split
      · exact rest file.baseRowId (cleanPrefix file.frames)
      · exact rest s.rows []
    | _ => exact failed _ s _ (same rfl)

omit [F64 F] in
theorem opened_watermark (scan : Scan F) (rows : Nat) (watermark : Option Nat) :
    (s.opened scan rows watermark).watermark = watermark.getD rows := by
  unfold Store.opened Store.watermark
  cases watermark <;> rfl

theorem wp_openLayoutSteady (unfilled : s.Unfilled) (on : image.Stands w.disk s.schema s.orderingKey)
    (sections : s.sections = image.sections) (generation : s.generation = image.generation)
    (safe : ∀ w' held, held = image ∨ held = image.adopted →
      held.Stands w'.disk s.schema s.orderingKey → crash w')
    (failed : ∀ e s' w' held, held = image ∨ held = image.adopted →
      held.Stands w'.disk s.schema s.orderingKey →
      post (.error e) s' w')
    (done : ∀ s' w', s.Restarts image s' w'.disk → post (.ok ()) s' w') :
    Fallible.wp backend allow crash openLayout post s w := by
  refine wp_openLayoutTo unfilled on sections generation
    (fun w' quiet => safe w' image (.inl rfl) (quiet.2 ▸ on)) ?_ ?_
  · exact fun e s' w' quiet _ => failed _ s' w' image (.inl rfl) (quiet.2 ▸ on)
  · intro scan w₁ _ _ scanned slots built
    have stands {w' : World F} (same : ∀ name, name ≠ .wal → w'.disk.get name = w₁.disk.get name) :
        image.adopted.Stands w'.disk s.schema s.orderingKey := built.stands.others same
    refine wp_replayWalSteady built (fun w' same => safe w' _ (.inr rfl) (stands same)) ?_ ?_
    · exact fun e s' w' same => failed e s' w' _ (.inr rfl) (stands same)
    · intro s' w' units writer same replays
      have steady := ((built.steady.others same).replays replays).withWal writer
      have watermark := replays.watermark
      have grows := replayBirths_le
        (({ s with sections := image.adopted.sections } : Store F).opened scan image.total
        (recoveredWatermark image.sections.nextSequence scan.tombstones image.slots)).watermark units
      rw [← watermark, opened_watermark] at grows
      rw [image.adopted_visible] at steady
      obtain ⟨buffer, knowledge, count, frame⟩ := replays.frame
      subst frame
      exact done _ w' ⟨steady, rfl, rfl, rfl, rfl, built.lookup, rfl, grows⟩

theorem wp_openBackendSteady (unfilled : s.Unfilled) (on : image.Stands w.disk s.schema s.orderingKey)
    (safe : ∀ w' held, held = image ∨ held = image.adopted →
      held.Stands w'.disk s.schema s.orderingKey → crash w')
    (failed : ∀ e s' w' held, held = image ∨ held = image.adopted →
      held.Stands w'.disk s.schema s.orderingKey →
      post (.error e) s' w')
    (done : ∀ s' w', s.Restarts image s' w'.disk → post (.ok ()) s' w') :
    Fallible.wp backend allow crash openBackend post s w := by
  simp only [openBackend, readManifest, Fallible.wp_bind, Fallible.wp_read, Io.wp_find]
  refine ⟨safe w image (.inl rfl) on, fun _ => ?_, fun left _ => failed _ _ _ image (.inl rfl) on⟩
  rw [on.layout.manifest]
  simp only [ne_eq, not_true_eq_false, if_false, Fallible.wp_update]
  refine @wp_openLayoutSteady F _ _ _ _ _ image _
    ⟨unfilled.writable, unfilled.keyed, unfilled.threshold, unfilled.buffer, unfilled.unlogged⟩ on
      rfl rfl safe failed ?_
  exact fun s' w' restarts => done s' w' ⟨restarts.steady, restarts.schema, restarts.orderingKey,
    restarts.segmentRows,
    restarts.persistent, restarts.kills, restarts.nextSequence, restarts.watermark⟩

theorem wp_createSteady (unfilled : s.Unfilled) (sections : s.sections = .empty)
    (generation : s.generation = 0)
    (blank : w.disk.Blank)
    (safe : ∀ w', w'.disk.Blank ∨ Image.blank.Stands w'.disk s.schema s.orderingKey → crash w')
    (failed : ∀ e s' w', w'.disk.Blank ∨ Image.blank.Stands w'.disk s.schema s.orderingKey →
      post (.error e) s' w')
    (done : ∀ s' w', s.Restarts Image.blank s' w'.disk → post (.ok ()) s' w') :
    Fallible.wp backend allow crash openBackend post s w := by
  simp only [openBackend, readManifest, Fallible.wp_bind, Fallible.wp_read, Io.wp_find]
  refine ⟨safe w (.inl blank), fun _ => ?_, fun left _ => failed _ _ _ (.inl blank)⟩
  rw [show (w.disk.get .manifest) = none from blank .manifest]
  simp only [Io.wp_write]
  refine ⟨safe _ (.inl blank), fun _ => ?_, fun left _ => failed _ _ _ (.inl blank)⟩
  have on : Image.blank.Stands ((w.did (.read .manifest) .ok).did
      (.write .manifest (.manifest ⟨s.schema, s.orderingKey, 0, .empty⟩)) .ok).disk s.schema
      s.orderingKey :=
    (blank.on s.schema s.orderingKey).stands
  -- Without visible segments there is no orphan to record.
  have adopted : (Image.blank : Image F).adopted = Image.blank := rfl
  refine wp_openLayoutSteady unfilled on sections generation ?_ ?_ done
  · rintro w' held (rfl | rfl) stands
    · exact safe w' (.inr stands)
    · exact safe w' (.inr (adopted ▸ stands))
  · rintro e s' w' held (rfl | rfl) stands
    · exact failed e s' w' (.inr stands)
    · exact failed e s' w' (.inr (adopted ▸ stands))

end Open

/-- The same table under the same threshold. -/
structure Kin (s s' : Store F) : Prop where
  schema : s'.schema = s.schema
  orderingKey : s'.orderingKey = s.orderingKey
  persistent : s'.persistent = s.persistent
  segmentRows : s'.segmentRows = s.segmentRows

omit [F64 F] in
theorem Kin.trans {first second third : Store F} (left : first.Kin second)
    (right : second.Kin third) : first.Kin third :=
  ⟨right.schema.trans left.schema, right.orderingKey.trans left.orderingKey,
    right.persistent.trans left.persistent,
    right.segmentRows.trans left.segmentRows⟩

theorem Settles.kin {s' : Store F} {segments' : List (Segment F)}
    (settles : s.Settles segments s' segments') : s.Kin s' := by
  obtain ⟨sections, slots, buffer, bufferBase, knowledge, wal, same⟩ := settles.frame
  subst same
  exact ⟨rfl, rfl, rfl, rfl⟩

omit [F64 F] in
theorem Replays.kin {s' : Store F} {units : List (Replayed F)}
    (replays : s.Replays units s') : s.Kin s' := by
  obtain ⟨buffer, knowledge, rows, same⟩ := replays.frame
  subst same
  exact ⟨rfl, rfl, rfl, rfl⟩

theorem Conduct.kin {op : Op F} {result : Except StorageError Nat} {s' : Store F}
    {segments' past' : List (Segment F)}
    (conduct : s.Conduct segments past op result s' segments' past') : s.Kin s' := by
  cases conduct with
  | still _ _ _ _ settles _ => exact settles.kin
  | append row valid _ _ _ settles _ =>
    have taken : s.Kin (s.taken row valid) := ⟨rfl, rfl, rfl, rfl⟩
    exact taken.trans settles.kin
  | tombstone ids first _ _ settles _ => exact settles.kin.trans ⟨rfl, rfl, rfl, rfl⟩
  | partial_ done rest victims e first mid _ segments₁ _ settles takes after =>
      exact settles.kin.trans (takes.kin.trans after.kin)
  | supersede rows victims _ first mid committed _ segments₁ segments₂ _ _ settles takes after _
      _ finally_ _ =>
    have killing : committed.Kin (committed.killing (s.newlyDead victims) s.watermark) :=
      ⟨rfl, rfl, rfl, rfl⟩
    exact settles.kin.trans (takes.kin.trans (after.kin.trans (killing.trans finally_.kin)))
  | compact all merged writer _ _ _ _ _ => exact ⟨rfl, rfl, rfl, rfl⟩

theorem withSegmentRows_steady {segmentRows : Nat}
    (made : withSegmentRows schema orderingKey segmentRows = .ok s) :
    s.schema = schema ∧ s.orderingKey = orderingKey ∧ s.Steady disk [] [] ∧
    s.sections = .empty ∧ s.rows = 0 ∧
      s.tombstones = [] ∧ s.buffer.rows = [] ∧ s.knowledge = none := by
  unfold withSegmentRows WriteBuffer.new at made
  split at made
  · cases made
  · next positive =>
    cases keyed : schema.checkOrderingKey orderingKey with
    | error e =>
      rw [keyed] at made
      cases made
    | ok _ =>
      rw [keyed] at made
      obtain rfl := Except.ok.inj made
      refine ⟨rfl, rfl, ⟨?_, nofun⟩, rfl, rfl, rfl, rfl, rfl⟩
      exact {
        writable := rfl
        keyed
        threshold := Nat.pos_of_ne_zero positive
        bufferSchema := rfl
        bufferKey := rfl
        axis := ⟨rfl, nofun, nofun⟩
        slots := .nil
        segmentsOk := by simp
        covers := rfl
        below := by simp [bufferBirths, WriteBuffer.empty, WriteBuffer.len]
        killed := by simp [isKilled, killedAt]
        history := .nil
        pastOk := by simp
        remembered := rfl
        virtual := by simp
        inOrder := WriteBuffer.empty_inOrder _ _ }

end Store

/-! ### Every run -/

/-- A situation of any run, of a table on a disk or of one in memory. -/
inductive Reached (rules : Rules F) (schema : Schema) (orderingKey : Nat)
    (options : StoreOptions → Prop)
    (allow : World F → Call F → Outcome → Prop) : Situation F → Prop where
  | memory {segmentRows : Nat} {store : Store F} {events : List (Event F)} {situation : Situation F}
      (made : Store.withSegmentRows schema orderingKey segmentRows = .ok store)
      (life : Life rules (.up store .empty) events situation) :
        Reached rules schema orderingKey options allow situation
  | stored {events : List (Event F)} {situation : Situation F}
      (run : Run rules schema orderingKey options allow events situation) :
        Reached rules schema orderingKey options allow situation

/-- What holds of a store between operations, and what it leaves to the next open. -/
structure Upholds (asks : Store F → Disk F → Op F → Prop) (schema : Schema) (orderingKey : Nat)
    (p : Image F → Prop)
    (q : Store F → List (Segment F) → List (Segment F) → Prop) : Prop where
  performs : ∀ {s s' : Store F} {disk disk' : Disk F}
    {segments past segments' past' : List (Segment F)} {op : Op F}
    {result : Except StorageError Nat}, s.Steady disk segments past → q s segments past →
      asks s disk op →
    s.Conduct segments past op result s' segments' past' → s'.Steady disk' segments' past' →
      q s' segments' past'
  falls : ∀ {s : Store F} {disk : Disk F} {segments past : List (Segment F)},
    s.Steady disk segments past → q s segments past →
    s.persistent = true → p (s.left disk segments past)
  adopted : ∀ {image : Image F}, p image → p image.adopted
  blank : p .blank
  restarts : ∀ {image : Image F} {fresh s : Store F} {disk disk' : Disk F},
    image.Stands disk schema orderingKey → p image →
    fresh.Restarts image s disk' → q s image.visible image.past
  fresh : ∀ {s : Store F} {segmentRows : Nat},
    Store.withSegmentRows schema orderingKey segmentRows = .ok s → q s [] []

/-- A steady store of a table of which `q` holds. -/
structure Store.Upheld (s : Store F) (disk : Disk F) (schema : Schema) (orderingKey : Nat)
    (q : Store F → List (Segment F) → List (Segment F) → Prop) : Prop where
  schema : s.schema = schema
  orderingKey : s.orderingKey = orderingKey
  steady : ∃ segments past, s.Steady disk segments past ∧ q s segments past

/-- A disk that an open finds blank, or with an image of which `p` holds. -/
def Disk.Upright (disk : Disk F) (schema : Schema) (orderingKey : Nat) (p : Image F → Prop) : Prop :=
  disk.Blank ∨ ∃ image : Image F, image.Stands disk schema orderingKey ∧ p image

section Upholds

variable {asks : Store F → Disk F → Op F → Prop} {p : Image F → Prop}
variable {q : Store F → List (Segment F) → List (Segment F) → Prop}

theorem Disk.Upright.falls (upright : disk.Upright schema orderingKey p) (survivors : Nat)
    (torn : Bool) :
    (disk.crash survivors torn).Upright schema orderingKey p :=
  upright.imp (·.falls survivors torn) fun ⟨image, on, holds⟩ =>
    ⟨image, on.fallen survivors torn, holds⟩

namespace Upholds

theorem upright (upholds : Upholds asks schema orderingKey p q)
    (upheld : s.Upheld disk schema orderingKey q)
    (stored : s.persistent = true) : disk.Upright schema orderingKey p := by
  obtain ⟨rfl, rfl, segments, past, steady, holds⟩ := upheld
  exact .inr ⟨_, steady.stands stored, upholds.falls steady holds stored⟩

/-- An operation keeps a store upheld, at its end and where it may stop. -/
theorem wp_perform (upholds : Upholds asks schema orderingKey p q)
    (upheld : s.Upheld disk schema orderingKey q) {op : Op F}
    (asked : asks s disk op) {post : Except StorageError Nat → Store F → World F → Prop}
    (safe : ∀ (s' : Store F) (w' : World F), s'.Upheld w'.disk schema orderingKey q →
      s'.persistent = s.persistent → crash w')
    (ends : ∀ result (s' : Store F) (w' : World F), s'.Upheld w'.disk schema orderingKey q →
      s'.persistent = s.persistent → post result s' w') :
    Fallible.wp backend allow crash op.perform post s ⟨disk, []⟩ := by
  obtain ⟨rfl, rfl, segments, past, steady, holds⟩ := upheld
  have kept (result : Except StorageError Nat) (s' : Store F) (w' : World F)
    (segments' past' : List (Segment F))
      (conduct : s.Conduct segments past op result s' segments' past')
        (steady' : s'.Steady w'.disk segments' past') :
      s'.Upheld w'.disk s.schema s.orderingKey q ∧ s'.persistent = s.persistent := by
    have kin := conduct.kin
    exact ⟨⟨kin.schema, kin.orderingKey, _, _, steady',
      upholds.performs steady holds asked conduct steady'⟩, kin.persistent⟩
  refine Store.wp_conduct (w := ⟨disk, []⟩) steady ?_ ?_
  · intro result s' w' segments' past' conduct steady'
    obtain ⟨upheld, stored⟩ := kept result s' w' segments' past' conduct steady'
    exact safe s' w' upheld stored
  · intro result s' w' segments' past' conduct steady'
    obtain ⟨upheld, stored⟩ := kept result s' w' segments' past' conduct steady'
    exact ends result s' w' upheld stored

/-- An open ends in an upheld store, or leaves the disk upright. -/
theorem wp_boot (upholds : Upholds asks schema orderingKey p q)
    (upright : disk.Upright schema orderingKey p)
    {chosen : StoreOptions} {post : Except StorageError (Store F) → World F → Prop}
    (safe : ∀ w', w'.disk.Upright schema orderingKey p → crash w')
    (failed : ∀ e w', w'.disk.Upright schema orderingKey p → post (.error e) w')
    (done : ∀ (s : Store F) (w' : World F), s.Upheld w'.disk schema orderingKey q →
      s.persistent = true → post (.ok s) w') :
    Program.wp backend allow crash (Store.persistentWith schema orderingKey chosen) post
      ⟨disk, []⟩ := by
  refine Store.wp_persistentWith (fun e _ => failed e _ upright) fun fresh made => ?_
  obtain ⟨unfilled, rfl, rfl, -, generation, sections⟩ := Store.unopened_unfilled made
  have onward {image : Image F} {disk' : Disk F}
    (on : image.Stands disk' fresh.schema fresh.orderingKey) (holds : p image)
      (s : Store F) (w' : World F) (restarts : fresh.Restarts image s w'.disk) : post (.ok s) w' :=
    done s w' ⟨restarts.schema, restarts.orderingKey, _, _, restarts.steady,
      upholds.restarts on holds restarts⟩ restarts.persistent
  rcases upright with blank | ⟨image, on, holds⟩
  · have fallen {w' : World F} (which : w'.disk.Blank ∨
      Image.blank.Stands w'.disk fresh.schema fresh.orderingKey) :
        w'.disk.Upright fresh.schema fresh.orderingKey p :=
          which.imp_right fun on => ⟨_, on, upholds.blank⟩
    refine Store.wp_createSteady unfilled sections generation blank
      (fun w' which => safe w' (fallen which)) ?_ ?_
    · exact fun e s' w' which => failed e w' (fallen which)
    · exact onward (blank.on fresh.schema fresh.orderingKey).stands upholds.blank
  · have fallen {w' : World F} {held : Image F} (which : held = image ∨ held = image.adopted)
        (on' : held.Stands w'.disk fresh.schema fresh.orderingKey) :
          w'.disk.Upright fresh.schema fresh.orderingKey p := by
      refine .inr ⟨held, on', ?_⟩
      rcases which with rfl | rfl
      · exact holds
      · exact upholds.adopted holds
    refine Store.wp_openBackendSteady unfilled on
      (fun w' held which on' => safe w' (fallen which on')) ?_ ?_
    · exact fun e s' w' held which on' => failed e w' (fallen which on')
    · exact onward on holds

end Upholds

/-- What holds of the store, where one is up. -/
def Situation.Holds (holds : Store F → Disk F → Prop) : Situation F → Prop
  | .up store disk => holds store disk
  | .down _ => True

def Situation.Upheld (schema : Schema) (orderingKey : Nat) (p : Image F → Prop)
    (q : Store F → List (Segment F) → List (Segment F) → Prop) :
    Situation F → Prop
  | .up store disk => store.Upheld disk schema orderingKey q ∧ store.persistent = true
  | .down disk => disk.Upright schema orderingKey p

variable {rules : Rules F} {options : StoreOptions → Prop} {events : List (Event F)}
  {situation : Situation F}

theorem Run.upheld (upholds : Upholds rules.asks schema orderingKey p q)
    (run : Run rules schema orderingKey options allow events situation) :
    situation.Upheld schema orderingKey p q := by
  refine Run.invariant (fun _ situation => situation.Upheld schema orderingKey p q)
    (fun _ blank => .inl blank) ?_ ?_ ?_ run
  · rintro events store disk op ⟨upheld, stored⟩ asked
    refine upholds.wp_perform upheld asked (fun s' w' upheld' same survivors torn => ?_)
      fun result s' w' upheld' same => ?_
    · exact (upholds.upright upheld' (same.trans stored)).falls survivors torn
    · exact ⟨upheld', same.trans stored⟩
  · rintro events store disk survivors torn ⟨upheld, stored⟩
    exact (upholds.upright upheld stored).falls survivors torn
  · intro events disk chosen upright fits
    exact upholds.wp_boot upright (fun w' upright' => upright'.falls)
      (fun e w' upright' => upright'.falls)
      fun s w' upheld stored => ⟨upheld, stored⟩

/-- An upheld store stays upheld for a lifetime. -/
theorem Life.upheld {start : Situation F} (upholds : Upholds rules.asks schema orderingKey p q)
    (first : start.Holds fun store disk => store.Upheld disk schema orderingKey q)
    (life : Life rules start events situation) :
    situation.Holds fun store disk => store.Upheld disk schema orderingKey q := by
  refine Life.invariant (fun _ situation => situation.Holds fun store disk =>
    store.Upheld disk schema orderingKey q) first ?_
    (fun _ _ _ _ _ _ => trivial) life
  intro events store disk op upheld asked
  exact upholds.wp_perform upheld asked (fun _ _ _ _ _ _ => trivial) fun result s' w' upheld' _ =>
    upheld'

theorem Reached.upheld {store : Store F} (upholds : Upholds rules.asks schema orderingKey p q)
    (reached : Reached rules schema orderingKey options allow (.up store disk)) :
    store.Upheld disk schema orderingKey q := by
  cases reached with
  | memory made life =>
    refine Life.upheld upholds ?_ life
    obtain ⟨rfl, rfl, steady, -⟩ := @Store.withSegmentRows_steady F _ _ .empty _ _ _ made
    exact ⟨rfl, rfl, [], [], steady, upholds.fresh made⟩
  | stored run => exact (run.upheld upholds).1

end Upholds

end TallyDB
