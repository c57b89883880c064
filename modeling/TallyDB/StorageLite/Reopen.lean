import TallyDB.StorageLite.Generation

/-!
# Opening what a crash left

Opening reads an image back: its segments by name, its kills from the delete logs, its units
from the log, which is then replaced by one of those units alone.
-/

namespace TallyDB

open Crash

variable {F : Type} [F64 F] {allow : World F → Call F → Outcome → Prop} {crash : World F → Prop}
variable {s : Store F} {w : World F} {image : Image F}

/-! ### Disks at rest -/

/-- A log without unsynced records. -/
def Disk.Calm (disk : Disk F) : Prop :=
  ∀ file, disk.get .wal = some (.log file) → file.synced = file.frames.length

omit [F64 F] in
theorem Disk.calm_crash (disk : Disk F) (survivors : Nat) (torn : Bool) :
    (disk.crash survivors torn).Calm := by
  intro file held
  unfold Disk.crash at held
  split at held
  · rw [Disk.get_insert, if_pos rfl] at held
    obtain rfl := Object.log.inj (Option.some.inj held)
    rfl
  · next other => exact absurd held (other file)

omit [F64 F] in
theorem Disk.Calm.get_crash {disk : Disk F} (calm : disk.Calm) (survivors : Nat) (torn : Bool)
    (name : ObjectName) :
    (disk.crash survivors torn).get name = disk.get name := by
  by_cases own : name = .wal
  · subst own
    unfold Disk.crash
    split
    · next file held =>
      rw [Disk.get_insert, if_pos rfl, held]
      have all := calm file held
      have kept : file.frames.take (file.synced + survivors) = file.frames :=
        List.take_of_length_le (by omega)
      simp only [kept, Nat.lt_irrefl, decide_false, Bool.and_false, Bool.false_eq_true, if_false, ← all]
    · rfl
  · exact Disk.get_crash_other survivors torn own

theorem Image.On.congr {disk other : Disk F} {schema : Schema} {orderingKey : Nat}
    (on : image.On disk schema orderingKey)
    (same : ∀ name, other.get name = disk.get name) : image.On other schema orderingKey where
  layout := on.layout.frame fun name _ => same name
  orphans bare base object := by
    rw [same]
    exact on.orphans bare base object
  alone := on.alone
  committed sequence := (on.committed sequence).trans (Committed.frame fun number => same _).symm
  witnessed := on.witnessed
  log := by
    have log := on.log
    unfold Image.LogOn at log ⊢
    rwa [same]
  covers := on.covers
  segments := on.segments
  past := on.past
  killed := on.killed
  valid := on.valid
  ordinary := on.ordinary

/-- The replayed units that no delete log commits. -/
def Image.pending (image : Image F) : List (Replayed F) :=
  image.replay.filter fun unit => ¬ unit.Counts image.committed

omit [F64 F] in
theorem Image.within_pending (image : Image F) : image.Within image.pending := fun unit member _ => by
  by_cases counts : unit.Counts image.committed
  · exact .inl counts
  · exact .inr (List.mem_filter.mpr ⟨member, by simpa using counts⟩)

theorem Image.On.recovers {disk : Disk F} {schema : Schema} {orderingKey : Nat} {p : Ledger F → Prop}
    (on : image.On disk schema orderingKey) (calm : disk.Calm) (holds : p image.ledger) :
    disk.Recovers schema orderingKey image.pending p :=
  fun survivors torn => ⟨image, on.congr (calm.get_crash survivors torn), image.within_pending, holds⟩

/-! ### The slots of an image -/

namespace Image

/-- The slots that an open finds: one for each recorded segment, or for the orphan. -/
def slots (image : Image F) : List (SegmentSlot F) :=
  image.recorded.map
    (fun segment => .lazy (.of (.segment image.generation segment.baseRowId) segment)) ++
    image.orphan.toList.map fun segment => .ofSegment segment (some (.segment image.generation 0))

variable {disk : Disk F} {schema : Schema} {orderingKey : Nat}

omit [F64 F] in
theorem slots_info (image : Image F) : image.slots.map (·.info) = image.visible.map SegmentMeta.of := by
  simp [slots, visible, SegmentSlot.lazy, SegmentSlot.ofSegment, SegmentMeta.fromRecord_of,
    Function.comp_def]

end Image

namespace Store

omit [F64 F] in
theorem contiguous_slots {base last : Nat} {slots : List (SegmentSlot F)} {segments : List (Segment F)}
    (infos : slots.map (·.info) = segments.map SegmentMeta.of) (covers : Covers base segments last) :
    contiguous base slots = .ok last := by
  induction segments generalizing base slots with
  | nil =>
    obtain rfl : slots = [] := by simpa using infos
    have same : base = last := covers
    rw [contiguous, same]
  | cons segment rest ih =>
    cases slots with
    | nil => simp at infos
    | cons slot slots =>
      obtain ⟨start, after⟩ := covers
      obtain ⟨info, infos⟩ : slot.info = .of segment ∧
          slots.map (·.info) = rest.map SegmentMeta.of := by
        simpa using infos
      have base' : slot.info.baseRowId = base := by rw [info]; exact start
      have rows : slot.info.rows = segment.numRows := by rw [info]; rfl
      rw [contiguous, if_neg (by simp [base']), rows]
      exact ih infos after

omit [F64 F] in
theorem recordedSlots_ok {listing : List ObjectName} {records : List (SegmentRecord F)}
    (listed : ∀ record ∈ records, record.name ∈ listing) :
    recordedSlots listing records = .ok (records.map .lazy) := by
  induction records with
  | nil => rfl
  | cons record records ih =>
    rw [recordedSlots, if_pos (listed record List.mem_cons_self),
      ih fun other member => listed other (List.mem_cons_of_mem _ member)]
    rfl

omit [F64 F] in
theorem sorted_slots {base last : Nat} {slots : List (SegmentSlot F)} {segments : List (Segment F)}
    (infos : slots.map (·.info) = segments.map SegmentMeta.of) (covers : Covers base segments last) :
    (slots.insertionSort fun left right => left.info.baseRowId ≤ right.info.baseRowId) = slots := by
  have bases : (segments.map Segment.baseRowId).Pairwise (· ≤ ·) ∧ ∀ segment ∈ segments,
      base ≤ segment.baseRowId := by
    induction segments generalizing base slots with
    | nil => simp
    | cons segment rest ih =>
      cases slots with
      | nil => simp at infos
      | cons slot slots =>
        obtain ⟨start, after⟩ := covers
        obtain ⟨-, infos⟩ : slot.info = .of segment ∧ slots.map (·.info) = rest.map SegmentMeta.of := by
          simpa using infos
        obtain ⟨sorted, above⟩ := ih infos after
        refine ⟨List.pairwise_cons.mpr ⟨fun other member => ?_, sorted⟩, fun other member => ?_⟩
        · obtain ⟨later, inside, rfl⟩ := List.mem_map.mp member
          have low := above later inside
          omega
        · rcases List.mem_cons.mp member with rfl | inside
          · exact start.ge
          · have low := above other inside
            omega
  refine List.Pairwise.insertionSort_eq ?_
  have same : slots.map (fun slot => slot.info.baseRowId) = segments.map Segment.baseRowId := by
    have mapped := congrArg (List.map SegmentMeta.baseRowId) infos
    simpa [Function.comp_def, SegmentMeta.of] using mapped
  have sorted := bases.1
  rw [← same] at sorted
  exact List.pairwise_map.mp sorted

theorem mem_of_lookup {kills : Tombstones} {id stamp : Nat} (found : kills.lookup id = some stamp) :
    (id, stamp) ∈ kills := by
  obtain ⟨first, rest, same, -⟩ := List.lookup_eq_some_iff.mp found
  rw [same]
  simp

theorem not_mem_of_lookup {kills : Tombstones} {id : Nat} (absent : kills.lookup id = none)
    (stamp : Nat) :
    (id, stamp) ∉ kills := fun member => by
  have different := List.lookup_eq_none_iff.mp absent _ member
  simp at different

/-! ### The listing -/

structure Scanning (image : Image F) (disk : Disk F) (done : List ObjectName)
    (scan : Scan F) : Prop where
  slots : scan.slots = if image.recorded = [] ∧ .segment image.generation 0 ∈ done then
    image.orphan.toList.map fun segment =>
      .ofSegment segment (some (.segment image.generation 0)) else []
  kills : ∀ id stamp, (id, stamp) ∈ scan.tombstones ↔ ∃ number log,
    .deleteLog image.generation number ∈ done ∧
    disk.get (.deleteLog image.generation number) = some (.deleteLog log) ∧ id ∈ log.ids ∧
      log.stampedAt = stamp
  committed : ∀ sequence, sequence ∈ scan.committed ↔ sequence ≠ 0 ∧ ∃ number log,
    .deleteLog image.generation number ∈ done ∧
    disk.get (.deleteLog image.generation number) = some (.deleteLog log) ∧ log.superseding = sequence
  numbers : ∀ number, .deleteLog image.generation number ∈ done → number < scan.nextSequence

omit [F64 F] in
/-- A name of no delete log and no segment that counts adds nothing. -/
theorem Scanning.skip {disk : Disk F} {done : List ObjectName} {scan : Scan F} {name : ObjectName}
    (sofar : Scanning image disk done scan)
    (noLog : ∀ number, name ≠ .deleteLog image.generation number)
    (noSegment : image.recorded = [] → name ≠ .segment image.generation 0) :
    Scanning image disk (done ++ [name]) scan := by
  have logs (number : Nat) : .deleteLog image.generation number ∈ done ++ [name] ↔
      .deleteLog image.generation number ∈ done := by
    rw [List.mem_append, List.mem_singleton]
    exact or_iff_left fun same => noLog number same.symm
  refine ⟨?_, ?_, ?_, ?_⟩
  · rw [sofar.slots]
    refine if_congr (and_congr_right fun bare => ?_) rfl rfl
    rw [List.mem_append, List.mem_singleton]
    exact (or_iff_left fun same => noSegment bare same.symm).symm
  · simp only [logs]
    exact sofar.kills
  · simp only [logs]
    exact sofar.committed
  · simp only [logs]
    exact sofar.numbers

omit [F64 F] in
theorem Scanning.deleteLog {disk : Disk F} {done : List ObjectName} {scan : Scan F} {number : Nat}
    {log : DeleteLog}
    (sofar : Scanning image disk done scan)
    (held : disk.get (.deleteLog image.generation number) = some (.deleteLog log)) :
    Scanning image disk (done ++ [.deleteLog image.generation number]) { scan with
      tombstones := log.ids.map (·, log.stampedAt) ++ scan.tombstones
      committed := if log.superseding ≠ 0 then log.superseding :: scan.committed else scan.committed
      nextSequence := max scan.nextSequence (number + 1) } := by
  have logs (other : Nat) : .deleteLog image.generation other ∈ done ++
    [.deleteLog image.generation number] ↔
      .deleteLog image.generation other ∈ done ∨ other = number := by
    simp
  refine ⟨?_, fun id stamp => ?_, fun sequence => ?_, fun other member => ?_⟩
  · rw [sofar.slots]
    simp
  · simp only [logs, List.mem_append, List.mem_map, Prod.mk.injEq, sofar.kills]
    constructor
    · rintro (⟨dead, member, rfl, rfl⟩ | ⟨other, old, inside, rest⟩)
      · exact ⟨number, log, .inr rfl, held, member, rfl⟩
      · exact ⟨other, old, .inl inside, rest⟩
    · rintro ⟨other, old, inside | rfl, found, member, stamped⟩
      · exact .inr ⟨other, old, inside, found, member, stamped⟩
      · obtain rfl := Object.deleteLog.inj (Option.some.inj (held.symm.trans found))
        exact .inl ⟨id, member, rfl, stamped⟩
  · have old := sofar.committed sequence
    simp only [logs]
    constructor
    · intro member
      split at member
      · next nonzero =>
        rcases List.mem_cons.mp member with rfl | rest
        · exact ⟨nonzero, number, log, .inr rfl, held, rfl⟩
        · obtain ⟨positive, other, earlier, inside, found⟩ := old.mp rest
          exact ⟨positive, other, earlier, .inl inside, found⟩
      · obtain ⟨positive, other, earlier, inside, found⟩ := old.mp member
        exact ⟨positive, other, earlier, .inl inside, found⟩
    · rintro ⟨positive, other, earlier, inside | rfl, found, same⟩
      · have member := old.mpr ⟨positive, other, earlier, inside, found, same⟩
        split
        · exact List.mem_cons_of_mem _ member
        · exact member
      · obtain rfl := Object.deleteLog.inj (Option.some.inj (held.symm.trans found))
        rw [if_pos (same ▸ positive), same]
        exact List.mem_cons_self
  · rcases (logs other).mp member with old | rfl
    · exact Nat.lt_of_lt_of_le (sofar.numbers other old) (Nat.le_max_left _ _)
    · exact Nat.lt_of_lt_of_le (Nat.lt_succ_self _) (Nat.le_max_right _ _)

omit [F64 F] in
theorem Scanning.orphan {disk : Disk F} {done : List ObjectName} {scan : Scan F} {segment : Segment F}
    (sofar : Scanning image disk done scan) (bare : image.recorded = [])
    (found : image.orphan = some segment)
    (fresh : .segment image.generation 0 ∉ done) :
    Scanning image disk (done ++ [.segment image.generation 0])
      { scan with slots := scan.slots ++ [.ofSegment segment (some (.segment image.generation 0))] } := by
  have logs (number : Nat) : .deleteLog image.generation number ∈ done ++
    [.segment image.generation 0] ↔
      .deleteLog image.generation number ∈ done := by
    simp
  refine ⟨?_, ?_, ?_, ?_⟩
  · rw [sofar.slots, if_neg (fun both => fresh both.2), if_pos ⟨bare, by simp⟩, found]
    rfl
  · simp only [logs]
    exact sofar.kills
  · simp only [logs]
    exact sofar.committed
  · simp only [logs]
    exact sofar.numbers

structure Scanned (image : Image F) (disk : Disk F) (scan : Scan F) : Prop where
  slots : scan.slots = image.slots
  kills : ∀ id stamp, (id, stamp) ∈ scan.tombstones ↔ image.kills.lookup id = some stamp
  committed : ∀ sequence, sequence ∈ scan.committed ↔ sequence ∈ image.committed
  numbers : ∀ number object, disk.get (.deleteLog image.generation number) = some object →
    number < scan.nextSequence

theorem wp_scanName {name : ObjectName} {done : List ObjectName} {scan : Scan F}
    {post : Except StorageError (Scan F) → Store F → World F → Prop}
    (on : image.Stands w.disk s.schema s.orderingKey)
    (present : (w.disk.get name).isSome) (fresh : name ∉ done) (sofar : Scanning image w.disk done scan)
    (safe : crash w)
    (unread : ∀ w', Quiet w w' → ScanFails allow w → post (.error (.io (.backend .read))) s w')
    (next : ∀ scan' w', Quiet w w' → Scanning image w.disk (done ++ [name]) scan' →
      post (.ok scan') s w') :
    Fallible.wp backend allow crash
      (scanName image.generation (!image.recorded.isEmpty) scan name) post s w := by
  obtain ⟨object, held⟩ := Option.isSome_iff_exists.mp present
  cases name with
  | deleteLog own number =>
    simp only [scanName]
    split
    · next same =>
      subst same
      obtain ⟨-, log, rfl, -⟩ := on.layout.deleteLogs number object held
      simp only [readDeleteLog, Fallible.wp_bind, Io.wp_read]
      refine ⟨safe, fun _ => ?_, fun left allowed => ?_⟩
      · simp only [held, Fallible.wp_ofExcept]
        exact next _ _ ⟨World.trace_did w _ _, rfl⟩ (sofar.deleteLog held)
      · exact unread _ ⟨World.trace_did w _ _, rfl⟩ ⟨w, _, left, List.prefix_rfl,
          .inr (.inl ⟨_, rfl⟩), allowed⟩
    · next other =>
      exact next scan w (.refl w) (sofar.skip (fun number same => other (by simp_all)) (by simp))
  | segment own base =>
    simp only [scanName]
    split
    · next skipped =>
      refine next scan w (.refl w) (sofar.skip (by simp) fun bare same => ?_)
      obtain ⟨rfl, rfl⟩ : own = image.generation ∧ base = 0 := by simpa using same
      simp [bare] at skipped
    · next counts =>
      obtain ⟨bare, rfl⟩ : image.recorded = [] ∧ own = image.generation := by simpa using counts
      obtain ⟨rfl, segment, orphan, rfl⟩ := (on.orphans bare base object).mp held
      have ok := on.segments segment (by simp [Image.visible, orphan])
      simp only [readScanned, Fallible.wp_bind, Fallible.wp_read, Io.wp_read]
      refine ⟨safe, fun _ => ?_, fun left allowed => ?_⟩
      · have passes : checkFaulted s.schema (.segment image.generation 0) none (.segment segment) =
            .ok segment := by
          simp [checkFaulted, ok.schema]
        simp only [held, Fallible.wp_ofExcept, passes]
        simp only [bind, Except.bind, ok.orderingKey, ne_eq, not_true_eq_false, if_false]
        exact next _ _ ⟨World.trace_did w _ _, rfl⟩ (sofar.orphan bare orphan fresh)
      · exact unread _ ⟨World.trace_did w _ _, rfl⟩ ⟨w, _, left, List.prefix_rfl,
          .inr (.inl ⟨_, rfl⟩), allowed⟩
  | _ => exact next scan w (.refl w) (sofar.skip (by simp) (by simp))

/-- The scan of every name, with the slots of the records in their places, is the image's. -/
theorem Scanning.scanned {disk : Disk F} {schema : Schema} {orderingKey : Nat} {scan : Scan F}
    {records : List (SegmentRecord F)} (on : image.Stands disk schema orderingKey)
    (records_ : records = image.sections.segments) (all : Scanning image disk disk.names scan) :
    Scanned image disk { scan with
      slots := (scan.slots ++ records.map SegmentSlot.lazy).insertionSort fun left right =>
        left.info.baseRowId ≤ right.info.baseRowId } := by
  have present (name : ObjectName) : name ∈ disk.names ↔ (disk.get name).isSome := Disk.mem_names
  refine ⟨?_, ?_, ?_, ?_⟩
  · have scanned : scan.slots = image.orphan.toList.map fun segment =>
        .ofSegment segment (some (.segment image.generation 0)) := by
      rw [all.slots]
      split
      · rfl
      · next other =>
        cases found : image.orphan with
        | none => rfl
        | some segment =>
          have bare : image.recorded = [] := by
            by_contra some
            simp [on.alone some] at found
          have held := (on.orphans bare 0 _).mpr ⟨rfl, segment, found, rfl⟩
          exact absurd ⟨bare, (present _).mpr (by rw [held]; rfl)⟩ other
    have slots : scan.slots ++ records.map .lazy = image.slots := by
      rw [scanned, records_, on.layout.records, List.map_map]
      by_cases bare : image.recorded = []
      · simp [Image.slots, bare]
      · simp [Image.slots, on.alone bare]
    rw [slots]
    exact sorted_slots image.slots_info on.covers
  · intro id stamp
    rw [all.kills]
    constructor
    · rintro ⟨number, log, -, held, member, rfl⟩
      obtain ⟨-, own, same, -, stamps⟩ := on.layout.deleteLogs number _ held
      obtain rfl := Object.deleteLog.inj same
      exact stamps id member
    · intro killed
      obtain ⟨number, log, held, member⟩ := on.layout.logged id stamp killed
      refine ⟨number, log, (present _).mpr (by rw [held]; rfl), held, member, ?_⟩
      obtain ⟨-, own, same, -, stamps⟩ := on.layout.deleteLogs number _ held
      obtain rfl := Object.deleteLog.inj same
      exact Option.some.inj ((stamps id member).symm.trans killed)
  · intro sequence
    rw [all.committed, on.committed]
    refine and_congr_right fun _ => exists_congr fun number => exists_congr fun log => ?_
    exact ⟨And.right, fun both => ⟨(present _).mpr (by rw [both.1]; rfl), both⟩⟩
  · exact fun number object held => all.numbers number ((present _).mpr (by rw [held]; rfl))

/-- The rule for reading a layout. -/
theorem wp_readLayout {post : Except StorageError (Scan F) → Store F → World F → Prop}
    (on : image.Stands w.disk s.schema s.orderingKey) (sections : s.sections = image.sections)
    (generation : s.generation = image.generation) (safe : ∀ w', Quiet w w' → crash w')
    (unread : ∀ e w', Quiet w w' → ScanFails allow w → post (.error (.io (.backend e))) s w')
    (done : ∀ scan w', Quiet w w' → Scanned image w.disk scan → post (.ok scan) s w') :
    Fallible.wp backend allow crash readLayout post s w := by
  have recorded : (!s.sections.segments.isEmpty) = !image.recorded.isEmpty := by
    rw [sections, on.layout.records]
    simp
  simp only [readLayout, Fallible.wp_bind, Fallible.wp_read, Io.wp_list, recorded, generation]
  refine ⟨safe w (.refl w), fun _ => ?_, fun left allowed => ?_⟩
  · let w₀ := w.did .list .ok
    have listed : Quiet w w₀ := ⟨World.trace_did w _ _, rfl⟩
    refine Fallible.wp_fold (fun scan rest s' w' => s' = s ∧ Quiet w w' ∧
      ∃ done, done ++ rest = w.disk.names ∧ Scanning image w.disk done scan)
      ⟨rfl, listed, [], rfl, by simp, by simp, by simp, by simp⟩ ?_ ?_
    · rintro scan name rest s' w' ⟨rfl, quiet, done, split, sofar⟩
      have member : name ∈ w.disk.names := by simp [← split]
      have fresh : name ∉ done := by
        have distinct : w.disk.names.Nodup := AList.keys_nodup w.disk.objects
        rw [← split, List.nodup_append] at distinct
        exact fun inside => distinct.2.2 name inside name List.mem_cons_self rfl
      have disk := quiet.2
      refine wp_scanName (by rw [disk]; exact on) (by rw [disk]; exact Disk.mem_names.mp member) fresh
        (by rw [disk]; exact sofar) (safe w' quiet) ?_ ?_
      · exact fun v later fails => unread .read v (quiet.trans later) (fails.earlier quiet.1)
      · intro scan' v later after
        rw [disk] at after
        exact ⟨rfl, quiet.trans later, done ++ [name], by simp [split], after⟩
    · rintro scan s' w' ⟨rfl, quiet, done_, split, all⟩
      rw [List.append_nil] at split
      subst split
      have names : ∀ record ∈ s'.sections.segments, record.name ∈ w.disk.names := by
        rw [sections, on.layout.records]
        intro record member
        obtain ⟨segment, inside, rfl⟩ := List.mem_map.mp member
        refine Disk.mem_names.mpr ?_
        change (w.disk.get (.segment image.generation segment.baseRowId)).isSome
        rw [on.layout.files segment inside]
        rfl
      simp only [Fallible.wp_ofExcept]
      rw [recordedSlots_ok names]
      exact done _ w' quiet (all.scanned on (congrArg ManifestSections.segments sections))
  · exact unread .list _ ⟨World.trace_did w _ _, rfl⟩ ⟨w, _, left, List.prefix_rfl, .inl rfl, allowed⟩

/-! ### The store over an image -/

structure Unfilled (store : Store F) : Prop where
  writable : store.readOnly = false
  keyed : store.schema.checkOrderingKey store.orderingKey = .ok ()
  threshold : 0 < store.segmentRows
  buffer : store.buffer = .empty store.schema store.orderingKey
  unlogged : store.wal = none

omit [F64 F] in
theorem unopened_unfilled {schema : Schema} {orderingKey : Nat} {options : StoreOptions}
    (made : unopened schema orderingKey options = .ok s) :
    s.Unfilled ∧ s.schema = schema ∧ s.orderingKey = orderingKey ∧ s.walSync = options.walSync ∧
      s.generation = 0 ∧ s.sections = .empty := by
  unfold unopened at made
  cases threshold : options.threshold schema with
  | error e =>
    rw [threshold] at made
    cases made
  | ok segmentRows =>
    rw [threshold] at made
    simp only [bind, Except.bind, withSegmentRows, WriteBuffer.new] at made
    split at made
    · cases made
    · next store built =>
      split at built
      · cases built
      · next positive =>
        cases keyed : schema.checkOrderingKey orderingKey with
        | error e =>
          rw [keyed] at built
          cases built
        | ok _ =>
          rw [keyed] at built
          obtain rfl := Except.ok.inj built
          obtain rfl := Except.ok.inj made
          exact ⟨⟨rfl, keyed, Nat.pos_of_ne_zero positive, rfl, rfl⟩, rfl, rfl, rfl, rfl, rfl⟩

theorem foldl_max_le_iff {xs : List Nat} {least bound : Nat} :
    xs.foldl max least ≤ bound ↔ least ≤ bound ∧ ∀ x ∈ xs, x ≤ bound := by
  induction xs generalizing least with
  | nil => simp
  | cons x xs ih =>
    rw [List.foldl_cons, ih]
    simp only [List.mem_cons, forall_eq_or_imp, Nat.max_le]
    exact and_assoc

omit [F64 F] in
/-- The watermark that an open recovers lies above every birth of its segments. -/
theorem recoveredWatermark_above {recorded : Option Nat} {tombstones : Tombstones}
    {slots : List (SegmentSlot F)}
    {segments : List (Segment F)} {next : Nat}
    (infos : slots.map (·.info) = segments.map SegmentMeta.of)
    (recovered : recoveredWatermark recorded tombstones slots = some next) :
    ∀ segment ∈ segments, segment.sequenceEnd ≤ next := by
  have ends : slots.map (·.info.sequenceEnd) = segments.map Segment.sequenceEnd := by
    have mapped := congrArg (List.map SegmentMeta.sequenceEnd) infos
    simpa [Function.comp_def, SegmentMeta.of] using mapped
  unfold recoveredWatermark at recovered
  simp only at recovered
  split at recovered
  · have same := Option.some.inj recovered
    rw [ends] at same
    intro segment member
    exact (foldl_max_le_iff.mp same.le).2 _ (List.mem_map_of_mem member)
  · cases recovered

omit [F64 F] in
theorem recoveredWatermark_virtual {recorded : Option Nat} {tombstones : Tombstones}
    {slots : List (SegmentSlot F)}
    {segments : List (Segment F)} (infos : slots.map (·.info) = segments.map SegmentMeta.of)
    (recovered : recoveredWatermark recorded tombstones slots = none) :
    ∀ segment ∈ segments, segment.sequence = .rowIds := by
  have kinds : slots.map (·.info.diverged) = segments.map fun segment =>
      decide (segment.sequence ≠ .rowIds) := by
    have mapped := congrArg (List.map SegmentMeta.diverged) infos
    simpa [Function.comp_def, SegmentMeta.of] using mapped
  unfold recoveredWatermark at recovered
  simp only at recovered
  split at recovered
  · cases recovered
  · next plain =>
    have flat : slots.any (·.info.diverged) = false := by
      simp only [Bool.or_eq_true, not_or, Bool.not_eq_true] at plain
      exact plain.2
    intro segment member
    have all : (slots.map (·.info.diverged)).any id = false := by simpa [List.any_map] using flat
    rw [kinds] at all
    simpa using List.any_eq_false.mp all _ (List.mem_map_of_mem member)

/-- The store that an open builds before it replays the log. -/
theorem Sound.opened {scan : Scan F} {watermark : Option Nat} (unfilled : s.Unfilled)
    (on : image.Stands w.disk s.schema s.orderingKey)
    (sections : s.sections.history = image.sections.history)
    (generation : s.generation = image.generation)
    (scanned : Scanned image w.disk scan)
    (recovered : recoveredWatermark image.sections.nextSequence scan.tombstones
      scan.slots = watermark) :
    (s.opened scan image.total watermark).Sound w.disk image.visible image.past := by
  have infos : scan.slots.map (·.info) = image.visible.map SegmentMeta.of := by
    rw [scanned.slots, image.slots_info]
  have empty : (s.opened scan image.total watermark).buffer.rows = [] := by
    simp [Store.opened, unfilled.buffer, WriteBuffer.empty]
  have axis : (s.opened scan image.total watermark).AxisOk := by
    refine ⟨?_, ?_, ?_⟩
    · rw [WriteBuffer.len, empty]
      rfl
    all_goals
      intro knowledge known
      obtain ⟨next, -, rfl⟩ := Option.map_eq_some_iff.mp known
    · intro births explicit
      cases explicit
    · intro _
      rw [WriteBuffer.len, empty]
      rfl
  have remembered : s.sections.history = (List.range image.past.length).map .history :=
    sections.trans on.layout.history
  exact {
    writable := unfilled.writable
    keyed := unfilled.keyed
    threshold := unfilled.threshold
    bufferSchema := by simp [Store.opened, unfilled.buffer, WriteBuffer.empty]
    bufferKey := by simp [Store.opened, unfilled.buffer, WriteBuffer.empty]
    axis
    slots := by
      have name (segment : Segment F) : (s.opened scan image.total watermark).fileName segment =
          some (.segment image.generation segment.baseRowId) := by
        simp [fileName, Store.opened, generation]
      change List.Forall₂ _ scan.slots _
      rw [scanned.slots]
      refine List.rel_append
        (List.forall₂_map_left_iff.mpr (List.forall₂_same.mpr fun segment member => ?_))
        (List.forall₂_map_left_iff.mpr (List.forall₂_same.mpr fun segment member => ?_))
      · rw [name]
        refine ⟨SegmentMeta.fromRecord_of _ _, rfl, .inr ⟨rfl, _, rfl, on.layout.files segment member⟩⟩
      · have orphan := Option.mem_toList.mp member
        have first : segment.baseRowId = 0 := by
          have bare : image.recorded = [] := by
            by_contra some
            rw [on.alone some] at orphan
            cases orphan
          have covers := on.covers
          rw [Image.visible, bare, orphan] at covers
          exact covers.1
        rw [name, first]
        exact ⟨rfl, rfl, .inl rfl⟩
    segmentsOk := on.segments
    covers := on.covers
    below := fun birth member => by
      rw [bufferBirths_empty axis empty, List.append_nil] at member
      obtain ⟨segment, inside, own⟩ := List.mem_flatMap.mp member
      have ok := on.segments segment inside
      have under := Segment.births_lt_end ok.sequenceOk birth own
      cases watermark with
      | some next =>
        have above := recoveredWatermark_above infos recovered segment inside
        change birth < next
        omega
      | none =>
        have plain := recoveredWatermark_virtual infos recovered segment inside
        have bound := (on.covers.bound inside).2
        simp only [Segment.sequenceEnd, plain] at under
        change birth < image.total
        omega
    killed := fun id dead => by
      obtain ⟨stamp, found⟩ := Option.isSome_iff_exists.mp dead
      refine on.killed id ?_
      rw [(scanned.kills id stamp).mp (mem_of_lookup found)]
      rfl
    history := by
      change List.Forall₂ _ (s.sections.history.map fun name => _) _
      rw [remembered, List.map_map, List.zipIdx_eq_zip_range', List.forall₂_map_left_iff]
      refine List.forall₂_iff_get.mpr ⟨by simp, fun index bound _ => ?_⟩
      have inside : index < image.past.length := by simpa using bound
      simp only [List.get_eq_getElem, List.getElem_range, List.getElem_zip, List.getElem_range',
        Nat.zero_add, Nat.one_mul]
      refine ⟨by simp [historyName, Store.opened], .inr ⟨rfl, .history index, by
          simp [historyName, Store.opened], ?_⟩⟩
      exact on.layout.historyFiles index _ (List.getElem?_eq_getElem inside)
    pastOk := on.past
    remembered
    virtual := fun bare =>
      recoveredWatermark_virtual infos (recovered.trans (by simpa [Store.opened] using bare))
    inOrder := by
      simp only [Store.opened, unfilled.buffer]
      exact WriteBuffer.empty_inOrder _ _ }

end Store

/-! ### Adopting the orphan -/

namespace Image

/-- The image once the manifest names every visible segment. -/
def adopted (image : Image F) : Image F :=
  { image with
    sections := { image.sections with
      segments := image.visible.map fun segment =>
        SegmentRecord.of (.segment image.generation segment.baseRowId) segment }
    recorded := image.visible
    orphan := none }

omit [F64 F] in
@[simp] theorem adopted_visible (image : Image F) : image.adopted.visible = image.visible :=
  List.append_nil _

omit [F64 F] in
@[simp] theorem adopted_total (image : Image F) : image.adopted.total = image.total := by
  rw [total, total, adopted_visible]

omit [F64 F] in
@[simp] theorem adopted_replay (image : Image F) : image.adopted.replay = image.replay := by
  rw [replay, replay, adopted_total]
  rfl

theorem adopted_ledger (image : Image F) : image.adopted.ledger = image.ledger := by
  rw [ledger, ledger, adopted_visible, adopted_replay]
  rfl

variable {disk other : Disk F} {schema : Schema} {orderingKey : Nat}

/-- Only a layout without recorded segments has an orphan, which is its first. -/
theorem Stands.orphan {segment : Segment F} (on : image.Stands disk schema orderingKey)
    (found : image.orphan = some segment) :
    image.recorded = [] ∧ segment.baseRowId = 0 := by
  have bare : image.recorded = [] := by
    by_contra some
    rw [on.alone some] at found
    cases found
  have covers := on.covers
  rw [visible, bare, found] at covers
  exact ⟨bare, covers.1⟩

theorem Stands.adopted (on : image.Stands disk schema orderingKey)
    (manifest : other.get .manifest =
      some (.manifest ⟨schema, orderingKey, image.generation, image.adopted.sections⟩))
    (same : ∀ name, name ≠ .manifest → other.get name = disk.get name) :
    image.adopted.Stands other schema orderingKey where
  layout := {
    manifest
    records := rfl
    files := fun segment member => by
      rw [same _ (by simp)]
      rcases List.mem_append.mp member with recorded | orphan
      · exact on.layout.files segment recorded
      · have found := Option.mem_toList.mp orphan
        obtain ⟨bare, first⟩ := on.orphan found
        rw [first]
        exact (on.orphans bare 0 _).mpr ⟨rfl, segment, found, rfl⟩
    history := on.layout.history
    historyFiles := fun index segment held =>
    (same _ (by simp)).trans (on.layout.historyFiles index segment held)
    deleteLogs := fun number object held =>
      on.layout.deleteLogs number object ((same _ (by simp)).symm.trans held)
    logged := fun id stamp killed => by
      obtain ⟨number, log, held, member⟩ := on.layout.logged id stamp killed
      exact ⟨number, log, (same _ (by simp)).trans held, member⟩ }
  orphans bare base object := by
    have visible : image.recorded ++ image.orphan.toList = [] := bare
    obtain ⟨recorded, orphan⟩ := List.append_eq_nil_iff.mp visible
    have orphans := on.orphans recorded base object
    have none : image.orphan = none := by simpa using orphan
    rw [none] at orphans
    rw [same _ (by simp)]
    exact orphans
  alone _ := rfl
  committed sequence :=
    (on.committed sequence).trans (Committed.frame fun number => same _ (by simp)).symm
  covers := by
    rw [adopted_visible, adopted_total]
    exact on.covers
  segments := by
    rw [adopted_visible]
    exact on.segments
  past := on.past
  killed := by
    rw [adopted_total]
    exact on.killed

theorem On.adopted (on : image.On disk schema orderingKey)
    (stands : image.adopted.Stands other schema orderingKey)
    (same : ∀ name, name ≠ .manifest → other.get name = disk.get name) :
    image.adopted.On other schema orderingKey where
  layout := stands.layout
  orphans := stands.orphans
  alone := stands.alone
  committed := stands.committed
  witnessed := by
    rw [adopted_visible, adopted_replay]
    exact on.witnessed
  log := by
    have log := on.log
    unfold LogOn at log ⊢
    rwa [same .wal (by simp)]
  covers := stands.covers
  segments := stands.segments
  past := stands.past
  killed := stands.killed
  valid := by
    rw [adopted_replay]
    exact on.valid
  ordinary bare := by
    rw [adopted_replay]
    exact on.ordinary (List.append_eq_nil_iff.mp bare).1

end Image

namespace Store

variable {post : Except StorageError Unit → Store F → World F → Prop}

theorem wp_recordScanned (on : image.Stands w.disk s.schema s.orderingKey)
    (sections : s.sections = image.sections)
    (generation : s.generation = image.generation) (safe : crash w)
    (failed : ∀ w', Quiet w w' → WriteFails allow w → post (.error (.io (.backend .write))) s w')
    (done : ∀ w', w.trace <+: w'.trace →
      (∀ name, name ≠ .manifest → w'.disk.get name = w.disk.get name) →
      image.adopted.Stands w'.disk s.schema s.orderingKey →
      post (.ok ()) { s with sections := image.adopted.sections } w') :
    Fallible.wp backend allow crash (recordScanned image.slots) post s w := by
  have bare : s.sections.segments.isEmpty = image.recorded.isEmpty := by
    rw [sections, on.layout.records]
    simp
  have records (none : image.recorded = []) : image.slots.filterMap scannedRecord =
      image.adopted.sections.segments := by
    have names : ∀ segment ∈ image.orphan.toList,
      scannedRecord (.ofSegment segment (some (.segment image.generation 0))) =
        some (.of (.segment image.generation segment.baseRowId) segment) := by
      intro segment member
      rw [(on.orphan (Option.mem_toList.mp member)).2]
      rfl
    simp only [Image.slots, none, List.map_nil, List.nil_append, Image.adopted, Image.visible]
    rw [List.filterMap_map]
    cases found : image.orphan with
    | none => rfl
    | some segment =>
      have one := names segment (by simp [found])
      rw [Option.toList_some, List.filterMap_cons_some (by simpa using one)]
      rfl
  simp only [recordScanned, Fallible.wp_bind, Fallible.wp_read, Fallible.wp_when, bare, Io.wp_write,
    Fallible.wp_update]
  refine ⟨fun orphaned => ?_, fun named => ?_⟩
  · have none : image.recorded = [] := by
      simp only [Bool.and_eq_true, List.isEmpty_iff] at orphaned
      exact orphaned.1
    have written : { s.sections with segments := image.slots.filterMap scannedRecord } =
        image.adopted.sections := by
      rw [records none, sections]
      rfl
    rw [written]
    refine ⟨safe, fun _ => ?_, fun left allowed => ?_⟩
    · have same (name : ObjectName) (different : name ≠ .manifest) :
          (w.did (.write .manifest (s.manifest image.adopted.sections)) .ok).disk.get name =
            w.disk.get name :=
        Disk.get_publish_other different
      refine done _ (World.trace_did w _ _) same (on.adopted ?_ same)
      refine ((Disk.get_publish (by simp [manifest])).trans (if_pos rfl)).trans ?_
      rw [manifest, generation]
    · exact failed _ ⟨World.trace_did w _ _, rfl⟩ ⟨w, _, _, left, List.prefix_rfl, by simp, allowed⟩
  · have orphan : image.orphan = none := by
      by_cases none : image.recorded = []
      · simpa [none, Image.slots] using named
      · exact on.alone none
    have same : image.adopted.sections = s.sections := by
      rw [sections]
      have records := on.layout.records
      simp only [Image.adopted, Image.visible, orphan, Option.toList_none, List.append_nil, ← records]
    have after := done w List.prefix_rfl (fun _ _ => rfl) (on.adopted (by
      rw [same, sections]
      exact on.layout.manifest) fun _ _ => rfl)
    rwa [same] at after

end Store

/-! ### Replaying the log -/

namespace Image

/-- The ledger that a second open would find: without a supersession that only the end of
the log left uncommitted. -/
def settledLedger (image : Image F) : Ledger F :=
  ledgerOf (image.visible.flatMap Segment.rows ++ unitRows (settled image.committed image.replay))
    image.kills

/-- What opening an image may leave to a next open. -/
def Leaves (image : Image F) (ledger : Ledger F) : Prop :=
  ledger = image.ledger ∨ ledger = image.settledLedger

@[simp] theorem adopted_settledLedger (image : Image F) :
    image.adopted.settledLedger = image.settledLedger := by
  rw [settledLedger, settledLedger, adopted_visible, adopted_replay]
  rfl

omit [F64 F] in
@[simp] theorem adopted_pending (image : Image F) : image.adopted.pending = image.pending := by
  rw [pending, pending, adopted_replay]
  rfl

theorem adopted_leaves (image : Image F) : image.adopted.Leaves = image.Leaves := by
  unfold Leaves
  rw [adopted_ledger, adopted_settledLedger]

end Image

namespace Store

structure Built (store : Store F) (image : Image F) (disk : Disk F) : Prop where
  sound : store.Sound disk image.visible image.past
  stands : image.Stands disk store.schema store.orderingKey
  recorded : image.recorded = image.visible
  sections : store.sections = image.sections
  generation : store.generation = image.generation
  kills : ∀ id stamp, store.tombstones.lookup id = some stamp ↔ image.kills.lookup id = some stamp
  numbers : ∀ number object, disk.get (.deleteLog image.generation number) = some object →
    number < store.deleteLogSequence
  persistent : store.persistent = true
  empty : store.buffer.rows = []
  unlogged : store.wal = none
  rows : store.bufferBase = image.total

theorem Built.lookup (built : s.Built image w.disk)
    (id : Nat) : s.tombstones.lookup id = image.kills.lookup id :=
  Option.ext fun stamp => built.kills id stamp

theorem Built.counted (built : s.Built image w.disk) : s.rows = image.total := by
  have counted := built.sound.axis.counted
  rw [WriteBuffer.len, built.empty] at counted
  exact counted.trans built.rows

theorem Built.layout (built : s.Built image w.disk) :
    Layout w.disk s.schema s.orderingKey s.generation s.sections
    image.visible image.past s.tombstones s.deleteLogSequence := by
  have layout := built.stands.layout
  rw [built.generation, built.sections, ← built.recorded]
  exact {
    manifest := layout.manifest
    records := layout.records
    files := layout.files
    history := layout.history
    historyFiles := layout.historyFiles
    deleteLogs := fun number object held => by
      obtain ⟨-, log, same, ascending, stamps⟩ := layout.deleteLogs number object held
      exact ⟨built.numbers number object held, log, same, ascending, fun id member =>
        (built.lookup id).trans (stamps id member)⟩
    logged := fun id stamp killed => layout.logged id stamp ((built.kills id stamp).mp killed) }

theorem Built.killed (built : s.Built image w.disk) (id : Nat)
    (dead : (s.tombstones.lookup id).isSome) : id < s.bufferBase := by
  rw [built.lookup] at dead
  exact built.rows ▸ built.stands.killed id dead

theorem Built.committed (built : s.Built image w.disk) (sequence : Nat) :
    sequence ∈ committedOf w.disk s.generation ↔ sequence ∈ image.committed := by
  rw [mem_committedOf, built.generation]
  exact (built.stands.committed sequence).symm

/-- A replacement log of an image's units is the log of the store that takes them. -/
theorem Built.relogged {w' : World F} {s' : Store F} {writer : Nat} (built : s.Built image w.disk)
    (on : image.On w.disk s.schema s.orderingKey) (replays : s.Replays image.replay s')
    (others : ∀ name, name ≠ .wal → w'.disk.get name = w.disk.get name)
    (held : LogState w'.disk writer s.generation image.total
      (image.replay.flatMap Replayed.entries) [] false) :
    ({ s' with wal := some writer }).Held w'.disk image.visible image.past [] image.replay := by
  have sound : s'.Sound w'.disk image.visible image.past :=
    (built.sound.replays replays).frame fun name reads => others name (by rintro rfl; exact reads)
  have rows := replays.rows
  have births := replays.births
  rw [built.empty, List.nil_append] at rows
  obtain ⟨buffer, knowledge, count, same⟩ := replays.frame
  have base : s'.bufferBase = image.total := by rw [same]; exact built.rows
  refine ⟨sound.withWal _, fun _ => ?_⟩
  have layout := @Layout.frame F _ w'.disk _ _ _ _ _ _ _ _ built.layout fun name inside =>
    others name (by rintro rfl; exact inside)
  exact {
    layout := by subst same; exact layout
    witnessed := fun sequence committed => by
      rw [show ({ s' with wal := some writer } : Store F).generation = s.generation by
          rw [same]] at committed
      have before := (Committed.frame fun number => others (.deleteLog s.generation number) (by
          simp)).mp committed
      have old := on.witnessed sequence ((built.committed sequence).mp (mem_committedOf.mpr before))
      refine old.imp_right (.imp_right fun ⟨id, killed⟩ => ⟨id, ?_⟩)
      have lookup := (built.lookup id).trans killed
      subst same
      exact lookup
    killedDurable := fun id dead => by
      have below := built.killed id (by subst same; exact dead)
      subst same
      exact below
    log := {
      file := ⟨writer, image.total, rfl, base.symm, by subst same; exact held⟩
      rows := rows.symm
      shared := fun sequence own member filled => by
        change sequence ∈ s'.bufferBirths
        rw [births]
        exact List.mem_append_right _ (mem_replayBirths member filled _) }
    leftover := fun bare number object found => by
      have visible : image.recorded = [] := built.recorded.trans bare
      have orphan : image.orphan = none := by
        have bare := bare
        simp only [Image.visible, List.append_eq_nil_iff] at bare
        simpa using bare.2
      have generation : s'.generation = image.generation := by rw [same]; exact built.generation
      change w'.disk.get (.segment s'.generation number) = some object at found
      rw [others _ (by simp), generation, on.orphans visible] at found
      obtain ⟨-, segment, impossible, -⟩ := found
      rw [orphan] at impossible
      cases impossible
    ordinary := fun bare => on.ordinary (built.recorded.trans bare) }

omit [F64 F] in
theorem ledgerOf_congr {kills other : Tombstones} (same : ∀ id, kills.lookup id = other.lookup id)
    (rows : List (Row F)) :
    ledgerOf rows kills = ledgerOf rows other := by
  unfold ledgerOf
  simp only [same]

theorem Built.ledger {s' : Store F} (built : s.Built image w.disk)
    (replays : s.Replays image.replay s') :
    s'.ledger image.visible = image.ledger := by
  have rows := replays.rows
  rw [built.empty, List.nil_append] at rows
  have kills : s'.tombstones = s.tombstones := by
    obtain ⟨buffer, knowledge, count, same⟩ := replays.frame
    rw [same]
  rw [Store.ledger, Image.ledger, rows, kills, ledgerOf_congr built.lookup]

theorem Built.settledLedger {s' : Store F} {disk : Disk F} (built : s.Built image w.disk)
    (replays : s.Replays image.replay s')
    (others : ∀ name, name ≠ .wal → disk.get name = w.disk.get name) :
    s'.settledLedger disk image.visible image.replay = image.settledLedger := by
  obtain ⟨buffer, knowledge, count, same⟩ := replays.frame
  subst same
  have committed (sequence : Nat) : sequence ∈ committedOf disk s.generation ↔
      sequence ∈ image.committed := by
    rw [← built.committed, mem_committedOf, mem_committedOf]
    exact Committed.frame fun number => others _ (by simp)
  unfold Store.settledLedger Image.settledLedger
  rw [ledgerOf_congr built.lookup, settled_congr committed]

theorem Built.pending {s' : Store F} {disk : Disk F} (built : s.Built image w.disk)
    (replays : s.Replays image.replay s')
    (others : ∀ name, name ≠ .wal → disk.get name = w.disk.get name) :
    s'.pending disk image.replay ⊆ image.pending := by
  intro unit member
  obtain ⟨inside, uncounted⟩ := mem_pending.mp member
  refine List.mem_filter.mpr ⟨inside, ?_⟩
  have generation : s'.generation = s.generation := by
    obtain ⟨buffer, knowledge, count, same⟩ := replays.frame
    rw [same]
  have committed (sequence : Nat) : sequence ∈ committedOf disk s'.generation ↔
      sequence ∈ image.committed := by
    rw [← built.committed, mem_committedOf, mem_committedOf, generation]
    exact Committed.frame fun number => others _ (by simp)
  simpa using fun counts => uncounted ((Replayed.counts_congr committed unit).mpr counts)

/-- The rule for reading the log: the units to replay are the image's. -/
theorem wp_readWal {post : Except StorageError (Nat × List (WalEntry F)) → Store F → World F → Prop}
    (built : s.Built image w.disk) (on : image.On w.disk s.schema s.orderingKey) (safe : crash w)
    (unread : ∀ w', Quiet w w' → ScanFails allow w → post (.error (.io (.backend .read))) s w')
    (done : ∀ base entries w', Quiet w w' →
      (∀ committed : List Nat, (∀ sequence, sequence ∈ committed ↔ sequence ∈ image.committed) →
        skipFlushed (s.rows - base) (resolve committed entries) = image.replay) →
        post (.ok (base, entries)) s w') :
    Fallible.wp backend allow crash readWal post s w := by
  have quiet (outcome : Outcome) : Quiet w (w.did (.read .wal) outcome) :=
    ⟨World.trace_did w _ _, by cases outcome <;> rfl⟩
  -- Without records to resolve, the base does not matter.
  have nothing (bare : image.entries = []) (base : Nat) (committed : List Nat) :
      skipFlushed (s.rows - base) (resolve committed ([] : List (WalEntry F))) = image.replay := by
    rw [Image.replay, bare, resolve, resolve, skipFlushed, skipFlushed]
  simp only [readWal, Fallible.wp_bind, Fallible.wp_read, Io.wp_find]
  refine ⟨safe, fun _ => ?_, fun left allowed => ?_⟩
  · rcases on.log with ⟨absent, bare⟩ | ⟨file, held, own | ⟨foreign, bare⟩⟩
    · rw [absent]
      exact done _ _ _ (quiet _) fun committed _ => nothing bare _ _
    · obtain ⟨generation, base, clean⟩ := own
      rw [held]
      simp only [generation, built.generation, if_true, base, clean]
      refine done _ _ _ (quiet _) fun committed same => ?_
      rw [Image.replay, built.counted, resolve_congr same]
    · rw [held]
      simp only [built.generation, if_neg foreign]
      exact done _ _ _ (quiet _) fun committed _ => nothing bare _ _
  · exact unread _ (quiet _) ⟨w, _, left, List.prefix_rfl, .inr (.inl ⟨_, rfl⟩), allowed⟩

theorem Built.quiet {w' : World F} (built : s.Built image w.disk) (quiet : Quiet w w') :
    s.Built image w'.disk :=
  quiet.2 ▸ built

def Fails (allow : World F → Call F → Outcome → Prop) (w : World F) : Prop :=
  ScanFails allow w ∨ WriteFails allow w ∨ OpenFails allow w

omit [F64 F] in
theorem Fails.earlier {w' : World F} (fails : Fails allow w') (before : w.trace <+: w'.trace) :
    Fails allow w :=
  fails.imp (·.earlier before) (.imp (·.earlier before) (·.earlier before))

theorem wp_replayWal {scan : Scan F} {post : Except StorageError Unit → Store F → World F → Prop}
    (built : s.Built image w.disk) (on : image.On w.disk s.schema s.orderingKey) (calm : w.disk.Calm)
    (committed : ∀ sequence, sequence ∈ scan.committed ↔ sequence ∈ image.committed)
    (safe : ∀ w', (s.walSync = .full →
      w'.disk.Recovers s.schema s.orderingKey image.pending image.Leaves) → crash w')
    (failed : ∀ e s' w', w.trace <+: w'.trace → Fails allow w →
      (s.walSync = .full → w'.disk.Recovers s.schema s.orderingKey image.pending image.Leaves) →
      post (.error (.io (.backend e))) s' w')
    (done : ∀ s' w' writer, w.trace <+: w'.trace → s.Replays image.replay s' →
      (writer = none ↔ s.walSync = .off) →
      (∀ name, name ≠ .wal → w'.disk.get name = w.disk.get name) →
      ({ s' with wal := writer }).Held w'.disk image.visible image.past [] image.replay →
      post (.ok ()) { s' with wal := writer } w') :
    Fallible.wp backend allow crash (replayWal scan.committed) post s w := by
  have still : w.disk.Recovers s.schema s.orderingKey image.pending image.Leaves :=
    on.recovers calm (.inl rfl)
  simp only [replayWal, Fallible.wp_bind, Fallible.wp_read]
  refine wp_readWal built on (safe w fun _ => still) ?_ ?_
  · exact fun w' quiet fails => failed _ _ w' quiet.1 (.inl fails) fun _ => quiet.2 ▸ still
  · intro base entries w₁ quiet units
    have same := units _ committed
    have valid : ∀ row ∈ unitRows image.replay, s.buffer.validate row = .ok () := by
      intro row member
      have checked := on.valid row member
      rwa [← built.sound.bufferSchema] at checked
    simp only [same]
    split
    · next off =>
      simp only [Fallible.wp_bind]
      refine wp_replay built.sound.axis valid fun s' replays => ?_
      have others (v : World F) (gone : v.disk = w₁.disk.erase .wal ∨ v.disk = w₁.disk)
        (name : ObjectName)
          (different : name ≠ .wal) : v.disk.get name = w.disk.get name := by
        rcases gone with erased | same
        · rw [erased, Disk.get_erase, if_neg different, quiet.2]
        · rw [same, quiet.2]
      have short {v : Store F} (same : v.walSync = s.walSync) (full : v.Full) : False := by
        have sync := full.walSync
        rw [same, off] at sync
        cases sync
      refine Io.wp_discard.mpr ⟨safe w₁ fun full => by simp [off] at full, fun _ => ?_,
        fun left refused => ?_⟩
      · have gone : (w₁.did (.remove .wal) .ok).disk = w₁.disk.erase .wal ∨
            (w₁.did (.remove .wal) .ok).disk = w₁.disk := by
          simp only [World.did, World.answer]
          split
          · exact .inl rfl
          · exact .inr rfl
        obtain ⟨buffer, knowledge, count, same⟩ := replays.frame
        have sound := @Sound.frame F _ _ (w₁.did (.remove .wal) .ok).disk _ _ _
          (built.sound.replays replays)
          fun name reads => others _ gone name (by rintro rfl; exact reads)
        have closed : ({ s' with wal := none }) = s' := by
          rw [same, ← built.unlogged]
        have after := done s' _ none (quiet.1.trans (World.trace_did w₁ _ _)) replays
          (by simp [off]) (others _ gone)
          ⟨sound.withWal none, fun full => (short (by rw [same]) full).elim⟩
        rwa [closed] at after
      · exact failed _ _ _ (quiet.1.trans (World.trace_did w₁ _ _))
          (.inl ⟨w₁, _, left, quiet.1, .inr (.inr ⟨_, rfl⟩), refused⟩) fun full => by simp [off] at full
    · next logs =>
      simp only [Fallible.wp_bind, Io.wp_write]
      refine ⟨safe w₁ fun _ => quiet.2 ▸ still, fun _ => ?_, fun left allowed => ?_⟩
      · let w₂ := w₁.did
          (.write .wal (.log (.fresh s.generation s.rows (image.replay.flatMap Replayed.entries)))) .ok
        have later : w.trace <+: w₂.trace := quiet.1.trans (World.trace_did w₁ _ _)
        have others : ∀ name, name ≠ .wal → w₂.disk.get name = w.disk.get name := fun name different =>
          (Disk.get_publish_other different).trans (by rw [quiet.2])
        have held : LogState w₂.disk w₁.disk.nextId s.generation image.total
            (image.replay.flatMap Replayed.entries) [] false := by
          refine (Disk.get_publish_log _).trans ((if_pos rfl).trans ?_)
          simp [LogFile.fresh, built.counted]
        have relogged (s' : Store F) (replays : s.Replays image.replay s') :=
          built.relogged on replays others held
        have recovers (s' : Store F) (replays : s.Replays image.replay s') (v : World F)
          (disk : v.disk = w₂.disk)
            (full : s.walSync = .full) : v.disk.Recovers s.schema s.orderingKey image.pending
              image.Leaves := by
          have settles := built.settledLedger replays others
          have held' := relogged s' replays
          have pending := built.pending replays others
          obtain ⟨buffer, knowledge, count, same⟩ := replays.frame
          subst same
          rw [disk]
          refine Disk.Recovers.widen
            ((held'.logged ⟨built.persistent, full, rfl⟩).recovers held'.sound (.inr settles)) ?_
          exact pending
        refine wp_replay built.sound.axis valid fun s' replays => ?_
        have schema : s'.schema = s.schema ∧ s'.orderingKey = s.orderingKey := by
          obtain ⟨buffer, knowledge, count, same⟩ := replays.frame
          rw [same]
          exact ⟨rfl, rfl⟩
        simp only [Io.wp_openLog, Fallible.wp_update]
        refine ⟨safe w₂ (recovers s' replays w₂ rfl), fun _ => ?_, fun left refused => ?_⟩
        · rw [show (w₁.did
            (.write .wal (.log
            (.fresh s.generation s.rows (image.replay.flatMap Replayed.entries)))) .ok).disk.get
            .wal = _ from held]
          exact done s' _ (some w₁.disk.nextId) (later.trans (World.trace_did w₂ _ _)) replays
            (by simp [logs]) others
            (relogged s' replays)
        · exact failed _ _ _ (later.trans (World.trace_did w₂ _ _))
            (.inr (.inr ⟨w₂, .wal, left, later, refused⟩)) (recovers s' replays _ rfl)
      · exact failed _ _ _ (quiet.1.trans (World.trace_did w₁ _ _))
          (.inr (.inl ⟨w₁, _, _, left, quiet.1, by simp, allowed⟩)) fun _ => quiet.2 ▸ still

/-! ### The open as a whole -/

structure Opens (s : Store F) (image : Image F) (s' : Store F) (disk : Disk F) : Prop where
  held : s'.Held disk image.visible image.past [] image.replay
  ledger : s'.ledger image.visible = image.ledger
  settled : s'.settledLedger disk image.visible image.replay = image.settledLedger
  schema : s'.schema = s.schema
  orderingKey : s'.orderingKey = s.orderingKey
  segmentRows : s'.segmentRows = s.segmentRows
  walSync : s'.walSync = s.walSync
  persistent : s'.persistent = true
  logs : s'.wal = none ↔ s.walSync = .off
  rows : s'.buffer.rows = unitRows image.replay
  births : (s'.bufferBirths, s'.watermark) = replayBirths
    ((recoveredWatermark image.sections.nextSequence s'.tombstones image.slots).getD image.total)
      image.replay
  kills : ∀ id, s'.tombstones.lookup id = image.kills.lookup id
  committed : ∀ sequence, Committed disk s'.generation sequence ↔ sequence ∈ image.committed
  nextSequence : s'.sections.nextSequence = image.sections.nextSequence

theorem Sound.quiet {w' : World F} {segments past : List (Segment F)}
    (sound : s.Sound w.disk segments past) (quiet : Quiet w w') :
    s.Sound w'.disk segments past := quiet.2 ▸ sound

/-- The store that an open builds, once the manifest names every segment. -/
theorem Built.opened {scan : Scan F} {w' : World F} {watermark : Option Nat} (unfilled : s.Unfilled)
    (on : image.Stands w.disk s.schema s.orderingKey) (sections : s.sections = image.sections)
    (generation : s.generation = image.generation) (scanned : Scanned image w.disk scan)
    (recovered : recoveredWatermark image.sections.nextSequence scan.tombstones scan.slots = watermark)
    (others : ∀ name, name ≠ .manifest → w'.disk.get name = w.disk.get name)
    (adopted : image.adopted.Stands w'.disk s.schema s.orderingKey) :
    ({ s with sections := image.adopted.sections }.opened scan image.total watermark).Built
      image.adopted w'.disk where
  sound := by
    have sound := Sound.opened unfilled on (by rw [sections]) generation scanned recovered
    have moved := @Sound.frame F _ _ w'.disk _ _ _ sound fun name reads =>
      others name (by rintro rfl; exact reads)
    rw [image.adopted_visible]
    exact {
      writable := moved.writable
      keyed := moved.keyed
      threshold := moved.threshold
      bufferSchema := moved.bufferSchema
      bufferKey := moved.bufferKey
      axis := ⟨moved.axis.counted, moved.axis.explicit, moved.axis.contiguous⟩
      slots := moved.slots
      segmentsOk := moved.segmentsOk
      covers := moved.covers
      below := moved.below
      killed := moved.killed
      history := by
        have history := moved.history
        rw [Store.opened, sections] at history
        exact history
      pastOk := moved.pastOk
      remembered := on.layout.history
      virtual := moved.virtual
      inOrder := moved.inOrder }
  stands := adopted
  recorded := image.adopted_visible.symm
  sections := rfl
  generation := generation
  kills id stamp := by
    rw [show image.adopted.kills = image.kills from rfl, ← scanned.kills id stamp]
    refine ⟨mem_of_lookup, fun member => ?_⟩
    change scan.tombstones.lookup id = some stamp
    cases found : scan.tombstones.lookup id with
    | none => exact absurd member (not_mem_of_lookup found stamp)
    | some other =>
      have one := (scanned.kills id stamp).mp member
      have two := (scanned.kills id other).mp (mem_of_lookup found)
      rw [← two, one]
  numbers number object held := scanned.numbers number object ((others _ (by simp)).symm.trans held)
  persistent := rfl
  empty := by simp [Store.opened, unfilled.buffer, WriteBuffer.empty]
  unlogged := unfilled.unlogged
  rows := image.adopted_total.symm

/-- No delete log of an image names an id beyond its segments. -/
theorem Scanned.inside {scan : Scan F} {disk other : Disk F} (scanned : Scanned image disk scan)
    (on : image.Stands other s.schema s.orderingKey) :
    ((scan.tombstones.map (·.1)).insertionSort (· ≤ ·)).find?
    (fun id => decide (image.total ≤ id)) = none := by
  rw [List.find?_eq_none]
  intro id member
  rw [List.mem_insertionSort] at member
  obtain ⟨⟨dead, stamp⟩, inside, rfl⟩ := List.mem_map.mp member
  have below := on.killed dead (by rw [(scanned.kills dead stamp).mp inside]; rfl)
  simpa using below

/-- The rule for opening a layout, up to the replay of its log. -/
theorem wp_openLayoutTo {post : Except StorageError Unit → Store F → World F → Prop}
    (unfilled : s.Unfilled)
    (on : image.Stands w.disk s.schema s.orderingKey) (sections : s.sections = image.sections)
    (generation : s.generation = image.generation) (safe : ∀ w', Quiet w w' → crash w')
    (failed : ∀ e s' w', Quiet w w' → Fails allow w → post (.error (.io (.backend e))) s' w')
    (replay : ∀ scan w', w.trace <+: w'.trace →
      (∀ name, name ≠ .manifest → w'.disk.get name = w.disk.get name) →
      Scanned image w.disk scan → scan.slots = image.slots →
      ({ s with sections := image.adopted.sections }.opened scan image.total
        (recoveredWatermark image.sections.nextSequence scan.tombstones image.slots)).Built
        image.adopted w'.disk →
      Fallible.wp backend allow crash (replayWal scan.committed) post
        ({ s with sections := image.adopted.sections }.opened scan image.total
          (recoveredWatermark image.sections.nextSequence scan.tombstones image.slots)) w') :
    Fallible.wp backend allow crash openLayout post s w := by
  simp only [openLayout, Fallible.wp_bind]
  refine wp_readLayout on sections generation safe ?_ ?_
  · exact fun e w' quiet fails => failed e s w' quiet (.inl fails)
  · intro scan w₁ quiet scanned
    have infos : scan.slots.map (·.info) = image.visible.map SegmentMeta.of := by
      rw [scanned.slots, image.slots_info]
    simp only [Fallible.wp_ofExcept, contiguous_slots infos on.covers, scanned.inside on,
      Fallible.wp_bind, Fallible.wp_read]
    have on₁ : image.Stands w₁.disk s.schema s.orderingKey := quiet.2 ▸ on
    rw [scanned.slots]
    refine wp_recordScanned on₁ sections generation (safe w₁ quiet) ?_ ?_
    · exact fun w₂ quiet' fails => failed _ _ w₂ (quiet.trans quiet')
        (.inr (.inl (fails.earlier quiet.1)))
    · intro w₂ later others adopted
      simp only [Fallible.wp_update]
      have others' : ∀ name, name ≠ .manifest → w₂.disk.get name = w.disk.get name :=
          fun name different =>
        (others name different).trans (by rw [quiet.2])
      have built := @Built.opened F _ _ _ image scan _
        (recoveredWatermark image.sections.nextSequence scan.tombstones image.slots)
        unfilled on sections generation scanned (by rw [scanned.slots]) others' adopted
      have rest := replay scan w₂ (quiet.1.trans later) others' scanned scanned.slots built
      rwa [← sections] at rest

theorem wp_openLayout {post : Except StorageError Unit → Store F → World F → Prop}
    (unfilled : s.Unfilled)
    (on : image.On w.disk s.schema s.orderingKey) (calm : w.disk.Calm)
    (sections : s.sections = image.sections)
    (generation : s.generation = image.generation)
    (safe : ∀ w', (s.walSync = .full →
      w'.disk.Recovers s.schema s.orderingKey image.pending image.Leaves) → crash w')
    (failed : ∀ e s' w', w.trace <+: w'.trace → Fails allow w →
      (s.walSync = .full → w'.disk.Recovers s.schema s.orderingKey image.pending image.Leaves) →
      post (.error (.io (.backend e))) s' w')
    (done : ∀ s' w', w.trace <+: w'.trace → s.Opens image s' w'.disk → post (.ok ()) s' w') :
    Fallible.wp backend allow crash openLayout post s w := by
  have still : w.disk.Recovers s.schema s.orderingKey image.pending image.Leaves :=
    on.recovers calm (.inl rfl)
  refine wp_openLayoutTo unfilled on.stands sections generation
    (fun w' quiet => safe w' fun _ => quiet.2 ▸ still) ?_ ?_
  · exact fun e s' w' quiet fails => failed e s' w' quiet.1 fails fun _ => quiet.2 ▸ still
  · intro scan w₂ later others' scanned slots built
    have calm₂ : w₂.disk.Calm := fun file held => calm file ((others' .wal (by simp)).symm.trans held)
    refine wp_replayWal built (on.adopted built.stands others') calm₂ scanned.committed
      (fun w' recovers => safe w' ?_) ?_ ?_
    · rwa [image.adopted_leaves, image.adopted_pending] at recovers
    · intro e s' w' later' fails recovers
      rw [image.adopted_leaves, image.adopted_pending] at recovers
      exact failed e s' w' (later.trans later') (fails.earlier later) recovers
    · intro s' w₃ writer later' replays logs others'' held
      refine done _ w₃ (later.trans later') ?_
      rw [image.adopted_visible, image.adopted_replay] at held
      rw [image.adopted_replay] at replays
      have ledger := (built.ledger (by rwa [image.adopted_replay])).trans image.adopted_ledger
      have settles := (built.settledLedger (by rwa [image.adopted_replay]) others'').trans
        image.adopted_settledLedger
      rw [image.adopted_visible, image.adopted_replay] at settles
      rw [image.adopted_visible] at ledger
      have watermark : (({ s with sections := image.adopted.sections } : Store F).opened
        scan image.total
          (recoveredWatermark image.sections.nextSequence scan.tombstones image.slots)).watermark =
          (recoveredWatermark image.sections.nextSequence scan.tombstones image.slots).getD
            image.total := by
        unfold Store.opened Store.watermark
        cases recoveredWatermark image.sections.nextSequence scan.tombstones image.slots <;> rfl
      have births : (s'.bufferBirths, s'.watermark) = replayBirths
          ((recoveredWatermark image.sections.nextSequence scan.tombstones image.slots).getD
            image.total) image.replay := by
        rw [replays.births, replays.watermark, watermark,
          bufferBirths_empty built.sound.axis built.empty, List.nil_append]
      have rows := replays.rows
      rw [built.empty, List.nil_append] at rows
      obtain ⟨buffer, knowledge, count, same⟩ := replays.frame
      subst same
      exact {
        held
        ledger
        settled := settles
        schema := rfl
        orderingKey := rfl
        segmentRows := rfl
        walSync := rfl
        persistent := rfl
        logs
        rows
        births
        kills := built.lookup
        committed := fun sequence => by
          change Committed w₃.disk s.generation sequence ↔ sequence ∈ image.adopted.committed
          rw [built.stands.committed, generation]
          exact Committed.frame fun number => others'' _ (by simp)
        nextSequence := rfl }

end Store

def Disk.Blank (disk : Disk F) : Prop := ∀ name, disk.get name = none

/-- The image that a first manifest describes. -/
def Image.blank : Image F where
  generation := 0
  sections := .empty
  recorded := []
  orphan := none
  past := []
  kills := []
  nextLog := 0
  committed := []
  base := 0
  entries := []

omit [F64 F] in
theorem Image.blank_replay : (Image.blank : Image F).replay = [] := by
  simp [replay, blank, resolve, skipFlushed]

omit [F64 F] in
theorem Image.blank_pending : (Image.blank : Image F).pending = [] := by
  rw [pending, blank_replay]
  rfl

theorem Image.blank_ledger : (Image.blank : Image F).ledger = [] := by
  rw [ledger, blank_replay]
  rfl

theorem Image.blank_leaves (ledger : Ledger F) : Image.blank.Leaves ledger ↔ ledger = [] := by
  have settles : (Image.blank : Image F).settledLedger = [] := by
    rw [settledLedger, blank_replay]
    rfl
  rw [Leaves, blank_ledger, settles, or_self]

theorem Disk.Blank.on {disk : Disk F} (blank : disk.Blank) (schema : Schema) (orderingKey : Nat) :
    Image.blank.On (disk.publish .manifest (.manifest ⟨schema, orderingKey, 0, .empty⟩)) schema
      orderingKey := by
  have others (name : ObjectName) (different : name ≠ .manifest) :
      (disk.publish .manifest (.manifest ⟨schema, orderingKey, 0, .empty⟩)).get name = none :=
    (Disk.get_publish_other different).trans (blank name)
  exact {
    layout := {
      manifest := (Disk.get_publish (by simp)).trans (if_pos rfl)
      records := rfl
      files := by simp [Image.blank]
      history := rfl
      historyFiles := by simp [Image.blank]
      deleteLogs := fun number object held => by
        rw [others _ (by simp)] at held
        cases held
      logged := by simp [Image.blank] }
    orphans := fun _ base object => by
      rw [others _ (by simp)]
      simp [Image.blank]
    alone := fun _ => rfl
    committed := fun sequence => by
      have none : ¬ Committed (disk.publish .manifest (.manifest ⟨schema, orderingKey, 0, .empty⟩))
          0 sequence := by
        rintro ⟨-, number, log, held, -⟩
        rw [others _ (by simp)] at held
        cases held
      simpa [Image.blank] using none
    witnessed := by simp [Image.blank]
    log := .inl ⟨others _ (by simp), rfl⟩
    covers := rfl
    segments := by simp [Image.blank, Image.visible]
    past := by simp [Image.blank]
    killed := by simp [Image.blank]
    valid := by simp [Image.blank_replay]
    ordinary := by simp [Image.blank_replay, Ordinary] }

namespace Store

variable {post : Except StorageError Unit → Store F → World F → Prop}

/-- The rule for opening a table. -/
theorem wp_openBackend (unfilled : s.Unfilled) (on : image.On w.disk s.schema s.orderingKey)
    (calm : w.disk.Calm)
    (safe : ∀ w', (s.walSync = .full →
      w'.disk.Recovers s.schema s.orderingKey image.pending image.Leaves) → crash w')
    (failed : ∀ e s' w', w.trace <+: w'.trace → Fails allow w →
      (s.walSync = .full → w'.disk.Recovers s.schema s.orderingKey image.pending image.Leaves) →
      post (.error (.io (.backend e))) s' w')
    (done : ∀ s' w', w.trace <+: w'.trace → s.Opens image s' w'.disk → post (.ok ()) s' w') :
    Fallible.wp backend allow crash openBackend post s w := by
  have still : w.disk.Recovers s.schema s.orderingKey image.pending image.Leaves :=
    on.recovers calm (.inl rfl)
  have quiet (outcome : Outcome) : Quiet w (w.did (.read .manifest) outcome) :=
    ⟨World.trace_did w _ _, by cases outcome <;> rfl⟩
  simp only [openBackend, readManifest, Fallible.wp_bind, Fallible.wp_read, Io.wp_find]
  refine ⟨safe w fun _ => still, fun _ => ?_, fun left allowed => ?_⟩
  · rw [on.layout.manifest]
    simp only [ne_eq, not_true_eq_false, if_false, Fallible.wp_update]
    have disk := (quiet .ok).2
    refine @wp_openLayout F _ _ _ _ _ image _ ⟨unfilled.writable, unfilled.keyed,
      unfilled.threshold, unfilled.buffer, unfilled.unlogged⟩
      (by rw [disk]; exact on) (by rw [disk]; exact calm) rfl rfl safe ?_ ?_
    · exact fun e s' w' later fails => failed e s' w' ((quiet .ok).1.trans later)
        (fails.earlier (quiet .ok).1)
    · exact fun s' w' later opens => done s' w' ((quiet .ok).1.trans later)
        ⟨opens.held, opens.ledger, opens.settled, opens.schema, opens.orderingKey,
          opens.segmentRows, opens.walSync,
          opens.persistent, opens.logs, opens.rows, opens.births, opens.kills, opens.committed,
          opens.nextSequence⟩
  · exact failed _ _ _ (quiet _).1
        (.inl ⟨w, _, left, List.prefix_rfl, .inr (.inl ⟨_, rfl⟩), allowed⟩) fun _ =>
      (quiet (.err left)).2 ▸ still

/-- The rule for creating a table. -/
theorem wp_openBackend_blank (unfilled : s.Unfilled) (sections : s.sections = .empty)
    (generation : s.generation = 0)
    (blank : w.disk.Blank)
    (safe : ∀ w', w'.disk.Blank ∨
      (s.walSync = .full → w'.disk.Recovers s.schema s.orderingKey [] (· = [])) → crash w')
    (failed : ∀ e s' w', w.trace <+: w'.trace → Fails allow w →
      w'.disk.Blank ∨ (s.walSync = .full → w'.disk.Recovers s.schema s.orderingKey [] (· = [])) →
      post (.error (.io (.backend e))) s' w')
    (done : ∀ s' w', w.trace <+: w'.trace → s.Opens .blank s' w'.disk → post (.ok ()) s' w') :
    Fallible.wp backend allow crash openBackend post s w := by
  have quiet (outcome : Outcome) : Quiet w (w.did (.read .manifest) outcome) :=
    ⟨World.trace_did w _ _, by cases outcome <;> rfl⟩
  have blank' : (w.did (.read .manifest) .ok).disk.Blank := (quiet .ok).2 ▸ blank
  simp only [openBackend, readManifest, Fallible.wp_bind, Fallible.wp_read, Io.wp_find]
  refine ⟨safe w (.inl blank), fun _ => ?_, fun left allowed => ?_⟩
  · rw [blank .manifest]
    simp only [Io.wp_write]
    refine ⟨safe _ (.inl blank'), fun _ => ?_, fun left allowed => ?_⟩
    · have later : w.trace <+: ((w.did (.read .manifest) .ok).did
          (.write .manifest (.manifest ⟨s.schema, s.orderingKey, 0, .empty⟩)) .ok).trace :=
        (quiet .ok).1.trans (World.trace_did _ _ _)
      have calm : (((w.did (.read .manifest) .ok).did
          (.write .manifest (.manifest ⟨s.schema, s.orderingKey, 0, .empty⟩)) .ok).disk :
          Disk F).Calm := fun file held => by
        have absent : ((w.did (.read .manifest) .ok).disk.publish .manifest
            (.manifest ⟨s.schema, s.orderingKey, 0, .empty⟩)).get .wal = none :=
          (Disk.get_publish_other (by simp)).trans (blank' .wal)
        exact absurd (held.symm.trans absent) (by simp)
      have leaves : (Image.blank : Image F).Leaves = (· = []) :=
        funext fun ledger => propext (Image.blank_leaves ledger)
      refine wp_openLayout unfilled (blank'.on s.schema s.orderingKey) calm sections generation ?_ ?_ ?_
      · intro w' recovers
        rw [leaves, Image.blank_pending] at recovers
        exact safe w' (.inr recovers)
      · intro e s' w' later' fails recovers
        rw [leaves, Image.blank_pending] at recovers
        exact failed e s' w' (later.trans later') (fails.earlier later) (.inr recovers)
      · exact fun s' w' later' opens => done s' w' (later.trans later') opens
    · exact failed _ _ _ ((quiet .ok).1.trans (World.trace_did _ _ _))
        (.inr (.inl ⟨_, _, _, left, (quiet .ok).1, by simp, allowed⟩)) (.inl blank')
  · exact failed _ _ _ (quiet _).1 (.inl ⟨w, _, left, List.prefix_rfl, .inr (.inl ⟨_, rfl⟩), allowed⟩)
      (.inl ((quiet (.err left)).2 ▸ blank))

end Store

end TallyDB
