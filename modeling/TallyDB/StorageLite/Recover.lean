import TallyDB.StorageLite.Invariant

/-!
# From a disk to its image

`recovers` reads the image off a disk whose log belongs to its generation: the recovered
rows are the segments' and those of the units after the flushed ones.
-/

namespace TallyDB

variable {F : Type}

/-- The coordinates that a generation's delete logs commit. -/
def committedOf (disk : Disk F) (generation : Nat) : List Nat :=
  disk.names.filterMap fun name => match name with
    | .deleteLog own number =>
      if own = generation then
        match disk.get (.deleteLog own number) with
        | some (.deleteLog log) => if log.superseding ≠ 0 then some log.superseding else none
        | _ => none
      else none
    | _ => none

theorem mem_committedOf {disk : Disk F} {generation sequence : Nat} :
    sequence ∈ committedOf disk generation ↔ Committed disk generation sequence := by
  unfold committedOf Committed
  rw [List.mem_filterMap]
  constructor
  · rintro ⟨name, listed, found⟩
    cases name with
    | deleteLog own number =>
      simp only at found
      split at found
      · next same =>
        subst same
        cases held : disk.get (.deleteLog own number) with
        | none => simp [held] at found
        | some object =>
          cases object with
          | deleteLog log =>
            simp only [held] at found
            split at found
            · next nonzero =>
              obtain rfl := Option.some.inj found
              exact ⟨nonzero, number, log, held, rfl⟩
            · cases found
          | _ => simp [held] at found
      · cases found
    | _ => cases found
  · rintro ⟨nonzero, number, log, held, rfl⟩
    refine ⟨.deleteLog generation number, Disk.mem_names.mpr (by rw [held]; rfl), ?_⟩
    simp [held, nonzero]

def firstSegment (disk : Disk F) (generation : Nat) : Option (Segment F) :=
  match disk.get (.segment generation 0) with
  | some (.segment segment) => some segment
  | _ => none

theorem rows_length [F64 F] (segment : Segment F) : segment.rows.length = segment.numRows := by
  simp [Segment.rows]

theorem Covers.total {base last : Nat} {segments : List (Segment F)}
    (covers : Covers base segments last) :
    base + (segments.map Segment.numRows).sum = last := by
  induction segments generalizing base with
  | nil => exact covers
  | cons segment rest ih =>
    rw [List.map_cons, List.sum_cons, ← Nat.add_assoc]
    exact ih covers.2

theorem Covers.nil_iff {segments : List (Segment F)} {last : Nat} (covers : Covers 0 segments last)
    (filled : ∀ segment ∈ segments, 0 < segment.numRows) : segments = [] ↔ last = 0 := by
  constructor
  · rintro rfl
    exact covers.symm
  · intro none
    cases segments with
    | nil => rfl
    | cons segment rest =>
      have bound := (covers.bound List.mem_cons_self).2
      have rows := filled segment List.mem_cons_self
      omega

theorem skipFlushed_suffix (skip : Nat) (units : List (Replayed F)) :
    skipFlushed skip units <:+ units := by
  induction units generalizing skip with
  | nil => simp [skipFlushed]
  | cons unit units ih =>
    rw [skipFlushed]
    split
    · exact (skipFlushed_zero units).symm ▸ List.suffix_rfl
    · split
      · exact (ih _).trans (List.suffix_cons _ _)
      · exact (ih _).trans (List.suffix_cons _ _)

/-- Skipping among ordinary units drops rows one by one. -/
theorem skipFlushed_ordinary {units : List (Replayed F)} (ordinary : Ordinary units) (skip : Nat) :
    unitRows (skipFlushed skip units) = (unitRows units).drop skip := by
  induction units generalizing skip with
  | nil => simp [skipFlushed]
  | cons unit units ih =>
    obtain ⟨cells, rfl⟩ := ordinary unit List.mem_cons_self
    have later : Ordinary units := fun unit member => ordinary unit (List.mem_cons_of_mem _ member)
    cases skip with
    | zero => rw [skipFlushed_zero, List.drop_zero]
    | succ skip =>
      rw [skipFlushed, if_neg (Nat.succ_ne_zero skip),
        if_pos (by simp only [Replayed.rowCount]; omega), ih later]
      simp [Replayed.rowCount, Replayed.rows]

/-! ### Power loss -/

theorem cleanPrefix_append (entries : List (WalEntry F)) (frames : List (Option (WalEntry F))) :
    cleanPrefix (entries.map some ++ frames) = entries ++ cleanPrefix frames := by
  induction entries with
  | nil => rfl
  | cons entry entries ih => exact congrArg (entry :: ·) ih

theorem cleanPrefix_take (entries : List (WalEntry F)) (torn : Bool) (count : Nat) :
    ∃ kept, cleanPrefix ((entries.map some ++ if torn then [none] else []).take count) =
      entries.take kept := by
  refine ⟨count, ?_⟩
  rw [List.take_append, ← List.map_take, cleanPrefix_append]
  have nothing : cleanPrefix ((if torn then [none] else [] : List (Option (WalEntry F))).take
      (count - (entries.map some).length)) = [] := by
    cases torn
    · simp [cleanPrefix]
    · cases count - (entries.map some).length <;> simp [cleanPrefix]
  rw [nothing, List.append_nil]

theorem cleanPrefix_concat_none (frames : List (Option (WalEntry F))) :
    cleanPrefix (frames ++ [none]) = cleanPrefix frames := by
  induction frames with
  | nil => rfl
  | cons frame frames ih =>
    cases frame with
    | none => rfl
    | some entry => exact congrArg (entry :: ·) ih

/-- A crash keeps the synced records and some of the unsynced ones. -/
theorem crash_log {disk : Disk F} {writer generation base : Nat}
    {synced unsynced : List (WalEntry F)} {torn : Bool}
    (held : LogState disk writer generation base synced unsynced torn) (survivors : Nat) (cut : Bool) :
    ∃ file kept, (disk.crash survivors cut).get .wal = some (.log file) ∧
      file.generation = generation ∧ file.baseRowId = base ∧
      cleanPrefix file.frames = synced ++ unsynced.take kept := by
  unfold Disk.crash
  rw [held]
  obtain ⟨kept, taken⟩ := cleanPrefix_take unsynced torn survivors
  refine ⟨_, kept, (Disk.get_insert _ _).trans (if_pos rfl), rfl, rfl, ?_⟩
  have reach : ((synced ++ unsynced).map some ++ if torn then [none] else []).take
    (synced.length + survivors) =
      synced.map some ++ (unsynced.map some ++ if torn then [none] else []).take survivors := by
    have length : synced.length = (synced.map (some : WalEntry F → _)).length := by simp
    rw [List.map_append, List.append_assoc, length, List.take_length_add_append]
  have whole (condition : Bool) (frames : List (Option (WalEntry F))) :
      cleanPrefix (if condition then frames ++ [none] else frames) = cleanPrefix frames := by
    cases condition
    · rfl
    · exact cleanPrefix_concat_none frames
  simp only [whole, reach, cleanPrefix_append, taken]

section Recovers

variable [F64 F] {disk : Disk F} {schema : Schema} {orderingKey generation nextLog bufferBase : Nat}
variable {sections : ManifestSections F} {segments past : List (Segment F)} {kills : Tombstones}
variable {flushed rowless live : List (Replayed F)} {entries : List (WalEntry F)}

/-- What an open finds beside the log. -/
structure Laid (disk : Disk F) (schema : Schema) (orderingKey generation : Nat)
    (sections : ManifestSections F) (segments past : List (Segment F)) (kills : Tombstones)
    (nextLog bufferBase : Nat) (rows : List (Row F)) : Prop where
  layout : Layout disk schema orderingKey generation sections segments past kills nextLog
  covers : Covers 0 segments bufferBase
  segmentsOk : ∀ segment ∈ segments, SegmentOk schema orderingKey segment
  pastOk : ∀ segment ∈ past, HistoryOk schema orderingKey segment
  killed : ∀ id, (kills.lookup id).isSome → id < bufferBase
  leftover : segments = [] → ∀ base object, disk.get (.segment generation base) = some object →
    base = 0 ∧ ∃ segment, object = .segment segment ∧ SegmentOk schema orderingKey segment ∧
      segment.baseRowId = 0 ∧ segment.rows <+: rows

/-- The image of a disk, with the log's part given. -/
def imageOf (disk : Disk F) (generation : Nat) (sections : ManifestSections F)
    (segments past : List (Segment F)) (kills : Tombstones) (nextLog base : Nat)
    (entries : List (WalEntry F)) : Image F where
  generation
  sections
  recorded := segments
  orphan := if segments.isEmpty then firstSegment disk generation else none
  past
  kills
  nextLog
  committed := committedOf disk generation
  base
  entries

theorem imageOf_orphan {segment : Segment F} {base : Nat}
    (leftover : segments = [] → ∀ base object, disk.get (.segment generation base) = some object →
      base = 0 ∧ ∃ segment, object = .segment segment ∧ SegmentOk schema orderingKey segment ∧
      segment.baseRowId = 0)
    (found : (imageOf disk generation sections segments past kills nextLog base entries).orphan =
      some segment) :
    segments = [] ∧ disk.get (.segment generation 0) = some (.segment segment) ∧
    SegmentOk schema orderingKey segment ∧
      segment.baseRowId = 0 := by
  unfold imageOf at found
  simp only at found
  split at found
  · next none =>
    have empty := List.isEmpty_iff.mp none
    unfold firstSegment at found
    split at found
    · next own held =>
      obtain ⟨-, own', same, ok, start⟩ := leftover empty 0 _ held
      obtain rfl := Object.segment.inj same
      obtain rfl := Option.some.inj found
      exact ⟨empty, held, ok, start⟩
    · cases found
  · cases found

theorem imageOf_stands {base : Nat}
    (layout : Layout disk schema orderingKey generation sections segments past kills nextLog)
    (covers : Covers 0 segments bufferBase)
    (segmentsOk : ∀ segment ∈ segments, SegmentOk schema orderingKey segment)
    (pastOk : ∀ segment ∈ past, HistoryOk schema orderingKey segment)
    (killed : ∀ id, (kills.lookup id).isSome → id < bufferBase)
    (leftover : segments = [] → ∀ base object, disk.get (.segment generation base) = some object →
      base = 0 ∧ ∃ segment, object = .segment segment ∧ SegmentOk schema orderingKey segment ∧
      segment.baseRowId = 0) :
    (imageOf disk generation sections segments past kills nextLog base entries).Stands disk schema
      orderingKey := by
  have total := covers.total
  simp only [Nat.zero_add] at total
  refine ⟨layout, ?_, ?_, fun sequence => mem_committedOf, ?_, ?_, pastOk, ?_⟩
  · intro none at_ object
    have empty : segments = [] := none
    subst empty
    have orphan : (imageOf disk generation sections [] past kills nextLog base entries).orphan =
      firstSegment disk generation := rfl
    rw [orphan]
    constructor
    · intro held
      obtain ⟨rfl, segment, rfl, -⟩ := leftover rfl at_ object held
      exact ⟨rfl, segment, by
          simp only [firstSegment]
          rw [show disk.get (.segment generation 0) = _ from held], rfl⟩
    · rintro ⟨rfl, segment, found, rfl⟩
      unfold firstSegment at found
      split at found
      · next own held =>
        obtain rfl := Option.some.inj found
        exact held
      · cases found
  · intro some
    have filled : segments ≠ [] := some
    simp [imageOf, filled]
  · unfold Image.total Image.visible
    cases found : (imageOf disk generation sections segments past kills nextLog base
      entries).orphan with
    | none => simpa [imageOf, total] using covers
    | some segment =>
      obtain ⟨rfl, -, -, start⟩ := imageOf_orphan leftover found
      exact ⟨start, by simp [imageOf, Covers]⟩
  · intro segment member
    rcases List.mem_append.mp member with recorded | orphan
    · exact segmentsOk segment recorded
    · exact (imageOf_orphan leftover (Option.mem_toList.mp orphan)).2.2.1
  · intro id dead
    refine Nat.lt_of_lt_of_le (killed id dead) ?_
    simp [Image.total, Image.visible, imageOf, total]

theorem Laid.leftovers {rows : List (Row F)}
    (laid : Laid disk schema orderingKey generation sections segments past kills nextLog bufferBase
      rows) (empty : segments = [])
    (base : Nat) (object : Object F) (held : disk.get (.segment generation base) = some object) :
    base = 0 ∧ ∃ segment, object = .segment segment ∧ SegmentOk schema orderingKey segment ∧
    segment.baseRowId = 0 := by
  obtain ⟨first, segment, same, ok, start, -⟩ := laid.leftover empty base object held
  exact ⟨first, segment, same, ok, start⟩

/-- The orphan of an image holds a prefix of the rows. -/
theorem Laid.orphan {rows : List (Row F)} {segment : Segment F}
    (laid : Laid disk schema orderingKey generation sections segments past kills nextLog
      bufferBase rows)
    (base : Nat)
    (found : (imageOf disk generation sections segments past kills nextLog base entries).orphan =
      some segment) :
    segments = [] ∧ SegmentOk schema orderingKey segment ∧ segment.baseRowId = 0 ∧
    segment.rows <+: rows := by
  obtain ⟨empty, held, ok, start⟩ := imageOf_orphan laid.leftovers found
  obtain ⟨-, own, same, -, -, covered⟩ := laid.leftover empty 0 _ held
  obtain rfl := Object.segment.inj same
  exact ⟨empty, ok, start, covered⟩

theorem Laid.on {rows : List (Row F)} {base : Nat}
    (laid : Laid disk schema orderingKey generation sections segments past kills nextLog
      bufferBase rows)
    (log : (imageOf disk generation sections segments past kills nextLog base entries).LogOn disk)
    (valid : ∀ row ∈ unitRows (imageOf disk generation sections segments past kills nextLog base
      entries).replay,
      schema.validate row = .ok ())
    (ordinary : segments = [] →
      Ordinary (imageOf disk generation sections segments past kills nextLog base entries).replay)
    (witnessed : ∀ sequence ∈ committedOf disk generation,
      Witnessed (imageOf disk generation sections segments past kills nextLog base entries).visible
      kills
        (imageOf disk generation sections segments past kills nextLog base entries).replay sequence) :
    (imageOf disk generation sections segments past kills nextLog base entries).On disk schema
      orderingKey := by
  have stands : (imageOf disk generation sections segments past kills nextLog base entries).Stands
      disk schema orderingKey :=
    imageOf_stands laid.layout laid.covers laid.segmentsOk laid.pastOk laid.killed laid.leftovers
  exact {
    layout := stands.layout
    orphans := stands.orphans
    alone := stands.alone
    committed := stands.committed
    witnessed
    log
    covers := stands.covers
    segments := stands.segments
    past := stands.past
    killed := stands.killed
    valid
    ordinary }

/-- The image of a disk whose log belongs to its generation. The recovered rows are those of
the segments and of `live`, the units that resolve after the flushed ones. -/
theorem recovers {file : LogFile F}
    (laid : Laid disk schema orderingKey generation sections segments past kills nextLog bufferBase
      (unitRows live))
    (held : disk.get .wal = some (.log file)) (own : file.generation = generation)
    (start : file.baseRowId + (unitRows flushed).length = bufferBase)
    (clean : cleanPrefix file.frames = entries)
    (skips : skipFlushed (unitRows flushed).length (resolve (committedOf disk generation) entries) =
      rowless ++ live)
    (none : Rowless rowless)
    (ordinary : segments = [] → Ordinary (resolve (committedOf disk generation) entries))
    (valid : ∀ row ∈ unitRows live, schema.validate row = .ok ())
    (witnessed : ∀ sequence ∈ committedOf disk generation, Witnessed segments kills live sequence) :
    ∃ image : Image F, image.On disk schema orderingKey ∧
      image.ledger = ledgerOf (segments.flatMap Segment.rows ++ unitRows live) kills ∧
      image.recorded = segments ∧ image.past = past ∧ image.kills = kills ∧
      image.generation = generation ∧
      image.sections = sections ∧ (image.orphan = Option.none → image.replay = rowless ++ live) ∧
      image.committed = committedOf disk generation := by
  have total := laid.covers.total
  simp only [Nat.zero_add] at total
  let image := imageOf disk generation sections segments past kills nextLog file.baseRowId entries
  -- The rows of the visible segments and the replay are those of the segments and `live`.
  have replayed : (image.orphan = Option.none → image.replay = rowless ++ live) ∧
      image.visible.flatMap Segment.rows ++ unitRows image.replay =
        segments.flatMap Segment.rows ++ unitRows live ∧
      (∀ row ∈ unitRows image.replay, row ∈ unitRows live) ∧
      ∀ sequence ∈ committedOf disk generation,
        Witnessed image.visible kills image.replay sequence := by
    cases found : image.orphan with
    | none =>
      have visible : image.visible = segments := by simp [Image.visible, found]; rfl
      have skip : image.total - image.base = (unitRows flushed).length := by
        have count : image.total = bufferBase := by rw [Image.total, visible, total]
        have base : image.base = file.baseRowId := rfl
        omega
      have replay : image.replay = rowless ++ live := by
        rw [Image.replay, skip]
        exact skips
      refine ⟨fun _ => replay, ?_, ?_, fun sequence committed => ?_⟩
      · rw [replay, unitRows_append, none.unitRows, visible, List.nil_append]
      · rw [replay, unitRows_append, none.unitRows]
        exact fun row member => member
      · rw [replay, visible]
        exact (witnessed sequence committed).mono (List.subset_append_right _ _)
    | some segment =>
      obtain ⟨empty, ok, -, covered⟩ := laid.orphan file.baseRowId found
      have first : bufferBase = 0 := by rw [← total, empty]; rfl
      have base : image.base = 0 := by
        have base : image.base = file.baseRowId := rfl
        omega
      have units : resolve (committedOf disk generation) entries = rowless ++ live := by
        rw [← skips, show (unitRows flushed).length = 0 by omega, skipFlushed_zero]
      have visible : image.visible = [segment] := by
        simp only [Image.visible, found, Option.toList_some]
        rw [show image.recorded = segments from rfl, empty, List.nil_append]
      have count : image.total = segment.rows.length := by
        rw [Image.total, visible, rows_length]
        simp
      have rows : unitRows image.replay = (unitRows live).drop segment.rows.length := by
        rw [Image.replay, count, base, Nat.sub_zero]
        rw [show resolve image.committed image.entries = rowless ++ live from units]
        rw [skipFlushed_ordinary (units ▸ ordinary empty), unitRows_append, none.unitRows,
          List.nil_append]
      refine ⟨fun impossible => (Option.some_ne_none segment impossible).elim, ?_, ?_,
        fun sequence committed => ?_⟩
      · obtain ⟨rest, same⟩ := covered
        rw [rows, visible, empty, ← same]
        simp
      · exact fun row member => List.mem_of_mem_drop (rows ▸ member)
      · -- Before the first flush nothing is committed.
        rcases witnessed sequence committed with born | ⟨replaced, -, member⟩ | ⟨id, killed⟩
        · simp [empty] at born
        · obtain ⟨cells, same⟩ := ordinary empty _ (units ▸ List.mem_append_right rowless member)
          cases same
        · have below := laid.killed id (by rw [killed]; rfl)
          omega
  refine ⟨image, laid.on (.inr ⟨file, held, .inl ⟨own, rfl, clean⟩⟩) ?_ ?_ replayed.2.2.2, ?_, rfl,
    rfl, rfl, rfl, rfl, replayed.1, rfl⟩
  · exact fun row member => valid row (replayed.2.2.1 row member)
  · exact fun bare unit member => ordinary bare unit ((skipFlushed_suffix _ _).subset member)
  · rw [Image.ledger, replayed.2.1]
    rfl

/-- The image of a disk whose log is of another generation: the segments alone. -/
theorem recovers_foreign {file : LogFile F}
    (laid : Laid disk schema orderingKey generation sections segments past kills nextLog bufferBase [])
    (held : disk.get .wal = some (.log file)) (foreign : file.generation ≠ generation)
    (none : committedOf disk generation = []) :
    ∃ image : Image F, image.On disk schema orderingKey ∧
      image.ledger = ledgerOf (segments.flatMap Segment.rows) kills ∧ image.replay = [] := by
  let image := imageOf disk generation sections segments past kills nextLog 0 []
  have replay : image.replay = [] := by
    have none : resolve image.committed image.entries = [] := by
      rw [show image.entries = [] from rfl, resolve]
    rw [Image.replay, none, skipFlushed]
  have visible : image.visible = segments := by
    cases found : image.orphan with
    | none => simp [Image.visible, found]; rfl
    | some segment =>
      obtain ⟨-, ok, -, covered⟩ := laid.orphan 0 found
      have rows := List.prefix_nil.mp covered
      have filled := ok.filled
      rw [← rows_length, rows] at filled
      cases filled
  refine ⟨image, laid.on (.inr ⟨file, held, .inr ⟨foreign, rfl⟩⟩) ?_ ?_ (by simp [none]), ?_⟩
  · rw [show (imageOf disk generation sections segments past kills nextLog 0 []).replay =
      [] from replay]
    simp
  · rw [show (imageOf disk generation sections segments past kills nextLog 0 []).replay =
      [] from replay]
    simp [Ordinary]
  · rw [Image.ledger, replay, visible, unitRows_nil, List.append_nil]
    exact ⟨rfl, rfl⟩

end Recovers

/-! ### At rest -/

/-- What an image replays is committed, or it is among `live`. -/
def Image.Within (image : Image F) (live : List (Replayed F)) : Prop :=
  ∀ unit ∈ image.replay, unit.rows ≠ [] → unit.Counts image.committed ∨ unit ∈ live

/-- Every power loss leaves an image within `live` whose ledger meets `p`. -/
def Disk.Recovers [F64 F] (disk : Disk F) (schema : Schema) (orderingKey : Nat)
    (live : List (Replayed F))
    (p : Ledger F → Prop) : Prop :=
  ∀ survivors torn, ∃ image : Image F,
    image.On (disk.crash survivors torn) schema orderingKey ∧ image.Within live ∧ p image.ledger

theorem Disk.Recovers.mono [F64 F] {disk : Disk F} {schema : Schema} {orderingKey : Nat}
    {live : List (Replayed F)}
    {p q : Ledger F → Prop} (recovers : disk.Recovers schema orderingKey live p)
    (weaken : ∀ ledger, p ledger → q ledger) :
    disk.Recovers schema orderingKey live q := fun survivors torn => by
  obtain ⟨image, on, inside, holds⟩ := recovers survivors torn
  exact ⟨image, on, inside, weaken _ holds⟩

theorem Disk.Recovers.widen [F64 F] {disk : Disk F} {schema : Schema} {orderingKey : Nat}
    {live more : List (Replayed F)}
    {p : Ledger F → Prop} (recovers : disk.Recovers schema orderingKey live p) (wider : live ⊆ more) :
    disk.Recovers schema orderingKey more p := fun survivors torn => by
  obtain ⟨image, on, inside, holds⟩ := recovers survivors torn
  exact ⟨image, on, fun unit member filled => (inside unit member filled).imp_right (@wider unit),
    holds⟩

theorem settled_congr {committed other : List Nat}
    (same : ∀ sequence, sequence ∈ committed ↔ sequence ∈ other)
    (units : List (Replayed F)) : settled committed units = settled other units := by
  rw [← resolve_units, resolve_congr same, resolve_units]

theorem settled_initial (committed : List Nat) (units : List (Replayed F)) :
    settled committed units <+: units := by
  unfold settled
  split
  · exact List.nil_prefix
  · split
    · exact List.prefix_rfl
    · exact List.dropLast_prefix units

theorem mem_of_settled {committed : List Nat} {units : List (Replayed F)} {unit : Replayed F}
    (member : unit ∈ settled committed units) : unit ∈ units :=
  (settled_initial committed units).subset member

theorem mem_settled {committed : List Nat} {units : List (Replayed F)} {unit : Replayed F}
    (member : unit ∈ units)
    (counts : unit.Counts committed) : unit ∈ settled committed units := by
  induction units using List.reverseRecOn with
  | nil => cases member
  | append_singleton units last _ =>
    rw [settled_concat]
    split
    · exact member
    · next uncounted =>
      rcases List.mem_append.mp member with old | new
      · exact old
      · exact (uncounted (List.mem_singleton.mp new ▸ counts)).elim

/-- What witnesses a committed coordinate settles. -/
theorem Witnessed.settled {committed : List Nat} {units : List (Replayed F)}
    {segments : List (Segment F)} {kills : Tombstones}
    {sequence : Nat} (witnessed : Witnessed segments kills units sequence)
    (counts : sequence ∈ committed) :
    Witnessed segments kills (settled committed units) sequence :=
  witnessed.imp_right
    (.imp_left fun ⟨rows, filled, member⟩ => ⟨rows, filled, mem_settled member counts⟩)

theorem settled_within {committed : List Nat} {units : List (Replayed F)} {last unit : Replayed F}
    (member : unit ∈ settled committed (units ++ [last])) : unit.Counts committed ∨ unit ∈ units := by
  rw [settled_concat] at member
  split at member
  · next counts =>
    rcases List.mem_append.mp member with old | new
    · exact .inr old
    · exact .inl (List.mem_singleton.mp new ▸ counts)
  · exact .inr member

/-- What is left of the live units once the log is resolved and its flushed part skipped. -/
theorem skip_settled {committed : List Nat} (flushed live : List (Replayed F)) :
    ∃ rowless, Rowless rowless ∧ skipFlushed (unitRows flushed).length
      (settled committed (flushed ++ live)) = rowless ++ settled committed live := by
  induction live using List.reverseRecOn with
  | nil =>
    have covered : (unitRows (settled committed flushed)).length ≤ (unitRows flushed).length := by
      obtain ⟨rest, same⟩ := settled_initial committed flushed
      conv_rhs => rw [← same, unitRows_append, List.length_append]
      exact Nat.le_add_right _ _
    refine ⟨_, skipFlushed_covered covered, ?_⟩
    rw [List.append_nil]
    exact (List.append_nil _).symm
  | append_singleton live unit _ =>
    rw [← List.append_assoc, settled_concat, settled_concat]
    split
    · rw [List.append_assoc]
      exact skipFlushed_boundary _ _
    · exact skipFlushed_boundary _ _

namespace Store

variable [F64 F] {store : Store F} {disk : Disk F} {segments past : List (Segment F)}
variable {flushed live : List (Replayed F)}

def ledger (store : Store F) (segments : List (Segment F)) : Ledger F :=
  ledgerOf (segments.flatMap Segment.rows ++ store.buffer.rows) store.tombstones

/-- The ledger without the supersession that a log's end leaves uncommitted. -/
def settledLedger (store : Store F) (disk : Disk F) (segments : List (Segment F))
    (live : List (Replayed F)) : Ledger F :=
  ledgerOf (segments.flatMap Segment.rows ++
    unitRows (settled (committedOf disk store.generation) live))
    store.tombstones

/-- The live units that no delete log commits. -/
def pending (store : Store F) (disk : Disk F) (live : List (Replayed F)) : List (Replayed F) :=
  live.filter fun unit => ¬ unit.Counts (committedOf disk store.generation)

omit [F64 F] in
theorem mem_pending {unit : Replayed F} : unit ∈ store.pending disk live ↔
    unit ∈ live ∧ ¬ unit.Counts (committedOf disk store.generation) := by
  simp [pending]

omit [F64 F] in
theorem counts_or_pending {committed : List Nat} {unit : Replayed F} (member : unit ∈ live)
    (same : ∀ sequence, sequence ∈ committed ↔ sequence ∈ committedOf disk store.generation) :
    unit.Counts committed ∨ unit ∈ store.pending disk live := by
  by_cases counts : unit.Counts (committedOf disk store.generation)
  · exact .inl ((Replayed.counts_congr same unit).mpr counts)
  · exact .inr (mem_pending.mpr ⟨member, counts⟩)

omit [F64 F] in
theorem pending_subset {first second : Store F} {other : Disk F} {more : List (Replayed F)}
    (generation : second.generation = first.generation)
    (kept : ∀ sequence, Committed disk first.generation sequence →
      Committed other first.generation sequence)
    (fewer : ∀ unit ∈ live, unit ∈ more ∨ unit.Counts (committedOf other second.generation)) :
    second.pending other live ⊆ first.pending disk more := fun unit member => by
  obtain ⟨inside, uncounted⟩ := mem_pending.mp member
  refine mem_pending.mpr ⟨(fewer unit inside).resolve_right uncounted, fun counts => uncounted ?_⟩
  rw [generation]
  cases unit with
  | row cells => trivial
  | supersession sequence rows => exact mem_committedOf.mpr (kept sequence (mem_committedOf.mp counts))

theorem Logged.laid (logged : store.Logged disk segments past flushed live)
    (sound : store.Sound disk segments past) :
    Laid disk store.schema store.orderingKey store.generation store.sections segments past
      store.tombstones
      store.deleteLogSequence store.bufferBase store.buffer.rows where
  layout := logged.layout
  covers := sound.covers
  segmentsOk := sound.segmentsOk
  pastOk := sound.pastOk
  killed := logged.killedDurable
  leftover := logged.leftover

theorem Sound.valid (sound : store.Sound disk segments past) :
    ∀ row ∈ store.buffer.rows, store.schema.validate row = .ok () := by
  intro row member
  have checked := store.buffer.valid row member
  rwa [sound.bufferSchema] at checked

end Store

theorem Ordinary.settled {committed : List Nat} {units : List (Replayed F)}
    (ordinary : Ordinary units) :
    settled committed units = units := by
  induction units using List.reverseRecOn with
  | nil => rfl
  | append_singleton units unit _ =>
    obtain ⟨cells, rfl⟩ := ordinary unit (by simp)
    rw [settled_concat, if_pos (by exact trivial)]

theorem Laid.frame [F64 F] {disk : Disk F} {schema : Schema}
    {orderingKey generation nextLog bufferBase : Nat}
    {sections : ManifestSections F} {segments past : List (Segment F)} {kills : Tombstones}
    {rows : List (Row F)}
    (laid : Laid disk schema orderingKey generation sections segments past kills nextLog
      bufferBase rows)
    {other : Disk F} (same : ∀ name, name ≠ .wal → other.get name = disk.get name) :
    Laid other schema orderingKey generation sections segments past kills nextLog bufferBase rows where
  layout := laid.layout.frame fun name inside => same name (by rintro rfl; exact inside)
  covers := laid.covers
  segmentsOk := laid.segmentsOk
  pastOk := laid.pastOk
  killed := laid.killed
  leftover empty base object held :=
    laid.leftover empty base object ((same (.segment generation base) (by simp)).symm.trans held)

section Crash

variable [F64 F] {disk : Disk F} {schema : Schema} {orderingKey generation nextLog bufferBase : Nat}
variable {sections : ManifestSections F} {segments past : List (Segment F)} {kills : Tombstones}
variable {rows : List (Row F)} {flushed known : List (Replayed F)} {p : Ledger F → Prop}

/-- What the records that survive a crash come to: units behind the flushed rows, committed
or among `known`, whose ledger meets `p`. -/
structure Lands (schema : Schema) (segments : List (Segment F)) (kills : Tombstones)
    (committed : List Nat)
    (rows : List (Row F)) (flushed known : List (Replayed F)) (p : Ledger F → Prop)
    (entries : List (WalEntry F))
    (live : List (Replayed F)) : Prop where
  skips : ∃ rowless, Rowless rowless ∧
    skipFlushed (unitRows flushed).length (resolve committed entries) = rowless ++ live
  ordinary : segments = [] → Ordinary (resolve committed entries) ∧ rows <+: unitRows live
  valid : ∀ row ∈ unitRows live, schema.validate row = .ok ()
  within : ∀ unit ∈ live, unit.Counts committed ∨ unit ∈ known
  witnessed : ∀ sequence ∈ committed, Witnessed segments kills live sequence
  ledger : p (ledgerOf (segments.flatMap Segment.rows ++ unitRows live) kills)

theorem Laid.recovers {writer base : Nat} {synced unsynced : List (WalEntry F)} {torn : Bool}
    (laid : Laid disk schema orderingKey generation sections segments past kills nextLog
      bufferBase rows)
    (held : LogState disk writer generation base synced unsynced torn)
    (start : base + (unitRows flushed).length = bufferBase)
    (lands : ∀ kept, ∃ live,
      Lands schema segments kills (committedOf disk generation) rows flushed known p
      (synced ++ unsynced.take kept) live) : disk.Recovers schema orderingKey known p := by
  intro survivors cut
  obtain ⟨file, kept, found, own, base', clean⟩ := crash_log held survivors cut
  obtain ⟨live, ⟨rowless, none, skips⟩, ordinary, valid, inside, witnessed, ledger⟩ := lands kept
  have same : ∀ name, name ≠ .wal → (disk.crash survivors cut).get name = disk.get name :=
    fun name different => Disk.get_crash_other survivors cut different
  have which (sequence : Nat) : sequence ∈ committedOf (disk.crash survivors cut) generation ↔
      sequence ∈ committedOf disk generation := by
    rw [mem_committedOf, mem_committedOf]
    exact Committed.frame fun number => same (.deleteLog generation number) (by simp)
  have resolved (entries : List (WalEntry F)) :
      resolve (committedOf (disk.crash survivors cut) generation) entries =
        resolve (committedOf disk generation) entries := resolve_congr which entries
  have widened : Laid (disk.crash survivors cut) schema orderingKey generation sections
    segments past kills
      nextLog bufferBase (unitRows live) := by
    refine { laid.frame same with leftover := fun empty base object held => ?_ }
    obtain ⟨first, segment, same, ok, start, covered⟩ :=
      (laid.frame same).leftover empty base object held
    exact ⟨first, segment, same, ok, start, covered.trans (ordinary empty).2⟩
  obtain ⟨image, on, shows, -, -, -, -, -, replay, commits⟩ :=
    TallyDB.recovers widened found own (base' ▸ start)
    clean (by rw [resolved]; exact skips) none (fun empty => by
        rw [resolved]
        exact (ordinary empty).1) valid
    fun sequence committed => witnessed sequence ((which sequence).mp committed)
  refine ⟨image, on, fun unit member filled => ?_, shows ▸ ledger⟩
  cases orphan : image.orphan with
  | none =>
    rw [replay orphan] at member
    rcases List.mem_append.mp member with early | late
    · exact (filled (none unit early)).elim
    · rw [commits]
      exact (inside unit late).imp_left (Replayed.counts_congr which unit).mpr
  | some segment =>
    have bare : image.recorded = [] := by
      by_contra some
      rw [on.alone some] at orphan
      cases orphan
    obtain ⟨cells, rfl⟩ := on.ordinary bare unit member
    exact .inl trivial

/-- A disk whose log is of another generation recovers the segments alone. -/
theorem Laid.recovers_foreign {file : LogFile F}
    (laid : Laid disk schema orderingKey generation sections segments past kills nextLog bufferBase [])
    (held : disk.get .wal = some (.log file)) (foreign : file.generation ≠ generation)
    (none : committedOf disk generation = [])
    (ledger : p (ledgerOf (segments.flatMap Segment.rows) kills)) :
    disk.Recovers schema orderingKey known p := by
  intro survivors torn
  have same : ∀ name, name ≠ .wal → (disk.crash survivors torn).get name = disk.get name :=
    fun name different => Disk.get_crash_other survivors torn different
  obtain ⟨file', found, other⟩ : ∃ file', (disk.crash survivors torn).get .wal = some (.log file') ∧
      file'.generation ≠ generation := by
    unfold Disk.crash
    rw [held]
    exact ⟨_, (Disk.get_insert _ _).trans (if_pos rfl), foreign⟩
  have still : committedOf (disk.crash survivors torn) generation = [] := by
    refine List.eq_nil_iff_forall_not_mem.mpr fun sequence member => ?_
    have committed := (Committed.frame fun number => same (.deleteLog generation number) (by
        simp)).mp (mem_committedOf.mp member)
    have before := mem_committedOf.mpr committed
    rw [none] at before
    cases before
  obtain ⟨image, on, shows, bare⟩ := TallyDB.recovers_foreign (laid.frame same) found other still
  exact ⟨image, on, by simp [Image.Within, bare], shows ▸ ledger⟩

theorem lands_units {committed : List Nat} {live : List (Replayed F)}
    (ordinary : segments = [] → Ordinary (flushed ++ live)) (covered : rows <+: unitRows live)
    (valid : ∀ row ∈ unitRows live, schema.validate row = .ok ())
    (within : ∀ unit ∈ settled committed live, unit.Counts committed ∨ unit ∈ known)
    (witnessed : ∀ sequence ∈ committed, Witnessed segments kills live sequence)
    (ledger : p (ledgerOf (segments.flatMap Segment.rows ++ unitRows (settled committed live)) kills)) :
    Lands schema segments kills committed rows flushed known p
      ((flushed ++ live).flatMap Replayed.entries)
      (settled committed live) := by
  refine ⟨?_, fun empty => ?_, fun row member => ?_, within,
    fun sequence member => (witnessed sequence member).settled member, ledger⟩
  · rw [resolve_units]
    exact skip_settled flushed live
  · have units := ordinary empty
    rw [resolve_units, units.settled]
    refine ⟨units, ?_⟩
    rwa [Ordinary.settled fun unit member => units unit (List.mem_append_right _ member)]
  · obtain ⟨rest, same⟩ := settled_initial committed live
    refine valid row ?_
    rw [← same, unitRows_append]
    exact List.mem_append_left _ member

/-- A store at rest recovers its settled ledger. -/
theorem Store.Logged.recovers {store : Store F} {live : List (Replayed F)}
    (logged : store.Logged disk segments past flushed live) (sound : store.Sound disk segments past)
    (ledger : p (store.settledLedger disk segments live)) :
    disk.Recovers store.schema store.orderingKey (store.pending disk live) p := by
  obtain ⟨writer, base, -, start, held⟩ := logged.log.file
  refine (logged.laid sound).recovers held start fun kept =>
    ⟨settled (committedOf disk store.generation) live, ?_⟩
  rw [List.take_nil, List.append_nil]
  exact lands_units logged.ordinary (logged.log.rows ▸ List.prefix_rfl) (logged.log.rows ▸ sound.valid)
    (fun unit member => counts_or_pending (mem_of_settled member) fun _ => Iff.rfl)
    (fun sequence member => logged.witnessed sequence (mem_committedOf.mp member)) ledger

end Crash

end TallyDB
