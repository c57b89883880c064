import TallyDB.Chronicle.Touch
import TallyDB.Logic.Except
import TallyDB.StorageLite.Compactable
import TallyDB.StorageLite.PastFixed

/-!
# The touched walk

Which rows a refresh has to look at again: those born or killed at or after a coordinate. The
walk skips live segments by their metadata, resolves pending kills by row id and scans the
history, and misses none of them.
-/

namespace TallyDB

open Crash Chronicle

variable {F : Type}

/-! ### The walk -/

def Tombstones.ids (stamps : Tombstones) : List Nat := (stamps.map Prod.fst).dedup.insertionSort (· ≤ ·)

/-- The rows of a live segment that were born at or after `since`. -/
def Segment.bornSince (since : Nat) (segment : Segment F) : List (Segment F × Nat) :=
  ((List.range segment.numRows).filter fun row => since ≤ segment.sequenceAt row).map (segment, ·)

/-- The rows of a history segment that were born or killed at or after `since`, or killed at
an unknown coordinate. -/
def Segment.endedSince (since : Nat) (segment : Segment F) : List (Segment F × Nat) :=
  ((List.range segment.numRows).filter fun row =>
    let kill := segment.superseded.elim 0 (·.getD row 0)
    kill = 0 || since ≤ kill || since ≤ segment.sequenceAt row).map (segment, ·)

def holdsRow (base rows id : Nat) : Bool := base ≤ id && id < base + rows

namespace KnowledgeSnapshot

variable {σ : Type}

/-- Every row born or killed at or after `since`, as its segment and its place there. -/
def touchedWalk (snapshot : KnowledgeSnapshot F) (since : Nat) : Io F σ (List (Segment F × Nat)) := do
  let births ← Fallible.collect (fun handle : SegmentHandle F =>
    -- One past the largest birth is at most `since`: the segment is not read.
    if handle.slot.info.sequenceEnd ≤ since then pure []
    else do
      let view ← handle.view snapshot.schema
      return view.segment.bornSince since) snapshot.latest
  let kills ← Fallible.collect (fun id =>
    let kill := (snapshot.stamps.lookup id).getD 0
    if kill ≠ 0 ∧ kill < since then pure []
    else match snapshot.latest.find? fun handle =>
    holdsRow handle.slot.info.baseRowId handle.slot.info.rows id with
      | none => pure []
      | some handle => do
        let view ← handle.view snapshot.schema
        return [(view.segment, id - view.segment.baseRowId)]) snapshot.stamps.ids
  let past ← Fallible.collect (fun slot : HistorySlot F => do
    let segment ← slot.segment snapshot.schema
    return segment.endedSince since) snapshot.history
  return births.flatten ++ kills.flatten ++ past.flatten

def placeKey (place : Segment F × Nat) : Int64 := place.1.orderingAt place.1.orderingKey place.2

def touchedOrderingKeys (snapshot : KnowledgeSnapshot F) (since : Nat) : Io F σ (List Int64) := do
  let touched ← snapshot.touchedWalk since
  return touched.map placeKey

/-- What the walk reports of one row. -/
def reportRow (keyColumn : Nat) (place : Segment F × Nat) : Except StorageError
      (Int64 × Option String) :=
  match place.1.batch.columns[keyColumn]? with
  | some (.key codes validity dictionary) =>
    .ok (placeKey place,
      if Bitmap.validAt validity place.2 then some (dictionary.value (codes.getD place.2 0)) else none)
  | _ =>
      .error (.typeMismatch
        ((place.1.batch.schema.fields[keyColumn]?).elim s!"column {keyColumn}" Field.name) .key)

def touchedRows (snapshot : KnowledgeSnapshot F) (since keyColumn : Nat) : Io F σ
      (List (Int64 × Option String)) := do
  let touched ← snapshot.touchedWalk since
  Fallible.ofExcept (touched.mapM (reportRow keyColumn))

end KnowledgeSnapshot

namespace Store

variable [F64 F]

/-- The keys that a walk over a snapshot taken now reports, read with every call succeeding. -/
def touchedKeys (store : Store F) (disk : Disk F) (since : Nat) : Except StorageError (List Int64) := do
  let known ← store.knowledgeSnapshot
  (Program.complete backend .ok ((known.touchedOrderingKeys since : Io F Unit _) ()) ⟨disk, []⟩).1.1

def touchedRows (store : Store F) (disk : Disk F) (since keyColumn : Nat) : Except StorageError
      (List (Int64 × Option String)) := do
  let known ← store.knowledgeSnapshot
  (Program.complete backend .ok ((known.touchedRows since keyColumn : Io F Unit _) ()) ⟨disk, []⟩).1.1

end Store

/-! ### What the walk yields -/

variable [F64 F] {s s' : Store F} {disk disk' : Disk F} {segments all past : List (Segment F)}
  {since cut keyColumn : Nat}
variable {handles : List (SegmentHandle F)} {fact : Fact (Row F)}

/-- The row that a pending kill names, in its home segment. -/
def Tombstones.killedSince (stamps : Tombstones) (since : Nat) (all : List (Segment F))
    (id : Nat) : List (Segment F × Nat) :=
  let kill := (stamps.lookup id).getD 0
  if kill ≠ 0 ∧ kill < since then []
  else match all.find? fun segment => holdsRow segment.baseRowId segment.numRows id with
    | none => []
    | some segment => [(segment, id - segment.baseRowId)]

/-- The rows that the walk yields over the segments read. -/
def Store.touchedPlaces (store : Store F) (since : Nat) (all past : List (Segment F)) : List
      (Segment F × Nat) :=
  (all.map (Segment.bornSince since)).flatten ++
    (store.tombstones.ids.map (store.tombstones.killedSince since all)).flatten ++
    (past.map (Segment.endedSince since)).flatten

omit [F64 F] in
/-- A segment whose births all came before has none since. -/
theorem Segment.bornSince_old {segment : Segment F} (sound : segment.SequenceOk)
    (old : segment.sequenceEnd ≤ since) :
    segment.bornSince since = [] := by
  unfold Segment.bornSince
  rw [List.filter_eq_nil_iff.mpr, List.map_nil]
  intro row member
  have before : segment.sequenceAt row < segment.sequenceEnd :=
    Segment.births_lt_end sound _ (List.mem_map_of_mem member)
  simp
  omega

section Walk

variable {allow : World F → Call F → Outcome → Prop} {crash : World F → Prop} {σ : Type}
  {state : σ} {w : World F}

omit [F64 F] in
theorem SegmentHandle.Shows.wp_view {schema : Schema} {handle : SegmentHandle F} {view : SegmentView F}
    {post : Except StorageError (SegmentView F) → σ → World F → Prop} (shows : handle.Shows w.disk view)
    (own : view.segment.batch.schema = schema) (before : crash w)
    (unread : ∀ w', Quiet w w' → ScanFails allow w → post (.error (.io (.backend .read))) state w')
    (done : ∀ w', Quiet w w' → post (.ok view) state w') : Fallible.wp backend allow crash
      (handle.view schema) post state w := by
  obtain ⟨file, yields⟩ := shows.yields
  simp only [SegmentHandle.view, SegmentSlot.segment, Fallible.wp_bind, yields.name]
  refine wp_fault own (fun known same => ?_) yields.data before unread fun w₁ quiet => ?_
  · exact (Option.some.inj same).symm.trans yields.info
  · have same : handle.live = view.live := shows.live
    simp only [Fallible.wp_pure, same]
    exact done w₁ quiet

/-- A walk reads the touched places, or fails at a read. It writes nothing. -/
theorem Store.Sound.wp_touchedWalk
    {post : Except StorageError (List (Segment F × Nat)) → σ → World F → Prop}
    (sound : s.Sound w.disk segments past)
    (pieces : Pieces s segments all)
    (shows : List.Forall₂ (fun handle view => handle.Shows w.disk view) handles (all.map s.viewOf))
    (safe : ∀ w', Quiet w w' → crash w')
    (unread : ∀ w', Quiet w w' → ScanFails allow w → post (.error (.io (.backend .read))) state w')
    (done : ∀ w', Quiet w w' → post (.ok (s.touchedPlaces since all past)) state w') :
    Fallible.wp backend allow crash
      ((⟨s.schema, handles, s.history, s.tombstones⟩ : KnowledgeSnapshot F).touchedWalk since)
      post state w := by
  have related : List.Forall₂
      (fun handle segment => SegmentHandle.Shows handle w.disk (s.viewOf segment)) handles all :=
    List.forall₂_map_right_iff.mp shows
  have schema (segment : Segment F) (member : segment ∈ all) :
    (s.viewOf segment).segment.batch.schema = s.schema := (pieces.ok segment member).schema
  have info {handle : SegmentHandle F} {segment : Segment F}
      (shown : handle.Shows w.disk (s.viewOf segment)) : handle.slot.info = .of segment := by
    obtain ⟨file, yields⟩ := shown.yields
    exact yields.info
  have lost {st : σ} {w₁ w₂ : World F} (here : st = state ∧ Quiet w w₁) (quiet : Quiet w₁ w₂)
    (fails : ScanFails allow w₁) :
      post (.error (.io (.backend .read))) st w₂ :=
        here.1 ▸ unread w₂ (here.2.trans quiet) (fails.earlier here.2.1)
  unfold KnowledgeSnapshot.touchedWalk
  simp only [Fallible.wp_bind]
  refine Fallible.wp_collect_related (fun st w₁ => st = state ∧ Quiet w w₁)
    (Segment.bornSince since) related ⟨rfl, .refl w⟩ ?_ fun st w₁ here => ?_
  · intro handle segment member shown st w₁ here
    rw [info shown]
    split
    · next old => exact ⟨(Segment.bornSince_old (pieces.ok segment member).sequenceOk old).symm, here⟩
    · rw [← here.2.2] at shown
      refine Fallible.wp_bind.mpr
        (shown.wp_view (schema segment member) (safe _ here.2) (fun w₂ => lost here) fun w₂ quiet => ?_)
      exact ⟨rfl, here.1, here.2.trans quiet⟩
  refine Fallible.wp_collect (fun st w₁ => st = state ∧ Quiet w w₁)
    (s.tombstones.killedSince since all) here ?_ fun st w₁ here => ?_
  · intro id _ st w₁ here
    by_cases old : (s.tombstones.lookup id).getD 0 ≠ 0 ∧ (s.tombstones.lookup id).getD 0 < since
    · simp only [Tombstones.killedSince, if_pos old]
      exact ⟨rfl, here⟩
    simp only [Tombstones.killedSince, if_neg old]
    have same (handle : SegmentHandle F) (segment : Segment F) (_ : segment ∈ all)
      (shown : handle.Shows w.disk (s.viewOf segment)) :
        holdsRow handle.slot.info.baseRowId handle.slot.info.rows id = holdsRow segment.baseRowId
          segment.numRows id := by
      rw [info shown]
      rfl
    rcases forall₂_find? related same with ⟨lost_, none⟩ | ⟨handle, segment, member, found, home, shown⟩
    · simp only [lost_, none]
      exact ⟨rfl, here⟩
    · simp only [found, home]
      rw [← here.2.2] at shown
      refine Fallible.wp_bind.mpr
        (shown.wp_view (schema segment member) (safe _ here.2) (fun w₂ => lost here) fun w₂ quiet => ?_)
      exact ⟨rfl, here.1, here.2.trans quiet⟩
  refine Fallible.wp_collect_related (fun st w₁ => st = state ∧ Quiet w w₁)
    (fun entry : Segment F × Nat => entry.1.endedSince since) sound.history here ?_
    fun st w₁ here => ?_
  · intro slot entry member yields st w₁ here
    have inside : entry.1 ∈ past := by
      rw [← List.zipIdx_map_fst 0 past]
      exact List.mem_map_of_mem member
    simp only [HistorySlot.segment, Fallible.wp_bind, yields.name]
    refine wp_fault (sound.pastOk _ inside).schema (fun known same => by cases same)
      (here.2.2 ▸ yields.data) (safe _ here.2)
      (fun w₂ => lost here) fun w' quiet => ?_
    exact ⟨rfl, here.1, here.2.trans quiet⟩
  · have entries : past.zipIdx.map (fun entry => entry.1.endedSince since) = past.map
        (Segment.endedSince since) := by
      conv_rhs => rw [← List.zipIdx_map_fst 0 past, List.map_map]
      rfl
    simp only [Fallible.wp_pure, entries]
    rw [here.1]
    exact done w₁ here.2

end Walk

/-! ### The facts of the places -/

theorem Tombstones.mem_ids {stamps : Tombstones} {id : Nat} : id ∈ stamps.ids ↔
    (stamps.lookup id).isSome := by
  unfold Tombstones.ids
  rw [List.mem_insertionSort, List.mem_dedup]
  induction stamps with
  | nil => simp
  | cons entry rest ih =>
    obtain ⟨own, stamp⟩ := entry
    rw [List.map_cons, List.mem_cons, ih, List.lookup_cons]
    by_cases same : id = own
    · simp [same]
    · have miss : (id == own) = false := beq_eq_false_iff_ne.mpr same
      rw [miss]
      simp only [same, false_or]

/-- A fact of a live row is touched where its place is walked for its birth or its kill. -/
theorem Store.Sound.touched_live (pieces : Pieces s segments all) {segment : Segment F} {row : Nat}
    (member : segment ∈ all)
    (inside : row < segment.numRows) :
    (s.entryFact (segment.entry s.orderingKey row)).touched since = true ↔
      (segment, row) ∈ segment.bornSince since ∨ segment.baseRowId + row ∈ s.tombstones.ids ∧
        (segment, row) ∈ s.tombstones.killedSince since all (segment.baseRowId + row) := by
  have home : (all.find? fun other =>
      holdsRow other.baseRowId other.numRows (segment.baseRowId + row)) = some segment :=
    pieces.covers.home member (Nat.le_add_right _ _) (Nat.add_lt_add_left inside _)
  have born : (segment, row) ∈ segment.bornSince since ↔ since ≤ segment.sequenceAt row := by
    simp [Segment.bornSince, inside]
  rw [born, Fact.touched_iff, Tombstones.mem_ids]
  refine or_congr Iff.rfl ?_
  change (∃ death, s.tombstones.lookup (segment.baseRowId + row) = some death ∧
    (death = 0 ∨ since ≤ death)) ↔ _
  cases killed : s.tombstones.lookup (segment.baseRowId + row) with
  | none => simp
  | some stamp =>
    simp only [Option.some.injEq, exists_eq_left', Option.isSome_some, true_and]
    simp only [Tombstones.killedSince, killed, Option.getD_some, home, Nat.add_sub_cancel_left]
    split
    · next old =>
      simp only [List.not_mem_nil, iff_false]
      omega
    · next late =>
      simp only [List.mem_singleton, iff_true]
      omega

/-- The facts of the dead rows of a history segment that are touched are those of the places walked.
-/
theorem Segment.touched_past {segment : Segment F} :
    (segment.endedSince since).map
    (fun place => place.1.row place.2) = (segment.pastFacts.filter (·.touched since)).map
    (·.value) := by
  unfold Segment.endedSince Segment.pastFacts
  rw [List.map_map, List.filter_map, List.map_map]
  congr 1
  refine List.filter_congr fun row _ => ?_
  simp only [Function.comp_apply, Fact.touched, Option.any_some]
  exact Bool.or_comm _ _

/-- The rows of the places walked are the values of the touched facts. -/
theorem Store.Sound.mem_touchedPlaces (sound : s.Sound disk segments past)
    (pieces : Pieces s segments all) (row : Row F) :
    row ∈ (s.touchedPlaces since all past).map (fun place => place.1.row place.2) ↔
      ∃ fact ∈ (s.book segments past).facts, fact.touched since = true ∧ fact.value = row := by
  have ended : row ∈ ((past.map (Segment.endedSince since)).flatten).map
    (fun place => place.1.row place.2) ↔
      ∃ fact ∈ past.flatMap Segment.pastFacts, fact.touched since = true ∧ fact.value = row := by
    rw [List.map_flatten, List.map_map, List.mem_flatten]
    constructor
    · rintro ⟨rows, member, inside⟩
      obtain ⟨segment, known, rfl⟩ := List.mem_map.mp member
      rw [Function.comp_apply, Segment.touched_past] at inside
      obtain ⟨fact, chosen, rfl⟩ := List.mem_map.mp inside
      obtain ⟨own, touch⟩ := List.mem_filter.mp chosen
      exact ⟨fact, List.mem_flatMap.mpr ⟨segment, known, own⟩, touch, rfl⟩
    · rintro ⟨fact, member, touch, rfl⟩
      obtain ⟨segment, known, own⟩ := List.mem_flatMap.mp member
      refine ⟨_, List.mem_map_of_mem known, ?_⟩
      rw [Function.comp_apply, Segment.touched_past]
      exact List.mem_map_of_mem (List.mem_filter.mpr ⟨own, touch⟩)
  have live : row ∈ ((all.map (Segment.bornSince since)).flatten ++
      (s.tombstones.ids.map (s.tombstones.killedSince since all)).flatten).map
      (fun place => place.1.row place.2) ↔
        ∃ fact ∈ s.latestFacts segments, fact.touched since = true ∧ fact.value = row := by
    rw [sound.latest_pieces pieces, List.map_append, List.mem_append]
    constructor
    · rintro (birth | kill)
      · obtain ⟨⟨segment, place⟩, member, rfl⟩ := List.mem_map.mp birth
        obtain ⟨places, given, own⟩ := List.mem_flatten.mp member
        obtain ⟨home, here, rfl⟩ := List.mem_map.mp given
        obtain ⟨place', chosen, same⟩ := List.mem_map.mp own
        cases same
        have inside : place < segment.numRows := List.mem_range.mp (List.mem_filter.mp chosen).1
        refine ⟨s.entryFact (segment.entry s.orderingKey place), List.mem_map_of_mem ?_,
          (touched_live pieces here inside).mpr (.inl own), rfl⟩
        exact List.mem_flatMap.mpr ⟨segment, here, List.mem_map_of_mem (List.mem_range.mpr inside)⟩
      · obtain ⟨⟨segment, place⟩, member, rfl⟩ := List.mem_map.mp kill
        obtain ⟨places, given, own⟩ := List.mem_flatten.mp member
        obtain ⟨id, killed, rfl⟩ := List.mem_map.mp given
        obtain ⟨here, inside, rfl⟩ : segment ∈ all ∧ place < segment.numRows ∧
            segment.baseRowId + place = id := by
          simp only [Tombstones.killedSince] at own
          split at own
          · cases own
          · cases found : all.find? (fun other => holdsRow other.baseRowId other.numRows id) with
            | none =>
              rw [found] at own
              cases own
            | some home =>
              rw [found] at own
              cases List.mem_singleton.mp own
              have holds := List.find?_some found
              simp only [holdsRow, Bool.and_eq_true, decide_eq_true_eq] at holds
              exact ⟨List.mem_of_find?_eq_some found, by omega, by omega⟩
        refine ⟨s.entryFact (segment.entry s.orderingKey place), List.mem_map_of_mem ?_,
          (touched_live pieces here inside).mpr (.inr ⟨killed, own⟩), rfl⟩
        exact List.mem_flatMap.mpr ⟨segment, here, List.mem_map_of_mem (List.mem_range.mpr inside)⟩
    · rintro ⟨fact, member, touch, rfl⟩
      obtain ⟨entry, inside, rfl⟩ := List.mem_map.mp member
      obtain ⟨segment, here, own⟩ := List.mem_flatMap.mp inside
      obtain ⟨place, bound, rfl⟩ := List.mem_map.mp own
      rcases (touched_live pieces here (List.mem_range.mp bound)).mp touch with birth | ⟨killed, kill⟩
      · refine .inl (List.mem_map.mpr ⟨(segment, place),
          List.mem_flatten.mpr ⟨_, List.mem_map_of_mem here, birth⟩, rfl⟩)
      · refine .inr (List.mem_map.mpr ⟨(segment, place),
          List.mem_flatten.mpr ⟨_, List.mem_map_of_mem killed, kill⟩, rfl⟩)
  rw [Store.touchedPlaces, List.map_append, List.mem_append, live, ended]
  change _ ↔ ∃ fact ∈ s.latestFacts segments ++ past.flatMap Segment.pastFacts,
    fact.touched since = true ∧ fact.value = row
  constructor
  · rintro (⟨fact, member, facts⟩ | ⟨fact, member, facts⟩)
    · exact ⟨fact, List.mem_append_left _ member, facts⟩
    · exact ⟨fact, List.mem_append_right _ member, facts⟩
  · rintro ⟨fact, member, facts⟩
    exact (List.mem_append.mp member).imp (fun inside => ⟨fact, inside, facts⟩) fun inside =>
      ⟨fact, inside, facts⟩

/-! ### What is reported of a place -/

theorem Store.Sound.places_mapped (sound : s.Sound disk segments past)
    (pieces : Pieces s segments all) {place : Segment F × Nat}
    (member : place ∈ s.touchedPlaces since all past) : place.1.Mapped s.schema ∧
    place.1.orderingKey = s.orderingKey := by
  have home : place.1 ∈ all ∨ place.1 ∈ past := by
    simp only [touchedPlaces, List.mem_append, List.mem_flatten, List.mem_map] at member
    rcases member with (⟨_, ⟨segment, here, rfl⟩, own⟩ | ⟨_, ⟨id, -, rfl⟩, own⟩) | ⟨_,
      ⟨segment, here, rfl⟩, own⟩
    · obtain ⟨row, -, rfl⟩ := List.mem_map.mp own
      exact .inl here
    · simp only [Tombstones.killedSince] at own
      split at own
      · cases own
      · cases found : all.find? (fun other => holdsRow other.baseRowId other.numRows id) with
        | none =>
          rw [found] at own
          cases own
        | some segment =>
          rw [found] at own
          cases List.mem_singleton.mp own
          exact .inl (List.mem_of_find?_eq_some found)
    · obtain ⟨row, -, rfl⟩ := List.mem_map.mp own
      exact .inr here
  rcases home with live | dead
  · exact ⟨(pieces.ok _ live).mapped, (pieces.ok _ live).orderingKey⟩
  · exact ⟨(sound.pastOk _ dead).mapped, (sound.pastOk _ dead).orderingKey⟩

def keyText (column : Nat) (row : Row F) : Option String :=
  match row[column]? with
  | some (.key text) => some text
  | _ => none

namespace KnowledgeSnapshot

theorem placeKey_row {schema : Schema} {orderingKey : Nat} {place : Segment F × Nat}
    (mapped : place.1.Mapped schema)
    (own : place.1.orderingKey = orderingKey) (keyed : schema.checkOrderingKey orderingKey = .ok ()) :
    placeKey place = orderingValue orderingKey (place.1.row place.2) := by
  rw [placeKey, own]
  exact (orderingAt_row keyed (mapped.validates place.2)).symm

/-- Of a row whose key column is one, its ordering key and its text are reported. -/
theorem reportRow_row {schema : Schema} {field : Field} {place : Segment F × Nat}
    (mapped : place.1.Mapped schema)
    (found : schema.fields[keyColumn]? = some field) (kind : field.columnType = .key) :
    reportRow keyColumn place = .ok (placeKey place, keyText keyColumn (place.1.row place.2)) := by
  obtain ⟨column, at_, binds⟩ := forall₂_get mapped.binds found
  have typed := binds.typed
  rw [kind] at typed
  cases column with
  | f64 values validity => cases typed
  | i64 values validity => cases typed
  | key codes validity dictionary =>
    unfold reportRow keyText Segment.row
    rw [at_, List.getElem?_map, at_]
    simp only [Option.map_some, cellValue, Column.isValid]
    change Except.ok (placeKey place, if Bitmap.validAt validity place.2 = true then _ else _) = _
    by_cases valid : Bitmap.validAt validity place.2 = true
    · simp [valid, Column.validity]
    · simp [valid, Column.validity]

theorem reportRow_other {schema : Schema} {place : Segment F × Nat} (mapped : place.1.Mapped schema)
    (other : ∀ field, schema.fields[keyColumn]? = some field → field.columnType ≠ .key) :
    reportRow keyColumn place = .error
      (.typeMismatch ((schema.fields[keyColumn]?).elim s!"column {keyColumn}" Field.name) .key) := by
  unfold reportRow
  rw [mapped.under]
  split
  · next codes validity dictionary held =>
    have flipped : ∃ field, schema.fields[keyColumn]? = some field := by
      have bound : keyColumn < schema.fields.length := by
        rw [mapped.binds.length_eq]
        exact (List.getElem?_eq_some_iff.mp held).1
      exact ⟨_, List.getElem?_eq_getElem bound⟩
    obtain ⟨field, found⟩ := flipped
    obtain ⟨column, at_, binds⟩ := forall₂_get mapped.binds found
    obtain rfl := Option.some.inj (held.symm.trans at_)
    exact (other field found binds.typed.symm).elim
  · rfl

end KnowledgeSnapshot

namespace Store

/-- What a walk from `since` reports: rows, and they are the values of the touched facts. -/
structure Touches (store : Store F) (disk : Disk F) (since : Nat) (rows : List (Row F)) : Prop where
  facts : ∀ row, row ∈ rows ↔ ∃ fact ∈ (store.bookOn disk).facts, fact.touched since = true ∧
    fact.value = row
  keys : store.touchedKeys disk since = .ok (rows.map (orderingValue store.orderingKey))
  texts : ∀ column field, store.schema.fields[column]? = some field → field.columnType = .key →
    store.touchedRows disk since column =
      .ok (rows.map fun row => (orderingValue store.orderingKey row, keyText column row))
  /-- A column that is no key is a mistake as soon as a row is reported. -/
  misuse : ∀ column,
    (∀ field, store.schema.fields[column]? = some field → field.columnType ≠ .key) → rows ≠ [] →
    store.touchedRows disk since column =
      .error (.typeMismatch ((store.schema.fields[column]?).elim s!"column {column}" Field.name) .key)

/-- A walk over a snapshot that is taken reports the touched facts. -/
theorem Sound.touches (sound : s.Sound disk segments past) (taken : s.snapshot = .ok handles)
    (since : Nat) :
    ∃ rows, s.Touches disk since rows := by
  obtain ⟨all, pieces, shows⟩ := sound.snapshot taken
  let places := s.touchedPlaces since all past
  have mapped (place : Segment F × Nat) (member : place ∈ places) := sound.places_mapped pieces member
  have walk : Fallible.wp backend Always (fun _ => True)
      ((⟨s.schema, handles, s.history, s.tombstones⟩ : KnowledgeSnapshot F).touchedWalk since)
      (fun result _ _ => result = .ok places) () ⟨disk, []⟩ :=
    sound.wp_touchedWalk pieces shows (fun _ _ => trivial)
      (fun _ _ fails => (sure_always.scan fails).elim) fun _ _ => rfl
  have known : s.knowledgeSnapshot = .ok ⟨s.schema, handles, s.history, s.tombstones⟩ := by
    rw [knowledgeSnapshot, taken]
    rfl
  have reported (column : Nat) : s.touchedRows disk since column = places.mapM
      (KnowledgeSnapshot.reportRow column) := by
    have reads : Fallible.wp backend Always (fun _ => True)
        ((⟨s.schema, handles, s.history, s.tombstones⟩ : KnowledgeSnapshot F).touchedRows since column)
        (fun result _ _ => result = places.mapM (KnowledgeSnapshot.reportRow column)) ()
          ⟨disk, []⟩ := by
      refine Fallible.wp_bind.mpr (Fallible.wp_post walk fun result _ _ done => ?_)
      subst done
      exact Fallible.wp_ofExcept.mpr rfl
    rw [Store.touchedRows, known]
    exact completes reads
  refine ⟨places.map fun place => place.1.row place.2, ?_, ?_, fun column field found kind => ?_,
    fun column other some_ => ?_⟩
  · rw [sound.bookOn]
    exact sound.mem_touchedPlaces pieces
  · have reads : Fallible.wp backend Always (fun _ => True)
        ((⟨s.schema, handles, s.history, s.tombstones⟩ : KnowledgeSnapshot F).touchedOrderingKeys since)
        (fun result _ _ => result = .ok (places.map KnowledgeSnapshot.placeKey)) () ⟨disk, []⟩ := by
      refine Fallible.wp_bind.mpr (Fallible.wp_post walk fun result _ _ done => ?_)
      subst done
      rfl
    rw [Store.touchedKeys, known]
    refine (completes reads).trans (congrArg Except.ok ?_)
    rw [List.map_map]
    exact List.map_congr_left fun place member =>
      KnowledgeSnapshot.placeKey_row (mapped place member).1 (mapped place member).2 sound.keyed
  · have rows (places : List (Segment F × Nat))
      (mapped : ∀ place ∈ places, place.1.Mapped s.schema ∧ place.1.orderingKey = s.orderingKey) :
        places.mapM (KnowledgeSnapshot.reportRow column) = .ok (places.map fun place =>
          (orderingValue s.orderingKey (place.1.row place.2),
          keyText column (place.1.row place.2))) := by
      induction places with
      | nil => rfl
      | cons place rest ih =>
        obtain ⟨own, key⟩ := mapped place List.mem_cons_self
        rw [List.mapM_cons, KnowledgeSnapshot.reportRow_row own found kind,
          KnowledgeSnapshot.placeKey_row own key sound.keyed,
          ih fun place member => mapped place (List.mem_cons_of_mem _ member)]
        rfl
    rw [reported, rows places mapped, List.map_map]
    rfl
  · obtain ⟨place, rest, shape⟩ : ∃ place rest, places = place :: rest := by
      cases shape : places with
      | nil =>
        rw [shape] at some_
        exact (some_ rfl).elim
      | cons place rest => exact ⟨place, rest, rfl⟩
    have first : place ∈ places := shape ▸ List.mem_cons_self
    rw [reported, shape, List.mapM_cons, KnowledgeSnapshot.reportRow_other (mapped place first).1 other]
    rfl

/-- The keys of a walk are those of the touched facts. -/
theorem Sound.mem_touchedKeys (sound : s.Sound disk segments past) {keys : List Int64}
    (walked : s.touchedKeys disk since = .ok keys) (key : Int64) :
    key ∈ keys ↔ ∃ fact ∈ (s.book segments past).facts, fact.touched since = true ∧
    orderingValue s.orderingKey fact.value = key := by
  cases taken : s.snapshot with
  | error e =>
    rw [Store.touchedKeys, knowledgeSnapshot, taken] at walked
    cases walked
  | ok handles =>
    obtain ⟨rows, touches⟩ := sound.touches taken since
    obtain rfl := Except.ok.inj (touches.keys.symm.trans walked)
    have facts := touches.facts
    rw [sound.bookOn] at facts
    rw [List.mem_map]
    constructor
    · rintro ⟨row, member, rfl⟩
      obtain ⟨fact, inside, touch, rfl⟩ := (facts row).mp member
      exact ⟨fact, inside, touch, rfl⟩
    · rintro ⟨fact, inside, touch, rfl⟩
      exact ⟨fact.value, (facts _).mpr ⟨fact, inside, touch, rfl⟩, rfl⟩

end Store

/-! ### Along a run -/

variable {rules : Rules F} {schema : Schema} {orderingKey : Nat} {options : StoreOptions → Prop}
variable {allow : World F → Call F → Outcome → Prop} {events : List (Event F)}
  {touched : List Int64} {rows rows' : List (Row F)}

/-- Two rows, then a correction of the first, and then a compaction. -/
def revised : Option
      ((Store UInt64 × Disk UInt64) × (Store UInt64 × Disk UInt64) × Store UInt64 × Disk UInt64) := do
  let (store, disk) ← openTable tagged 0 eager .empty
  let (_, first) ← rehearse (fun _ _ _ => true) (fun _ _ _ outcome => outcome = .ok)
    [(.append [.i64 2, .key "a"], []), (.append [.i64 1, .key "b"], [])] store disk
  let (_, second) ← rehearse (fun _ _ _ => true) (fun _ _ _ outcome => outcome = .ok)
    [(.supersede [[.i64 3, .key "c"]] [0], [])] first.1 first.2
  let (_, third) ← rehearse (fun _ _ _ => true) (fun _ _ _ outcome => outcome = .ok)
    [(.compact, [])] second.1 second.2
  return (first, second, third)

theorem revised_reached :
    ∃ (first second third : Store UInt64) (disk₁ disk₂ disk₃ : Disk UInt64) (events :
      List (Event UInt64))
    (result : Except StorageError Nat), revised = some ((first, disk₁), (second, disk₂), third, disk₃) ∧
      Reached Unfailing tagged 0 (fun _ => True) NoFailure (.up first disk₁) ∧
      Reached Unfailing tagged 0 (fun _ => True) NoFailure (.up second disk₂) ∧
      Life Unfailing (.up first disk₁) events (.up third disk₃) ∧
      Step Unfailing (.up second disk₂) (.finished .compact result) (.up third disk₃) := by
  obtain ⟨played, all⟩ : ∃ played, revised = some played :=
    Option.isSome_iff_exists.mp (by decide +kernel)
  have unfolded := all
  obtain ⟨⟨store, disk⟩, opened, unfolded⟩ := Option.bind_eq_some_iff.mp unfolded
  obtain ⟨⟨events₁, first, disk₁⟩, lived₁, unfolded⟩ := Option.bind_eq_some_iff.mp unfolded
  obtain ⟨⟨events₂, second, disk₂⟩, lived₂, unfolded⟩ := Option.bind_eq_some_iff.mp unfolded
  obtain ⟨⟨events₃, third, disk₃⟩, lived₃, same⟩ := Option.bind_eq_some_iff.mp unfolded
  cases same
  have run : Run Unfailing tagged 0 (fun _ => True) NoFailure [.opened] (.up store disk) :=
    .boot (.blank fun _ => rfl) (Boot.completes trivial (fun _ _ => .inl rfl) opened)
  have early : Life Unfailing (.up store disk) events₁ (.up first disk₁) :=
    Life.rehearsed (by simp [Unfailing]) (by simp [Unfailing, NoFailure]) .start lived₁
  have middle : Life Unfailing (.up first disk₁) events₂ (.up second disk₂) :=
    Life.rehearsed (by simp [Unfailing]) (by simp [Unfailing, NoFailure]) .start lived₂
  obtain ⟨result, -, step⟩ : ∃ result, events₃ = [.finished .compact result] ∧
      Step Unfailing (.up second disk₂) (.finished .compact result) (.up third disk₃) :=
    Step.rehearsed (by simp [Unfailing]) (by simp [Unfailing, NoFailure]) lived₃
  exact ⟨first, second, third, disk₁, disk₂, disk₃, _, result, all, .stored (run.lives early),
    .stored ((run.lives early).lives middle),
    middle.step step, step⟩

/-- In every state that a run reaches, a walk reports exactly the rows that were born or killed from
the coordinate on. -/
theorem Reached.walk_touches (reached : Reached rules schema orderingKey options allow (.up s disk))
    (taken : s.snapshot = .ok handles)
    (since : Nat) : ∃ rows, s.Touches disk since rows := by
  obtain ⟨-, -, segments, past, steady, -⟩ := reached.upheld upholds_steady
  exact steady.sound.touches taken since

theorem Reached.walk_touches_revised :
    ∃ (s : Store UInt64) (disk : Disk UInt64) (rows : List (Row UInt64)), s.Touches disk 2 rows := by
  obtain ⟨first, second, third, disk₁, disk₂, disk₃, events, result, played, -, reached, -, -⟩ :=
    revised_reached
  have seen : revised.map (fun (_, second, _) => second.1.snapshot.toOption.isSome) =
    some true := by decide +kernel
  rw [played] at seen
  obtain ⟨handles, taken⟩ := Option.isSome_iff_exists.mp (Option.some.inj seen)
  exact ⟨second, disk₂, reached.walk_touches (except_of_toOption taken) 2⟩

/-- Whatever a run does after a coordinate, an ordering key that the walk from it on does not report
keeps its rows, those that live and those of every coordinate. -/
theorem Reached.walk_untouched (reached : Reached rules schema orderingKey options allow (.up s disk))
    (life : Life rules (.up s disk) events (.up s' disk'))
    (walked : s'.touchedKeys disk' s.nextSequence = .ok touched)
    {key : Int64} (free : key ∉ touched) :
    (∀ rows rows', s.snapshotRows disk = .ok rows → s'.snapshotRows disk' = .ok rows' →
      (rows.filter (orderingValue orderingKey · = key)).Perm
      (rows'.filter (orderingValue orderingKey · = key))) ∧
    ∀ cut rows rows', s.asOfRows disk cut = .ok rows → s'.asOfRows disk' cut = .ok rows' →
      (rows.filter (orderingValue orderingKey · = key)).Perm
      (rows'.filter (orderingValue orderingKey · = key)) := by
  have upheld := reached.upheld upholds_steady
  obtain ⟨-, same, -⟩ : s'.Upheld disk' schema orderingKey fun _ _ _ => True :=
    Life.upheld upholds_steady (show Situation.Holds _ (.up s disk) from upheld) life
  obtain ⟨-, -, segments, past, steady, -⟩ := upheld
  obtain ⟨segments', past', steady', follows⟩ := life.follows steady
  have kept := follows.untouched (p := fun row => decide (orderingValue orderingKey row = key))
      fun fact member touch => by
    refine decide_eq_false fun own =>
      free ((steady'.sound.mem_touchedKeys walked key).mpr ⟨fact, member, touch, ?_⟩)
    rw [same]
    exact own
  have shown (q : Fact (Row F) → Bool) :
    ((((s.book segments past).facts.filter q).map (·.value)).filter
    (orderingValue orderingKey · = key)).Perm
      ((((s'.book segments' past').facts.filter q).map (·.value)).filter
        (orderingValue orderingKey · = key)) := by
    have turn (facts : List (Fact (Row F))) : ((facts.filter q).map (·.value)).filter
      (orderingValue orderingKey · = key) =
        ((facts.filter fun fact => decide (orderingValue orderingKey fact.value = key)).filter
          q).map (·.value) := by
      rw [List.filter_map, List.filter_filter, List.filter_filter]
      congr 1
      exact List.filter_congr fun fact _ => Bool.and_comm _ _
    rw [turn, turn]
    exact (kept.filter q).map _
  refine ⟨fun rows rows' before after => ?_, fun cut rows rows' before after => ?_⟩
  · have live {s : Store F} {disk : Disk F} {segments past : List (Segment F)} {rows : List (Row F)}
      (sound : s.Sound disk segments past)
        (read : s.snapshotRows disk = .ok rows) : rows = living (s.book segments past).facts := by
      cases taken : s.snapshot with
      | error e =>
        rw [Store.snapshotRows, taken] at read
        cases read
      | ok handles =>
        rw [sound.snapshotRows taken, sound.liveRows_living, sound.bookOn] at read
        exact (Except.ok.inj read).symm
    rw [live steady.sound before, live steady'.sound after]
    exact shown _
  · rw [steady.sound.asOfRows_book before, steady'.sound.asOfRows_book after]
    exact shown _

theorem Reached.walk_untouched_revised : ∃ (rows rows' : List (Row UInt64)), rows ≠ rows' ∧
    (rows.filter (orderingValue 0 · = 1)).Perm (rows'.filter (orderingValue 0 · = 1)) := by
  obtain ⟨first, second, third, disk₁, disk₂, disk₃, events, result, played, reached, -, life, -⟩ :=
    revised_reached
  have walked : revised.map
      (fun (first, _, third) => (third.1.touchedKeys third.2 first.1.nextSequence).toOption) =
      some (some [3, 2]) := by
    decide +kernel
  have seen : revised.map
    (fun (first, _, third) =>
    ((first.1.snapshotRows first.2).toOption, (third.1.snapshotRows third.2).toOption)) =
    some (some [[.i64 2, .key "a"], [.i64 1, .key "b"]],
      some [[.i64 1, .key "b"], [.i64 3, .key "c"]]) := by decide +kernel
  rw [played] at walked seen
  have facts := Option.some.inj seen
  simp only [Prod.mk.injEq] at facts
  refine ⟨[[.i64 2, .key "a"], [.i64 1, .key "b"]], [[.i64 1, .key "b"], [.i64 3, .key "c"]], by
      decide, ?_⟩
  exact (reached.walk_untouched life (except_of_toOption (Option.some.inj walked))
    (show (1 : Int64) ∉ [3, 2] by decide)).1 _ _
    (except_of_toOption facts.1) (except_of_toOption facts.2)

/-- A compaction, however it ends, changes nothing in what a walk reports. -/
theorem Reached.touched_compact {result : Except StorageError Nat}
    (reached : Reached rules schema orderingKey options allow (.up s disk))
    (step : Step rules (.up s disk) (.finished .compact result) (.up s' disk'))
    (before : s.touchedKeys disk since = .ok touched)
    {touched' : List Int64} (after : s'.touchedKeys disk' since = .ok touched') (key : Int64) :
    key ∈ touched ↔ key ∈ touched' := by
  obtain ⟨-, -, segments, past, steady, -⟩ := reached.upheld upholds_steady
  cases step with
  | finish asked admitted ran =>
    obtain ⟨segments', past', conduct, steady'⟩ := steady.ran admitted ran
    obtain ⟨same, still⟩ : s'.orderingKey = s.orderingKey ∧
        (s.book segments past).Still (s'.book segments' past') := by
      cases conduct with
      | still _ _ _ _ settles answer =>
        rw [settles.book]
        refine ⟨?_, .refl _⟩
        cases settles with
        | kept => rfl
        | moved => rfl
      | compact all merged writer _ pieces merges logs answer =>
        have sound' : (s.compacted merged).Sound _ merged.segments (past ++ merged.history) :=
          steady'.sound.withWal s.wal
        exact ⟨rfl, steady.sound.book_compacted pieces merges sound'⟩
    rw [steady.sound.mem_touchedKeys before, steady'.sound.mem_touchedKeys after, same]
    exact exists_congr fun fact => and_congr still.facts.mem_iff Iff.rfl

theorem Reached.touched_compact_revised : ∃ (touched touched' : List Int64), touched.length = 2 ∧
    ∀ key, key ∈ touched ↔ key ∈ touched' := by
  obtain ⟨first, second, third, disk₁, disk₂, disk₃, events, result, played, -, reached, -, step⟩ :=
    revised_reached
  have seen : revised.map
    (fun (first, second, third) => ((second.1.touchedKeys second.2 first.1.nextSequence).toOption,
      (third.1.touchedKeys third.2 first.1.nextSequence).toOption)) =
      some (some [3, 2], some [3, 2]) := by decide +kernel
  rw [played] at seen
  have walks := Option.some.inj seen
  simp only [Prod.mk.injEq] at walks
  exact ⟨[3, 2], [3, 2], rfl, fun key => reached.touched_compact step (except_of_toOption walks.1)
    (except_of_toOption walks.2) key⟩

end TallyDB
