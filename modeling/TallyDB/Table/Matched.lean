import TallyDB.QueryLite.Pruning
import TallyDB.StorageLite.Refused
import TallyDB.Table.Mutate

/-!
# What a mutation hits

A mutation walks every segment of a snapshot where a query prunes, and yet it hits exactly
the rows that a query with the same `WHERE` computes on. The rows it hits end at one
coordinate, and what replaces them is born there.
-/

namespace TallyDB

open Crash Chronicle

variable {F : Type}

/-! ### Reading a snapshot -/

def Disk.reader (schema : Schema) (disk : Disk F) : SegmentReader F := fun slot =>
  (Program.complete backend .ok (slot.segment schema ()) ⟨disk, []⟩).1.1

section Reading

variable [F64 F] {disk : Disk F} {schema : Schema}

omit [F64 F] in
theorem SegmentHandle.Shows.fetch {handle : SegmentHandle F} {view : SegmentView F}
    (shows : handle.Shows disk view)
    (own : view.segment.batch.schema = schema) : handle.fetch (disk.reader schema) = .ok view := by
  obtain ⟨file, yields⟩ := shows.yields
  have reads : Fallible.wp backend Always (fun _ => True) (handle.slot.segment schema)
    (fun result _ _ => result = .ok view.segment) ()
      ⟨disk, []⟩ := by
    rw [SegmentSlot.segment, yields.name]
    refine wp_fault own (fun known same => ?_) yields.data trivial
      (fun _ _ fails => (sure_always.scan fails).elim) fun _ _ => rfl
    exact (Option.some.inj same).symm.trans yields.info
  have read : disk.reader schema handle.slot = .ok view.segment := completes reads
  unfold SegmentHandle.fetch
  rcases yields.data with resident | ⟨none, -⟩
  · simp [resident, shows.live]
  · simp [none, read, shows.live]

omit [F64 F] in
theorem SegmentHandle.Shows.rows {handle : SegmentHandle F} {view : SegmentView F}
    (shows : handle.Shows disk view) :
    handle.liveRowCount = view.liveRowCount := by
  obtain ⟨file, yields⟩ := shows.yields
  rw [SegmentHandle.liveRowCount, shows.live, yields.info]
  rfl

theorem SegmentHandle.Shows.faithful {handle : SegmentHandle F} {view : SegmentView F}
    (shows : handle.Shows disk view)
    (own : view.segment.batch.schema = schema) (mapped : view.segment.Mapped schema) :
    handle.Faithful (disk.reader schema) schema := by
  intro read fetched
  obtain ⟨file, yields⟩ := shows.yields
  rw [shows.fetch own] at fetched
  obtain rfl := Except.ok.inj fetched
  exact ⟨mapped, by rw [yields.info]; rfl⟩

end Reading

/-! ### Hits -/

section Hits

variable [F64Math F] {schema : Schema} {registry : Registry F} {predicate : Option (Predicate F)}

/-- The rows that a view computes on, with their ids. -/
def SegmentView.hits (view : SegmentView F) : List (Match F) :=
  view.liveIndices.map fun row => ⟨view.segment.baseRowId + row, view.segment.row row⟩

/-- A mutation hits the rows that `WHERE` leaves alive. -/
theorem matchedRows_restrict {view : SegmentView F} {hits : List (Match F)}
    (matched : matchedRows schema registry predicate view = .ok hits) :
    ∃ view', restrict schema registry predicate view = .ok view' ∧ view'.hits = hits ∧
    view'.segment = view.segment := by
  unfold matchedRows at matched
  cases predicate with
  | none =>
    refine ⟨view, rfl, ?_, rfl⟩
    rw [← Except.ok.inj matched]
    simp [SegmentView.hits, SegmentView.liveIndices]
  | some predicate =>
    obtain ⟨found, evaluated, matched⟩ := except_bind_ok matched
    rw [Option.mapM_some] at evaluated
    cases mask : evaluatePredicate ⟨schema, view, registry, []⟩ predicate with
    | error e => simp [mask] at evaluated
    | ok bits =>
      simp [mask] at evaluated
      refine ⟨{ segment := view.segment, live := some (view.live.elim bits (·.and bits)) }, by
          simp only [restrict, mask]
          rfl, ?_, rfl⟩
      rw [← Except.ok.inj matched, ← evaluated]
      unfold SegmentView.hits SegmentView.liveIndices
      congr 1
      refine List.filter_congr fun row _ => ?_
      simp only [SegmentView.isLive, Bitmap.validAt, Option.all_some]
      cases view.live with
      | none => simp
      | some live => simp [Bitmap.get_and]

theorem SegmentView.hits_dead {view : SegmentView F} (dead : view.liveRowCount = 0) :
    view.hits = [] := by
  rw [SegmentView.hits, SegmentView.liveIndices, List.map_eq_nil_iff, List.filter_eq_nil_iff]
  intro row inside live
  unfold SegmentView.liveRowCount at dead
  unfold SegmentView.isLive at live
  cases mask : view.live with
  | none =>
    rw [mask] at dead
    rw [show view.segment.numRows = 0 from dead] at inside
    simp at inside
  | some bits =>
    rw [mask] at dead live
    have set : true ∈ bits := by
      change bits.getD row false = true at live
      by_cases bound : row < bits.length
      · rw [List.getD_eq_getElem _ _ bound] at live
        exact live ▸ List.getElem_mem bound
      · rw [List.getD_eq_default _ _ (Nat.le_of_not_lt bound)] at live
        cases live
    exact absurd dead (List.count_pos_iff.mpr set).ne'

/-- The hits are among the live rows. -/
theorem matchedRows_sublist {view : SegmentView F} {hits : List (Match F)}
    (matched : matchedRows schema registry predicate view = .ok hits) :
    hits.Sublist view.hits := by
  unfold matchedRows at matched
  obtain ⟨found, -, matched⟩ := except_bind_ok matched
  rw [← Except.ok.inj matched]
  refine List.Sublist.map _ ?_
  unfold SegmentView.liveIndices
  rw [← List.filter_filter]
  exact (List.filter_sublist).filter _

/-- The hits of a mutation over a snapshot are the rows that a query keeps, segment after segment.
-/
theorem forEachMatch_materialize {disk : Disk F} {handles : List (SegmentHandle F)}
    {views : List (SegmentView F)} {hits : List (Match F)}
    (shows : List.Forall₂ (fun handle view => handle.Shows disk view) handles views)
    (own : ∀ view ∈ views, view.segment.batch.schema = schema)
    (matched : forEachMatch schema registry predicate views = .ok hits) :
    ∃ kept, materialize schema registry (disk.reader schema) predicate
      (fun _ => true) handles = .ok kept ∧
      kept.flatMap SegmentView.hits = hits ∧ ∀ view ∈ kept, ∃ whole ∈ views,
      view.segment = whole.segment := by
  induction shows generalizing hits with
  | nil =>
    obtain rfl := Except.ok.inj matched
    exact ⟨[], rfl, rfl, by simp⟩
  | @cons handle view handles views shows _ ih =>
    obtain ⟨found, listed, rfl⟩ := except_map_ok matched
    rw [List.mapM_cons] at listed
    obtain ⟨here, first, listed⟩ := except_bind_ok listed
    obtain ⟨later, others, listed⟩ := except_bind_ok listed
    obtain rfl := Except.ok.inj listed
    obtain ⟨kept, rest, same, from_⟩ :=
      ih (fun other member => own other (List.mem_cons_of_mem _ member))
      (show forEachMatch schema registry predicate views = .ok later.flatten by
          rw [forEachMatch, others]
          rfl)
    have behind : ∀ view' ∈ kept, ∃ whole ∈ view :: views, view'.segment = whole.segment :=
        fun view' member =>
      let ⟨whole, present, same⟩ := from_ view' member
      ⟨whole, List.mem_cons_of_mem _ present, same⟩
    rw [materialize, shows.rows, List.flatten_cons]
    split
    · next dead =>
      -- Nothing is alive in the segment, so nothing in it is hit.
      have none := matchedRows_sublist first
      rw [view.hits_dead dead, List.sublist_nil] at none
      exact ⟨kept, rest, by rw [none, same]; rfl, behind⟩
    · obtain ⟨restricted, holds, hit, segment⟩ := matchedRows_restrict first
      rw [if_neg (by simp), shows.fetch (own view List.mem_cons_self)]
      simp only [bind, Except.bind, holds, rest]
      split
      · refine ⟨_, rfl, by rw [List.flatMap_cons, hit, same], fun view' member => ?_⟩
        rcases List.mem_cons.mp member with rfl | member
        · exact ⟨view, List.mem_cons_self, segment⟩
        · exact behind view' member
      · next empty =>
        have none := restricted.hits_dead (Nat.eq_zero_of_not_pos empty)
        exact ⟨_, rfl, by rw [← hit, none, same]; rfl, behind⟩

theorem forEachMatch_sublist {views : List (SegmentView F)} {hits : List (Match F)}
    (matched : forEachMatch schema registry predicate views = .ok hits) : hits.Sublist
      (views.flatMap SegmentView.hits) := by
  induction views generalizing hits with
  | nil =>
    obtain rfl := Except.ok.inj matched
    exact .slnil
  | cons view views ih =>
    obtain ⟨found, listed, rfl⟩ := except_map_ok matched
    rw [List.mapM_cons] at listed
    obtain ⟨here, first, listed⟩ := except_bind_ok listed
    obtain ⟨later, others, listed⟩ := except_bind_ok listed
    obtain rfl := Except.ok.inj listed
    rw [List.flatten_cons, List.flatMap_cons]
    exact (matchedRows_sublist first).append (ih (by rw [forEachMatch, others]; rfl))

end Hits

/-! ### Selected columns -/

section Columns

variable [F64Math F] {schema : Schema} {registry : Registry F} {view : SegmentView F} {index : Nat}

omit [F64Math F] in
theorem cellValue_pickRows [F64 F] (column : Column F) {keep : List Nat} {place : Nat}
    (inside : place < keep.length) :
    cellValue (pickRows column keep) place = cellValue column keep[place] := by
  have valid (bits : Option Bitmap) : Bitmap.validAt (bits.map fun bits => keep.map bits.get)
      place = Bitmap.validAt bits keep[place] := by
    cases bits with
    | none => rfl
    | some bits => simp [Bitmap.validAt, Bitmap.get, inside]
  cases column <;> simp [cellValue, pickRows, Column.isValid, Column.validity, valid, inside]

omit [F64Math F] in
theorem length_pickRows [F64 F] (column : Column F) (keep : List Nat) :
    (pickRows column keep).length = keep.length := by
  cases column <;> simp [pickRows, Column.length]

def SegmentView.shownColumn (view : SegmentView F) (index : Nat) : Column F :=
  if view.live.isNone then view.segment.batch.column index else filterColumn
    (view.segment.batch.column index) view

omit [F64Math F] in
theorem SegmentView.liveIndices_all (all : view.live = none) :
    view.liveIndices = List.range view.segment.numRows := by
  unfold SegmentView.liveIndices SegmentView.isLive
  rw [all]
  exact List.filter_eq_self.mpr fun _ _ => rfl

theorem SegmentView.shownColumn_cells (mapped : view.segment.Mapped schema)
    (declared : index < schema.fields.length) :
    (view.shownColumn index).length = view.liveIndices.length ∧
    ∀ place (inside : place < view.liveIndices.length),
      cellValue (view.shownColumn index) place = (view.segment.row view.liveIndices[place]).getD
        index .null := by
  have here : index < view.segment.batch.columns.length := mapped.binds.length_eq ▸ declared
  have column : view.segment.batch.column index = view.segment.batch.columns[index] := by
    rw [RecordBatch.column, List.getD_eq_getElem _ _ here]
  have length := (mapped.binds.get declared here).length
  have cell (row : Nat) : (view.segment.row row).getD index .null = cellValue
      (view.segment.batch.column index) row := by
    rw [Segment.row, List.getD_eq_getElem _ _ (by simpa using here), List.getElem_map, column]
  unfold SegmentView.shownColumn
  split
  · next all =>
    have indices := view.liveIndices_all (Option.isNone_iff_eq_none.mp all)
    refine ⟨by rw [indices, List.length_range, column]; exact length, fun place inside => ?_⟩
    rw [cell]
    simp [indices]
  · refine ⟨length_pickRows _ _, fun place inside => ?_⟩
    rw [cell]
    exact cellValue_pickRows _ inside

/-- Where each name stands for a stored column. -/
def Stands (schema : Schema) (names : List String) (indices : List Nat) : Prop :=
  List.Forall₂ (fun name index => name ≠ sequenceColumn ∧ ∃ field,
    schema.resolve name = .ok (index, field)) names indices

omit [F64Math F] in
theorem resolve_inside {name : String} {field : Field}
    (resolved : schema.resolve name = .ok (index, field)) : index < schema.fields.length := by
  unfold Schema.resolve at resolved
  split at resolved
  · next found =>
    obtain ⟨rfl, rfl⟩ := Prod.mk.inj (Except.ok.inj resolved)
    have member := List.mem_of_find?_eq_some found
    exact (List.getElem?_eq_some_iff.mp (List.mem_zipIdx_iff_getElem?.mp member)).1
  · cases resolved

/-- The rows of a view's shown columns are columns of its live rows. -/
theorem rows_shown {indices : List Nat} (mapped : view.segment.Mapped schema)
    (declared : ∀ index ∈ indices, index < schema.fields.length)
    (filled : indices ≠ []) (output : Schema) :
    RecordBatch.rows ⟨output, indices.map view.shownColumn⟩ =
      view.hits.map fun hit => indices.map (hit.cells.getD · .null) := by
  obtain ⟨first, others, rfl⟩ := List.exists_cons_of_ne_nil filled
  have count : RecordBatch.numRows ⟨output, (first :: others).map view.shownColumn⟩ =
      view.liveIndices.length :=
    (view.shownColumn_cells mapped (declared first List.mem_cons_self)).1
  unfold RecordBatch.rows SegmentView.hits
  rw [count, List.map_map]
  refine List.ext_getElem (by simp) fun place bound _ => ?_
  have inside : place < view.liveIndices.length := by simpa using bound
  rw [List.getElem_map, List.getElem_map, List.getElem_range, RecordBatch.row, List.map_map]
  change _ = (first :: others).map ((view.segment.row view.liveIndices[place]).getD · .null)
  refine List.map_congr_left fun index member => ?_
  exact (view.shownColumn_cells mapped (declared index member)).2 place inside

/-- The output rows of some columns are those columns of the rows computed on. -/
theorem projectItems_columns {views : List (SegmentView F)} {names : List String} {indices : List Nat}
    (mapped : ∀ view ∈ views, view.segment.Mapped schema) (filled : names ≠ [])
    (stands : Stands schema names indices) :
    ∃ output, projectItems schema views (names.map (PlanItem.column · none)) registry = .ok output ∧
      output.rows = (views.flatMap SegmentView.hits).map fun hit => indices.map
        (hit.cells.getD · .null) := by
  have projects : ∃ projected,
    (names.map (PlanItem.column · none)).mapM (projectItem schema views registry) = .ok projected ∧
      projected.map Prod.snd = indices.map fun index => views.map (·.shownColumn index) := by
    clear filled
    induction stands with
    | nil => exact ⟨[], rfl, rfl⟩
    | @cons name index names indices here _ ih =>
      obtain ⟨ordinary, field, resolved⟩ := here
      obtain ⟨projected, rest, columns⟩ := ih
      have first : projectItem schema views registry (.column name none) =
          .ok ({ field with name := name }, views.map (·.shownColumn index)) := by
        rw [projectItem, passthrough, if_neg ordinary, resolved]
        rfl
      refine ⟨({ field with name := name }, views.map (·.shownColumn index)) :: projected, ?_, by
          rw [List.map_cons, List.map_cons, columns]⟩
      rw [List.map_cons, List.mapM_cons, first]
      simp only [bind, Except.bind, rest]
      rfl
  obtain ⟨projected, done, columns⟩ := projects
  have declared : ∀ index ∈ indices, index < schema.fields.length := fun index member => by
    obtain ⟨name, _, _, field, resolved⟩ := forall₂_mem_right stands member
    exact resolve_inside resolved
  have some : indices ≠ [] :=
    fun none => filled (List.length_eq_zero_iff.mp (by rw [stands.length_eq, none]; rfl))
  refine ⟨_, by rw [projectItems, done]; rfl, ?_⟩
  have batches : (List.range views.length).map (fun place => RecordBatch.rows
      ⟨⟨projected.map Prod.fst⟩, projected.map fun item => item.2.getD place (.f64 [] none)⟩) =
      views.map fun view => view.hits.map fun hit => indices.map (hit.cells.getD · .null) := by
    refine List.ext_getElem (by simp) fun place bound _ => ?_
    have inside : place < views.length := by simpa using bound
    have shown : projected.map (fun item => item.2.getD place (.f64 [] none)) =
        indices.map views[place].shownColumn := by
      rw [← Function.comp_def (fun columns : List (Column F) => columns.getD place (.f64 [] none))
        Prod.snd, ← List.map_map, columns,
        List.map_map]
      refine List.map_congr_left fun index _ => ?_
      simp [inside]
    rw [List.getElem_map, List.getElem_map, List.getElem_range, shown]
    exact rows_shown (mapped _ (List.getElem_mem inside)) declared some _
  rw [QueryOutput.rows, List.flatMap_map, List.flatMap_def, batches, List.map_flatMap, List.flatMap_def]

end Columns

/-! ### The rows of a store -/

section Rows

variable [F64Math F] {s : Store F} {segments all : List (Segment F)} {hits : List (Match F)}

/-- The live rows of the segments are those that the views compute on. -/
theorem hits_viewOf (orderingKey : Nat) (all : List (Segment F)) :
    (all.map s.viewOf).flatMap SegmentView.hits =
    ((entriesOf orderingKey all).filter fun entry => !s.isKilled entry.id).map fun entry =>
      ⟨entry.id, entry.cells⟩ := by
  unfold entriesOf
  rw [List.flatMap_map, List.filter_flatMap, List.map_flatMap]
  congr 1
  funext segment
  rw [SegmentView.hits, SegmentView.liveIndices, List.filter_map, List.map_map]
  have live : ∀ row ∈ List.range segment.numRows, (s.viewOf segment).isLive row =
      ((fun entry : MergeEntry F => !s.isKilled entry.id) ∘ segment.entry orderingKey) row :=
        fun row member =>
    Store.isLive_liveMask (List.mem_range.mp member)
  rw [show (s.viewOf segment).segment = segment from rfl, List.filter_congr live]
  rfl

/-- Picking by key finds again what was picked, where the keys are distinct. -/
theorem filter_keys {α : Type} {key : α → Nat} {picked all : List α} (among : picked.Sublist all)
    (distinct : (all.map key).Nodup) :
    all.filter (key · ∈ picked.map key) = picked := by
  induction among with
  | slnil => rfl
  | @cons picked all x among ih =>
    obtain ⟨new, distinct⟩ := List.nodup_cons.mp distinct
    have absent : key x ∉ picked.map key := fun member => new ((among.map key).subset member)
    rw [List.filter_cons_of_neg (by simpa using absent), ih distinct]
  | @cons_cons picked all x among ih =>
    obtain ⟨new, distinct⟩ := List.nodup_cons.mp distinct
    rw [List.filter_cons_of_pos (by simp)]
    congr 1
    refine (List.filter_congr fun y member => ?_).trans (ih distinct)
    have other : key y ≠ key x := fun same => new (same ▸ List.mem_map_of_mem member)
    simp [other]

/-- Ids and rows of a store's live rows, in row-id order. -/
structure Store.Hits (s : Store F) (segments : List (Segment F)) (hits : List (Match F)) : Prop where
  ascending : (hits.map Match.id).Pairwise (· < ·)
  alive : ∀ id ∈ hits.map Match.id, id < s.rows ∧ s.isKilled id = false
  facts : (named (hits.map Match.id) (s.latestFacts segments)).map (·.value) = hits.map Match.cells

theorem Store.Sound.hits_among {disk : Disk F} {past : List (Segment F)}
    (sound : s.Sound disk segments past) (pieces : Pieces s segments all)
    (among : hits.Sublist ((all.map s.viewOf).flatMap SegmentView.hits)) : s.Hits segments hits := by
  have ids := @entriesOf_ids F all s.orderingKey 0 s.rows pieces.covers
  have count : (entriesOf s.orderingKey all).length = s.rows := by
    have lengths := congrArg List.length ids
    simpa using lengths
  rw [hits_viewOf s.orderingKey] at among
  obtain ⟨picked, inside, rfl⟩ := List.sublist_map_iff.mp among
  have listed := inside.trans List.filter_sublist
  have distinct : ((entriesOf s.orderingKey all).map MergeEntry.id).Nodup := by
    rw [ids]
    exact List.nodup_range'
  refine ⟨?_, fun id member => ?_, ?_⟩
  · rw [List.map_map]
    refine List.Pairwise.sublist (listed.map MergeEntry.id) ?_
    rw [ids]
    exact List.pairwise_lt_range'
  · rw [List.map_map] at member
    obtain ⟨entry, chosen, rfl⟩ := List.mem_map.mp member
    obtain ⟨present, live⟩ := List.mem_filter.mp (inside.subset chosen)
    have bound : entry.id ∈ List.range' 0 (s.rows - 0) := ids ▸ List.mem_map_of_mem present
    refine ⟨?_, by simpa using live⟩
    have below := (List.mem_range'_1.mp bound).2
    change entry.id < s.rows
    omega
  · rw [sound.latest_pieces pieces, List.map_map, List.map_map]
    have numbered : ((entriesOf s.orderingKey all).map s.entryFact).zipIdx =
        (entriesOf s.orderingKey all).map fun entry => (s.entryFact entry, entry.id) := by
      refine List.ext_getElem (by simp) fun id bound _ => ?_
      have inside : id < (entriesOf s.orderingKey all).length := by simpa using bound
      simp [entriesOf_getElem pieces.covers inside]
    rw [named, numbered, List.filter_map, List.map_map, List.map_map]
    have found := filter_keys listed distinct
    conv_rhs => rw [← found]
    rfl

theorem Store.Hits.newlyDead (own : s.Hits segments hits) : s.newlyDead
      (hits.map Match.id) = hits.map Match.id := by
  unfold Store.newlyDead
  have alive : (hits.map Match.id).filter (fun id => !s.isKilled id) = hits.map Match.id :=
    List.filter_eq_self.mpr fun id member => by simp [(own.alive id member).2]
  rw [alive, List.dedup_eq_self.mpr (own.ascending.imp fun below => Nat.ne_of_lt below)]
  exact List.Pairwise.insertionSort_eq (own.ascending.imp Nat.le_of_lt)

/-- The hit rows end at the next coordinate, where `rows` are born; every other row stays as it was.
-/
structure Replaces (s : Store F) (disk : Disk F) (hits : List (Match F)) (rows : List (Row F))
    (s' : Store F) (disk' : Disk F) : Prop where
  facts : s'.factsOn disk' = endNamed (hits.map Match.id) s.nextSequence (s.factsOn disk) ++
    rows.map (Fact.bornAt s.nextSequence)
  live : (s'.factsOn disk').filter (·.alive) = survivors (hits.map Match.id) (s.factsOn disk) ++
    rows.map (Fact.bornAt s.nextSequence)
  fresh : ∀ fact ∈ s.factsOn disk, fact.birth < s.nextSequence

/-- Of the rows that were hit only the ids count. -/
theorem Replaces.recast {s s' : Store F} {disk disk' : Disk F} {hits hits' : List (Match F)}
    {rows : List (Row F)}
    (replaces : Replaces s disk hits rows s' disk') (ids : hits.map Match.id = hits'.map Match.id) :
    Replaces s disk hits' rows s' disk' :=
  ⟨ids ▸ replaces.facts, ids ▸ replaces.live, replaces.fresh⟩

theorem Store.Sound.replaces {disk disk' : Disk F} {past past' segments' : List (Segment F)}
    {s' : Store F} {rows : List (Row F)}
    (sound : s.Sound disk segments past) (sound' : s'.Sound disk' segments' past')
    (facts : s'.latestFacts segments' = endNamed (hits.map Match.id) s.watermark
      (s.latestFacts segments) ++ rows.map (Fact.bornAt s.watermark)) :
    Replaces s disk hits rows s' disk' := by
  have all : s'.factsOn disk' = endNamed (hits.map Match.id) s.nextSequence (s.factsOn disk) ++
      rows.map (Fact.bornAt s.nextSequence) := by
    rw [Store.factsOn, Store.factsOn, sound.segmentsOn, sound'.segmentsOn]
    exact facts
  refine ⟨all, ?_, ?_⟩
  · rw [all, List.filter_append, alive_endNamed]
    congr 1
    refine List.filter_eq_self.mpr fun fact member => ?_
    obtain ⟨row, -, rfl⟩ := List.mem_map.mp member
    rfl
  · rw [Store.factsOn, sound.segmentsOn]
    exact sound.born

end Rows

/-! ### Queries -/

namespace Table

section Query

variable [F64Math F] (registry : Registry F) (s : Store F) (disk : Disk F)

/-- The handles that a plan runs over: an `AS OF` cut is read at once, the latest state lazily. -/
def handlesFor : Option Nat → Except StorageError (List (SegmentHandle F))
  | some cut => do
    let known ← s.knowledgeSnapshot
    let views ← (Program.complete backend .ok ((known.asOf cut : Io F Unit _) ()) ⟨disk, []⟩).1.1
    .ok (views.map fun view => .resident view.segment view.live)
  | none => s.snapshot

def executePlan (plan : Plan F) : Except EngineError (QueryOutput F) := do
  let handles ← (handlesFor s disk plan.asOf).mapError .storage
  (executeWithOrderingKey s.schema handles s.orderingKey plan registry
    (disk.reader s.schema)).mapError .query

def query (name : String) (parsed : Except QueryError (Plan F)) : Except EngineError
      (QueryOutput F) := do
  let plan ← parsed.mapError .query
  if plan.table ≠ name then .error (.wrongTable name plan.table) else executePlan registry s disk plan

end Query

def selectColumns (table : String) (names : List String)
    (predicate : Option (Predicate F)) : Plan F where
  table
  join := none
  projection := .items (names.map (.column · none))
  distinct := false
  predicate
  orderBy := none
  limit := none
  offset := none
  asOf := none

/-- The rows that queries with a given `WHERE` compute on, and so return. -/
structure Selects [F64Math F] (name : String) (registry : Registry F) (s : Store F) (disk : Disk F)
    (predicate : Option (Predicate F))
    (hits : List (Match F)) : Prop where
  own : s.Hits (s.segmentsOn disk) hits
  computes : ∃ views, views.flatMap SegmentView.hits = hits ∧ ∀ plan : Plan F, plan.table = name →
    plan.join = none →
    plan.asOf = none → plan.predicate = predicate →
    query registry s disk name (.ok plan) =
      (finish s.schema registry (some s.orderingKey) plan views).mapError .query
  returns : ∀ names indices, names ≠ [] → Stands s.schema names indices →
    (query registry s disk name (.ok (selectColumns name names predicate))).map QueryOutput.rows =
      .ok (hits.map fun hit => indices.map (hit.cells.getD · .null))

/-- The rows that a mutation over the latest snapshot hits, every read succeeding. -/
def matchedOn [F64Math F] (registry : Registry F) (s : Store F) (disk : Disk F)
    (predicate : Option (Predicate F)) :
    Except EngineError (List (Match F)) := do
  let handles ← s.snapshot.mapError .storage
  let views ← (handles.mapM (SegmentHandle.fetch (disk.reader s.schema))).mapError .query
  (forEachMatch s.schema registry predicate views).mapError .query

section Rules

variable [F64Math F] {name : String} {registry : Registry F} {predicate : Option (Predicate F)}
  {s : Store F} {w : World F}
variable {segments past : List (Segment F)} {hits : List (Match F)}

/-- What a mutation hits over a snapshot is what queries with its `WHERE` select. -/
theorem selects_of_matched {disk : Disk F} {all : List (Segment F)}
    {handles : List (SegmentHandle F)} (sound : s.Sound disk segments past)
    (taken : s.snapshot = .ok handles) (pieces : Pieces s segments all)
    (shows : List.Forall₂ (fun handle view => handle.Shows disk view) handles (all.map s.viewOf))
    (matched : forEachMatch s.schema registry predicate (all.map s.viewOf) = .ok hits) :
    Selects name registry s disk predicate hits := by
  have mapped : ∀ view ∈ all.map s.viewOf, view.segment.batch.schema = s.schema ∧
      view.segment.Mapped s.schema := by
    intro view member
    obtain ⟨segment, inside, rfl⟩ := List.mem_map.mp member
    exact ⟨(pieces.ok segment inside).schema, (pieces.ok segment inside).mapped⟩
  obtain ⟨views, kept, same, from_⟩ :=
    forEachMatch_materialize shows (fun view member => (mapped view member).1) matched
  have skips : ∀ handle ∈ handles, Skips s.schema registry (disk.reader s.schema) predicate
      (fun handle => predicate.all (canMatch s.schema handle)) handle := by
    intro handle member
    obtain ⟨view, present, shows⟩ :=
      forall₂_mem_right (List.Forall₂.flip (R := fun view handle => handle.Shows disk view) shows)
      member
    exact faithful_skips (shows.faithful (mapped view present).1 (mapped view present).2)
  have computes (plan : Plan F) (table : plan.table = name) (single : plan.join = none)
    (latest : plan.asOf = none)
      (where_ : plan.predicate = predicate) :
      query registry s disk name (.ok plan) =
        (finish s.schema registry (some s.orderingKey) plan views).mapError .query := by
    unfold query executePlan handlesFor
    simp only [Except.mapError, bind, Except.bind, latest, taken, table, ne_eq,
      not_true_eq_false, if_false]
    unfold executeWithOrderingKey executeSingle executeOver
    rw [single, where_, materialize_pruned skips kept]
    rfl
  refine ⟨?_, ⟨views, same, computes⟩, fun names indices filled stands => ?_⟩
  · rw [sound.segmentsOn]
    exact sound.hits_among pieces (forEachMatch_sublist matched)
  · have whole : ∀ view ∈ views, view.segment.Mapped s.schema := fun view member => by
      obtain ⟨own, present, segment⟩ := from_ view member
      exact segment ▸ (mapped own present).2
    obtain ⟨output, projects, rows⟩ :=
      @projectItems_columns F _ s.schema registry _ _ _ whole filled stands
    rw [computes (selectColumns name names predicate) rfl rfl rfl rfl, ← same, ← rows]
    unfold finish project
    simp only [selectColumns, hiddenOrder, Option.map_none, Option.toList_none,
      List.append_nil, projects]
    rfl

omit [F64Math F] in
theorem fetch_all [F64 F] {schema : Schema} {disk : Disk F} {handles : List (SegmentHandle F)}
    {views : List (SegmentView F)}
    (shows : List.Forall₂ (fun handle view => handle.Shows disk view) handles views)
    (own : ∀ view ∈ views, view.segment.batch.schema = schema) :
    handles.mapM (SegmentHandle.fetch (disk.reader schema)) = .ok views := by
  induction shows with
  | nil => rfl
  | @cons handle view handles views shows _ ih =>
    rw [List.mapM_cons, shows.fetch (own view List.mem_cons_self)]
    simp only [bind, Except.bind, ih fun other member => own other (List.mem_cons_of_mem _ member)]
    rfl

/-- Matching reads a snapshot and changes nothing. Where no read fails, the state decides what it
hits. -/
theorem wp_matches {allow : World F → Call F → Outcome → Prop} {crash : World F → Prop}
    {post : Except EngineError (List (Match F)) → Store F → World F → Prop}
    (steady : s.Steady w.disk segments past)
    (safe : ∀ w', Quiet w w' → crash w')
    (refused : ∀ e w', Quiet w w' →
      (Sure allow → matchedOn registry s w.disk predicate = .error e) → post (.error e) s w')
    (done : ∀ hits w', Quiet w w' → matchedOn registry s w.disk predicate = .ok hits →
      Selects name registry s w.disk predicate hits →
      post (.ok hits) s w') : Fallible.wp backend allow crash
      (matches_ registry predicate) post s w := by
  simp only [matches_, materialize, storage, Fallible.wp_bind, Fallible.wp_read,
    Fallible.wp_mapError, Fallible.wp_ofExcept]
  cases taken : s.snapshot with
  | error e => exact refused _ w (.refl w) fun _ => by rw [matchedOn, taken]; rfl
  | ok handles =>
    obtain ⟨all, pieces, shows⟩ := steady.sound.snapshot taken
    have own : ∀ view ∈ all.map s.viewOf, view.segment.batch.schema = s.schema := by
      intro view member
      obtain ⟨segment, inside, rfl⟩ := List.mem_map.mp member
      exact (pieces.ok segment inside).schema
    have decided : matchedOn registry s w.disk predicate =
        (forEachMatch s.schema registry predicate (all.map s.viewOf)).mapError .query := by
      unfold matchedOn
      rw [taken]
      simp only [Except.mapError, bind, Except.bind, fetch_all shows own]
    refine wp_views rfl shows own safe (fun w' quiet fails => refused _ w' quiet fun sure =>
      (sure.scan fails).elim) fun w' quiet => ?_
    simp only [Except.mapError]
    cases matched : forEachMatch s.schema registry predicate (all.map s.viewOf) with
    | error e => exact refused _ w' quiet fun _ => by rw [decided, matched]; rfl
    | ok hits =>
        exact done hits w' quiet (by rw [decided, matched]; rfl)
          (selects_of_matched steady.sound taken pieces shows matched)

section Mutations

variable {allow : World F → Call F → Outcome → Prop}
  {post : Except EngineError Nat → Store F → World F → Prop}

/-- A `DELETE` is refused with nothing touched, or kills what it hits. -/
theorem wp_delete {plan : DeletePlan F} (steady : s.Steady w.disk segments past)
    (refused : ∀ e w', Quiet w w' → post (.error e) s w')
    (ends : ∀ hits result s' w' segments' past', Selects name registry s w.disk plan.predicate hits →
      s.Conduct segments past (.tombstone (hits.map Match.id)) result s' segments' past' →
      s'.Steady w'.disk segments' past' →
      post (result.mapError .storage) s' w') :
    Fallible.wp backend allow (fun _ => True) (delete name registry plan) post s w := by
  simp only [delete, checkTable, Fallible.wp_bind]
  split
  · exact refused _ w (.refl w)
  · simp only [Fallible.wp_pure]
    refine wp_matches steady (fun _ _ => trivial) (fun e w' quiet _ => ?_)
      fun hits w' quiet _ (selects : Selects name _ _ _ _ _) => ?_
    · exact refused e w' quiet
    have steady' : s.Steady w'.disk segments past := quiet.2 ▸ steady
    refine Fallible.wp_mapError.mpr
      (@Store.wp_conduct F _ allow (fun _ => True) s w' segments past
      (.tombstone (hits.map Match.id)) _ steady'
      (fun _ _ _ _ _ _ _ => trivial) ?_)
    exact fun result s' w'' segments' past' conduct steady'' =>
      ends hits result s' w'' segments' past' selects conduct steady''

def checkedCells (name : String) (schema : Schema) (plan : UpdatePlan F) : Except EngineError
      (List (Nat × RowValue F)) :=
  if plan.table ≠ name then .error (.wrongTable name plan.table) else assignedCells schema
    plan.assignments

/-- What an `UPDATE` is to supersede: the rows it hits and their corrections. -/
def corrections (name : String) (registry : Registry F) (s : Store F) (disk : Disk F)
    (plan : UpdatePlan F) :
    Except EngineError (List (Row F) × List Nat) := do
  let assigned ← checkedCells name s.schema plan
  let hits ← matchedOn registry s disk plan.predicate
  .ok (hits.map fun hit => overwrite assigned hit.cells, hits.map Match.id)

/-- An `UPDATE` is refused with nothing touched, hits nothing, or supersedes what it hits. -/
theorem wp_update {plan : UpdatePlan F} (steady : s.Steady w.disk segments past)
    (refused : ∀ e w', Quiet w w' →
      (Sure allow → corrections name registry s w.disk plan = .error e) → post (.error e) s w')
    (idle : ∀ assigned w', Quiet w w' → assignedCells s.schema plan.assignments = .ok assigned →
      Selects name registry s w.disk plan.predicate [] →
      corrections name registry s w.disk plan = .ok ([], []) → post (.ok 0) s w')
    (busy : ∀ assigned hits w', Quiet w w' → assignedCells s.schema plan.assignments = .ok assigned →
      Selects name registry s w.disk plan.predicate hits → hits ≠ [] →
      corrections name registry s w.disk plan =
      .ok (hits.map fun hit => overwrite assigned hit.cells, hits.map Match.id) →
      Fallible.wp backend allow (fun _ => True)
        (Store.supersede (hits.map fun hit => overwrite assigned hit.cells) (hits.map Match.id))
        (fun result s' w' => post (result.mapError .storage) s' w') s w') :
    Fallible.wp backend allow (fun _ => True) (update name registry plan) post s w := by
  simp only [update, checkTable, Fallible.wp_bind]
  split
  · next other => exact refused _ w (.refl w) fun _ => by rw [corrections, checkedCells, if_pos other]; rfl
  · next same =>
    simp only [Fallible.wp_pure, Fallible.wp_read, Fallible.wp_ofExcept]
    have corrected : corrections name registry s w.disk plan = (do
        let assigned ← assignedCells s.schema plan.assignments
        let hits ← matchedOn registry s w.disk plan.predicate
        .ok (hits.map fun hit => overwrite assigned hit.cells, hits.map Match.id)) := by
      rw [corrections, checkedCells, if_neg same]
    cases cells : assignedCells s.schema plan.assignments with
    | error e => exact refused e w (.refl w) fun _ => by rw [corrected, cells]; rfl
    | ok assigned =>
      rw [cells] at corrected
      refine wp_matches steady (fun _ _ => trivial) (fun e w' quiet failed => ?_)
        fun hits w' quiet matched
        (selects : Selects name _ _ _ _ _) => ?_
      · exact refused e w' quiet fun sure => by rw [corrected, failed sure]; rfl
      simp only
      split
      · next none =>
        obtain rfl := List.isEmpty_iff.mp none
        exact idle assigned w' quiet cells selects (by rw [corrected, matched]; rfl)
      · next some =>
        refine Fallible.wp_mapError.mpr
          (busy assigned hits w' quiet cells selects (by simpa using some) ?_)
        rw [corrected, matched]
        rfl

theorem deleted {hits : List (Match F)} {disk disk' : Disk F} {past' segments' : List (Segment F)}
    {s' : Store F} {count : Nat}
    (sound : s.Sound disk segments past) (sound' : s'.Sound disk' segments' past')
    (own : s.Hits segments hits)
    (conduct : s.Conduct segments past (.tombstone (hits.map Match.id)) (.ok count) s'
      segments' past') :
    count = hits.length ∧ Replaces s disk hits [] s' disk' := by
  have newly := own.newlyDead
  cases conduct with
  | still _ _ _ _ settles answer =>
    obtain ⟨e, error⟩ | ⟨idle, same⟩ := answer
    · cases error
    · have none : hits = [] := by
        have bare : s.newlyDead (hits.map Match.id) = [] := idle
        rwa [newly, List.map_eq_nil_iff] at bare
      subst none
      refine ⟨Except.ok.inj same, sound.replaces sound' ?_⟩
      rw [List.map_nil, endNamed_nil, settles.latest]
      simp
  | tombstone _ first _ _ settles mortal =>
    rw [newly] at sound' ⊢
    refine ⟨by simp, sound.replaces sound' ?_⟩
    rw [sound.latest_killed settles, List.map_nil, List.append_nil]

theorem updated {hits : List (Match F)} {disk disk' : Disk F} {past' segments' : List (Segment F)}
    {s' : Store F} {count : Nat}
    {rows : List (Row F)} (sound : s.Sound disk segments past)
    (sound' : s'.Sound disk' segments' past') (own : s.Hits segments hits)
    (filled : rows ≠ [])
    (conduct : s.Conduct segments past (.supersede rows (hits.map Match.id)) (.ok count) s'
      segments' past') :
    count = hits.length ∧ Replaces s disk hits rows s' disk' := by
  have newly := own.newlyDead
  cases conduct with
  | still _ _ _ _ settles answer =>
    obtain ⟨e, error⟩ | ⟨idle, -⟩ := answer
    · cases error
    · exact absurd idle.1 filled
  | supersede _ _ _ first taken committed _ segments₁ segments₂ _ busy settles takes after inside
      mortal finally_ answer =>
    rw [newly] at inside finally_ answer
    obtain ⟨e, error⟩ | same := answer
    · cases error
    · refine ⟨by simpa using same, sound.replaces sound' ?_⟩
      rw [finally_.latest, Store.latest_killing]
      exact sound.latest_turned inside settles (settles.sound sound) takes after

/-- A supersession of the rows that were hit replaces them. -/
theorem wp_supersedeHits {allow : World F → Call F → Outcome → Prop} {w : World F}
    {hits : List (Match F)} {rows : List (Row F)}
    (steady : s.Steady w.disk segments past) (own : s.Hits segments hits) (filled : rows ≠ []) :
    Fallible.wp backend allow (fun _ => True) (Store.supersede rows (hits.map Match.id))
      (fun result s' w' => ∀ count, result = .ok count → count = hits.length ∧
        Replaces s w.disk hits rows s' w'.disk ∧ ∃ segments' past',
        s'.Sound w'.disk segments' past') s w := by
  refine @Store.wp_conduct F _ allow (fun _ => True) s w segments past (.supersede rows _) _ steady
    (fun _ _ _ _ _ _ _ => trivial) ?_
  intro result s' w' segments' past' conduct steady' count ok
  subst ok
  obtain ⟨same, replaces⟩ := updated steady.sound steady'.sound own filled conduct
  exact ⟨same, replaces, _, _, steady'.sound⟩

/-- What the mutations of a table do in one state. -/
structure Mutates (name : String) (registry : Registry F) (display : F → String) (s : Store F)
    (disk : Disk F) : Prop where
  delete : ∀ (deletes : DeletePlan F) plan count s' w rest,
    Program.run backend (mutate name registry display (.ok (.delete deletes)) s) ⟨disk, []⟩ plan =
      .returned (.ok count, s') w rest →
    ∃ hits, Selects name registry s disk deletes.predicate hits ∧ count = hits.length ∧
      Replaces s disk hits [] s' w.disk
  update : ∀ (updates : UpdatePlan F) plan count s' w rest,
    Program.run backend (mutate name registry display (.ok (.update updates)) s) ⟨disk, []⟩ plan =
      .returned (.ok count, s') w rest →
    ∃ assigned hits, assignedCells s.schema updates.assignments = .ok assigned ∧
      Selects name registry s disk updates.predicate hits ∧
      count = hits.length ∧
        Replaces s disk hits (hits.map fun hit => overwrite assigned hit.cells) s' w.disk

end Mutations

end Rules

end Table

def stocked : Option (Store UInt64 × Disk UInt64) := do
  let (store, disk) ← openTable tagged 0 ⟨some 2, none, .full⟩ .empty
  let (_, after) ← rehearse (fun _ _ _ => true) (fun _ _ _ _ => true)
    [(.append [.i64 1, .key "a"], []), (.append [.i64 2, .key "b"], []),
      (.append [.i64 3, .key "c"], [])] store disk
  return after

theorem stocked_reached {s : Store UInt64} {disk : Disk UInt64} (made : stocked = some (s, disk)) :
    Reached Anything tagged 0 (fun _ => True) (fun _ _ _ => True) (.up s disk) := by
  rw [stocked] at made
  obtain ⟨⟨store, disk₀⟩, opened, made⟩ := Option.bind_eq_some_iff.mp made
  obtain ⟨⟨events, after, disk₁⟩, played, same⟩ := Option.bind_eq_some_iff.mp made
  cases same
  have run : Run Anything tagged 0 (fun _ => True) (fun _ _ _ => True) [.opened] (.up store disk₀) :=
    .boot (.blank fun _ => rfl) (Boot.completes trivial (fun _ _ => trivial) opened)
  have life : Life Anything (.up store disk₀) events (.up s disk) :=
    Life.rehearsed (fun _ _ _ _ => trivial) (fun _ _ _ _ _ => trivial) .start played
  exact .stored (run.lives life)

def relabel : UpdatePlan UInt64 := ⟨"t", [⟨"tag", .string "z"⟩], some (.compare "at" .ge (.int 2))⟩

def relabelled : Option
      (Store UInt64 × Disk UInt64 × Nat × Store UInt64 × World UInt64 × List Outcome) := do
  let (s, disk) ← stocked
  match Program.run backend (Table.mutate "t" noFunctions (fun _ => "") (.ok (.update relabel)) s)
    ⟨disk, []⟩ (List.replicate 40 .ok) with
  | .returned (.ok count, s') w rest => some (s, disk, count, s', w, rest)
  | _ => none

end TallyDB
