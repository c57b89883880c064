import TallyDB.StorageLite.Compact
import TallyDB.StorageLite.Supersede

/-!
# What a merge keeps

The views of a store list its rows by row id. A merge splits them into the live rows, stably
sorted by their ordering value, and the dead ones, and cuts both into segments.
-/

namespace TallyDB

open Crash

variable {F : Type} [F64 F] {s : Store F} {segments past : List (Segment F)} {disk : Disk F}

/-! ### The pieces of a store -/

structure Pieces (store : Store F) (segments all : List (Segment F)) : Prop where
  covers : Covers 0 all store.rows
  rows : all.flatMap Segment.rows = segments.flatMap Segment.rows ++ store.buffer.rows
  births : all.flatMap Segment.births = segments.flatMap Segment.births ++ store.bufferBirths
  ok : ∀ segment ∈ all, SegmentOk store.schema store.orderingKey segment
  virtual : store.knowledge = none → ∀ segment ∈ all, segment.sequence = .rowIds

namespace Store

omit [F64 F] in
theorem bufferBirths_empty (axis : s.AxisOk) (empty : s.buffer.rows = []) : s.bufferBirths = [] := by
  have count := bufferBirths_length axis
  rw [WriteBuffer.len, empty] at count
  exact List.length_eq_zero_iff.mp count

theorem Sound.pieces_empty (sound : s.Sound disk segments past) (empty : s.buffer.rows = []) :
    Pieces s segments segments where
  covers := sound.durable empty ▸ sound.covers
  rows := by rw [empty, List.append_nil]
  births := by rw [bufferBirths_empty sound.axis empty, List.append_nil]
  ok := sound.segmentsOk
  virtual := sound.virtual

theorem Sound.pieces_frozen {segment : Segment F} (sound : s.Sound disk segments past)
    (filled : s.buffer.isEmpty = false)
    (frozen : FrozenFrom s segment) : Pieces s segments (segments ++ [segment]) where
  covers := by
    have counted := sound.axis.counted
    have covers := sound.covers.concat frozen.base
    rwa [frozen.count, ← counted] at covers
  rows := by simp [frozen.rows]
  births := by simp [frozen.births]
  ok member inside := by
    rcases List.mem_append.mp inside with old | new
    · exact sound.segmentsOk member old
    · exact List.mem_singleton.mp new ▸ sound.frozenOk frozen filled
  virtual bare member inside := by
    rcases List.mem_append.mp inside with old | new
    · exact sound.virtual bare member old
    · exact List.mem_singleton.mp new ▸ frozen.virtual.mpr bare

omit [F64 F] in
theorem isLive_liveMask {base rows row : Nat} (inside : row < rows) :
    Bitmap.validAt (s.liveMask base rows) row = !s.isKilled (base + row) := by
  simp only [liveMask]
  split
  · simp [Bitmap.validAt, Bitmap.get, List.getD_eq_getElem?_getD, inside]
  · next none =>
    have alive : s.isKilled (base + row) = false := by
      by_contra dead
      refine none (List.any_eq_true.mpr ⟨base + row, ?_, by simpa using dead⟩)
      exact List.mem_map.mpr ⟨row, List.mem_range.mpr inside, rfl⟩
    simp [Bitmap.validAt, alive]

/-- A segment under the tombstones. -/
def viewOf (store : Store F) (segment : Segment F) : SegmentView F where
  segment
  live := store.liveMask segment.baseRowId segment.numRows

end Store

/-! ### The rows by row id -/

def Segment.entry (segment : Segment F) (orderingKey row : Nat) : MergeEntry F where
  value := segment.orderingAt orderingKey row
  id := segment.baseRowId + row
  segment
  row

def entriesOf (orderingKey : Nat) (all : List (Segment F)) : List (MergeEntry F) :=
  all.flatMap fun segment => (List.range segment.numRows).map (segment.entry orderingKey)

variable {all : List (Segment F)} {orderingKey : Nat}

omit [F64 F] in
theorem entries_viewOf (orderingKey : Nat) (all : List (Segment F)) :
    (all.map s.viewOf).flatMap (·.entries orderingKey) =
      (entriesOf orderingKey all).map fun entry => (entry, !s.isKilled entry.id) := by
  unfold entriesOf
  rw [List.flatMap_map, List.map_flatMap]
  congr 1
  funext segment
  rw [SegmentView.entries, List.map_map]
  refine List.map_congr_left fun row member => ?_
  have live := @Store.isLive_liveMask F s segment.baseRowId segment.numRows row
    (List.mem_range.mp member)
  exact Prod.ext rfl live

omit [F64 F] in
theorem entriesOf_ids {base last : Nat} (covers : Covers base all last) :
    (entriesOf orderingKey all).map MergeEntry.id = List.range' base (last - base) := by
  induction all generalizing base with
  | nil =>
    have same : base = last := covers
    simp [entriesOf, same]
  | cons segment rest ih =>
    obtain ⟨start, after⟩ := covers
    have bound := after.le
    have own : (List.range segment.numRows).map (fun row => base + row) =
        List.range' base segment.numRows := by
      rw [List.range'_eq_map_range]
    have split : last - base = segment.numRows + (last - (base + segment.numRows)) := by omega
    have rest_ := ih after
    simp only [entriesOf, List.flatMap_cons, List.map_append, List.map_map] at rest_ ⊢
    rw [rest_, split, ← List.range'_append_1, ← own, ← start]
    rfl

theorem entriesOf_cells : (entriesOf orderingKey all).map MergeEntry.cells =
      all.flatMap Segment.rows := by
  unfold entriesOf
  rw [List.map_flatMap]
  congr 1
  funext segment
  rw [List.map_map]
  rfl

omit [F64 F] in
theorem entriesOf_births : (entriesOf orderingKey all).map MergeEntry.birth =
      all.flatMap Segment.births := by
  unfold entriesOf
  rw [List.map_flatMap]
  congr 1
  funext segment
  rw [List.map_map]
  rfl

omit [F64 F] in
theorem entriesOf_getElem {last : Nat} (covers : Covers 0 all last) {id : Nat}
    (bound : id < (entriesOf orderingKey all).length) : (entriesOf orderingKey all)[id].id = id := by
  have ids := @entriesOf_ids F all orderingKey 0 last covers
  have same : ((entriesOf orderingKey all).map MergeEntry.id)[id]? =
      some (entriesOf orderingKey all)[id].id := by
    simp [bound]
  have count : (entriesOf orderingKey all).length = last := by
    have lengths := congrArg List.length ids
    simpa using lengths
  rw [ids, List.getElem?_range' (by omega)] at same
  simpa using (Option.some.inj same).symm

theorem Pieces.ledger (pieces : Pieces s segments all) :
    s.ledger segments = (entriesOf orderingKey all).map fun entry =>
      (entry.cells, s.isKilled entry.id) := by
  unfold Store.ledger ledgerOf
  rw [← pieces.rows, ← @entriesOf_cells F _ all orderingKey]
  refine List.ext_getElem (by simp) fun id bound _ => ?_
  have inside : id < (entriesOf orderingKey all).length := by simpa using bound
  simp only [List.getElem_map, List.getElem_zipIdx, Nat.zero_add,
    entriesOf_getElem pieces.covers inside]
  rfl

/-! ### The order of a merge -/

namespace MergeEntry

omit [F64 F] in
theorem le_iff {left right : MergeEntry F} : MergeEntry.le left right ↔
    left.value.toInt < right.value.toInt ∨
    (left.value.toInt = right.value.toInt ∧ left.id ≤ right.id) := by
  rw [MergeEntry.le, Int64.lt_iff_toInt_lt, ← Int64.toInt_inj]

instance : Std.Total (@MergeEntry.le F) := ⟨fun left right => by
  rw [le_iff, le_iff]
  omega⟩

instance : IsTrans (MergeEntry F) MergeEntry.le := ⟨fun left middle right first second => by
  rw [le_iff] at first second ⊢
  omega⟩

end MergeEntry

def orderOf (store : Store F) (all : List (Segment F)) : List (MergeEntry F) :=
  ((entriesOf store.orderingKey all).filter fun entry => !store.isKilled entry.id).insertionSort
    MergeEntry.le

def deadOf (store : Store F) (all : List (Segment F)) : List (MergeEntry F) :=
  ((entriesOf store.orderingKey all).filter fun entry => store.isKilled entry.id).insertionSort
    MergeEntry.le

omit [F64 F] in
theorem mergeOrder_views : Store.mergeOrder s.orderingKey (all.map s.viewOf) = orderOf s all := by
  rw [Store.mergeOrder, entries_viewOf, List.filter_map, List.map_map, orderOf]
  congr 1
  exact List.map_id _

omit [F64 F] in
theorem deadOrder_views : Store.deadOrder s.orderingKey (all.map s.viewOf) = deadOf s all := by
  rw [Store.deadOrder, entries_viewOf, List.filter_map, List.map_map, deadOf]
  congr 1
  have same : ((fun pair : MergeEntry F × Bool => !pair.2) ∘ fun entry : MergeEntry F =>
    (entry, !s.isKilled entry.id)) =
      fun entry => s.isKilled entry.id := funext fun entry => Bool.not_not _
  rw [same]
  exact List.map_id _

theorem insertionSort_congr {α : Type} {r r' : α → α → Prop} [DecidableRel r]
    [DecidableRel r'] {xs : List α}
    (same : xs.Pairwise fun x y => r x y ↔ r' x y) : xs.insertionSort r = xs.insertionSort r' := by
  have insert (x : α) (ys : List α) (agree : ∀ y ∈ ys, r x y ↔ r' x y) : ys.orderedInsert r x =
      ys.orderedInsert r' x := by
    induction ys with
    | nil => rfl
    | cons y ys ih =>
      rw [List.orderedInsert_cons, List.orderedInsert_cons, ih fun z member =>
        agree z (List.mem_cons_of_mem _ member)]
      exact if_congr (agree y List.mem_cons_self) rfl rfl
  induction same with
  | nil => rfl
  | cons head _ ih =>
    rw [List.insertionSort_cons, List.insertionSort_cons, ih]
    exact insert _ _ fun y member => head y ((List.mem_insertionSort _).mp member)

/-- The live rows of a ledger, stably sorted by ordering value. -/
def Ledger.compacted (orderingKey : Nat) (ledger : Ledger F) : Ledger F :=
  (((ledger.filter (!·.2)).map (·.1)).insertionSort fun left right =>
    orderingValue orderingKey left ≤ orderingValue orderingKey right).map (·, false)

theorem orderingAt_row {schema : Schema} {segment : Segment F} {row : Nat}
    (keyed : schema.checkOrderingKey orderingKey = .ok ())
    (valid : schema.validate (segment.row row) = .ok ()) :
    orderingValue orderingKey (segment.row row) = segment.orderingAt orderingKey row := by
  obtain ⟨field, found, kind, required⟩ : ∃ field, schema.fields[orderingKey]? = some field ∧
      field.columnType = .i64 ∧ field.nullable = false := by
    unfold Schema.checkOrderingKey at keyed
    split at keyed
    · cases keyed
    · next field found =>
      split at keyed
      · cases keyed
      · next kind =>
        split at keyed
        · cases keyed
        · next required => exact ⟨field, found, by simpa using kind, by simpa using required⟩
  have cell (fields : List Field) (row : Row F) (key : Nat) (same : row.length = fields.length)
      (valid : validateCells fields row = .ok ()) (found : fields[key]? = some field) :
      ∃ value, row[key]? = some (.i64 value) := by
    induction fields generalizing row key with
    | nil => cases found
    | cons first fields ih =>
      cases row with
      | nil => cases same
      | cons cell cells =>
        cases head : validateCell first cell with
        | error e =>
          rw [validateCells, head] at valid
          cases valid
        | ok _ =>
          rw [validateCells, head] at valid
          cases key with
          | zero =>
            obtain rfl := Option.some.inj found
            cases cell with
            | i64 value => exact ⟨value, rfl⟩
            | _ => simp [validateCell, required, RowValue.hasType, kind] at head
          | succ key => exact ih cells key (Nat.succ.inj same) valid found
  have shape : (segment.row row).length = schema.fields.length ∧
      validateCells schema.fields (segment.row row) = .ok () := by
    unfold Schema.validate at valid
    split at valid
    · cases valid
    · next same => exact ⟨not_not.mp same, valid⟩
  obtain ⟨value, held⟩ := cell _ _ orderingKey shape.1 shape.2 found
  rw [orderingValue, held]
  simp only [Segment.row, List.getElem?_map, Option.map_eq_some_iff] at held
  obtain ⟨column, at_, same⟩ := held
  unfold cellValue at same
  split at same
  · cases column with
    | i64 values validity =>
      simp only [RowValue.i64.injEq] at same
      simp [Segment.orderingAt, at_, ← same]
    | _ => cases same
  · cases same

theorem entriesOf_value {schema : Schema} {entry : MergeEntry F}
    (keyed : schema.checkOrderingKey orderingKey = .ok ())
    (valid : schema.validate entry.cells = .ok ()) (member : entry ∈ entriesOf orderingKey all) :
    orderingValue orderingKey entry.cells = entry.value := by
  simp only [entriesOf, List.mem_flatMap, List.mem_map] at member
  obtain ⟨segment, -, row, -, rfl⟩ := member
  exact orderingAt_row keyed valid

theorem Column.Binds.validates {rows row : Nat} {field : Field} {column : Column F}
    (binds : column.Binds rows field) :
    validateCell field (cellValue column row) = .ok () := by
  unfold cellValue
  split
  · have typed := binds.typed
    cases column <;> simp only [Column.columnType] at typed <;>
      simp [validateCell, RowValue.hasType, ← typed]
  · next invalid =>
    refine if_pos ?_
    cases marked : column.validity with
    | none => simp [Column.isValid, Bitmap.validAt, marked] at invalid
    | some bits => exact (binds.validity bits marked).2

/-- What a segment holds goes through the checks of the append path again. -/
theorem Segment.Mapped.validates {schema : Schema} {segment : Segment F}
    (mapped : segment.Mapped schema) (row : Nat) : schema.validate (segment.row row) = .ok () := by
  have cells {fields : List Field} {columns : List (Column F)}
    (binds : List.Forall₂ (Column.Binds segment.numRows) fields columns) :
      validateCells fields (columns.map fun column => cellValue column row) = .ok () := by
    induction binds with
    | nil => rfl
    | cons head _ ih =>
      rw [List.map_cons, validateCells, head.validates]
      exact ih
  unfold Schema.validate
  rw [if_neg (by simp [Segment.row, mapped.binds.length_eq])]
  exact cells mapped.binds

theorem Pieces.valid (pieces : Pieces s segments all) {entry : MergeEntry F}
    (member : entry ∈ entriesOf s.orderingKey all) :
    s.schema.validate entry.cells = .ok () := by
  simp only [entriesOf, List.mem_flatMap, List.mem_map] at member
  obtain ⟨segment, inside, row, -, rfl⟩ := member
  exact (pieces.ok segment inside).mapped.validates row

/-- The rows that a merge picks come out stably sorted by their ordering values. -/
theorem sorted_entries (covers : Covers 0 all s.rows)
    (keyed : s.schema.checkOrderingKey s.orderingKey = .ok ()) (pick : MergeEntry F → Bool)
    (valid : ∀ entry ∈ entriesOf s.orderingKey all, pick entry = true →
      s.schema.validate entry.cells = .ok ()) :
    ((entriesOf s.orderingKey all).filter pick).insertionSort MergeEntry.le =
      ((entriesOf s.orderingKey all).filter pick).insertionSort fun left right =>
        orderingValue s.orderingKey left.cells ≤ orderingValue s.orderingKey right.cells := by
  have value {entry : MergeEntry F} (inside : entry ∈ (entriesOf s.orderingKey all).filter pick) :
      orderingValue s.orderingKey entry.cells = entry.value := by
    obtain ⟨member, picked⟩ := List.mem_filter.mp inside
    exact entriesOf_value keyed (valid entry member picked) member
  -- Listed by id, two rows compare by their values alone.
  refine insertionSort_congr ?_
  have ids : (entriesOf s.orderingKey all).Pairwise fun left right => left.id < right.id := by
    refine List.pairwise_map.mp
      (?_ : ((entriesOf s.orderingKey all).map MergeEntry.id).Pairwise (· < ·))
    rw [entriesOf_ids covers]
    exact List.pairwise_lt_range'
  refine (ids.filter _).imp_of_mem fun {left right} leftIn rightIn below => ?_
  rw [value leftIn, value rightIn, Int64.le_iff_lt_or_eq]
  unfold MergeEntry.le
  have le := below.le
  simp [le]

theorem sorted_cells (covers : Covers 0 all s.rows)
    (keyed : s.schema.checkOrderingKey s.orderingKey = .ok ()) (pick : MergeEntry F → Bool)
    (valid : ∀ entry ∈ entriesOf s.orderingKey all, pick entry = true →
      s.schema.validate entry.cells = .ok ()) :
    (((entriesOf s.orderingKey all).filter pick).insertionSort MergeEntry.le).map MergeEntry.cells =
      (((entriesOf s.orderingKey all).filter pick).map MergeEntry.cells).insertionSort fun left right =>
        orderingValue s.orderingKey left ≤ orderingValue s.orderingKey right := by
  rw [sorted_entries covers keyed pick valid]
  exact List.map_insertionSort (fun left right : MergeEntry F =>
      orderingValue s.orderingKey left.cells ≤ orderingValue s.orderingKey right.cells)
    (fun left right : Row F => orderingValue s.orderingKey left ≤ orderingValue s.orderingKey right)
      MergeEntry.cells
    ((entriesOf s.orderingKey all).filter pick) fun _ _ _ _ => Iff.rfl

theorem orderOf_cells (pieces : Pieces s segments all)
    (keyed : s.schema.checkOrderingKey s.orderingKey = .ok ())
    (valid : ∀ entry ∈ orderOf s all, s.schema.validate entry.cells = .ok ()) :
    (orderOf s all).map
    (fun entry => (entry.cells, false)) = (s.ledger segments).compacted s.orderingKey := by
  unfold Ledger.compacted
  rw [@Pieces.ledger F _ s segments all s.orderingKey pieces, List.filter_map, List.map_map]
  have live : ((fun pair : Row F × Bool => !pair.2) ∘ fun entry : MergeEntry F =>
    (entry.cells, s.isKilled entry.id)) =
      fun entry => !s.isKilled entry.id := rfl
  have fst : ((fun pair : Row F × Bool => pair.1) ∘ fun entry : MergeEntry F =>
    (entry.cells, s.isKilled entry.id)) =
      MergeEntry.cells := rfl
  have sorted := sorted_cells pieces.covers keyed (fun entry => !s.isKilled entry.id)
      fun entry member alive =>
    valid entry ((List.mem_insertionSort _).mpr (List.mem_filter.mpr ⟨member, alive⟩))
  rw [live, fst, ← sorted, List.map_map]
  rfl

/-! ### The segments of a merge -/

/-- Merged rows cut into chunks, each closed into its segment. -/
inductive Chunked (schema : Schema) (orderingKey : Nat)
    (close : WriteBuffer F → List (MergeEntry F) → Nat → Except StorageError (Segment F)) :
    Nat → List (Segment F) → List (MergeEntry F) → Prop where
  | nil (base : Nat) : Chunked schema orderingKey close base [] []
  | cons {base : Nat} {buffer : WriteBuffer F} {chunk : List (MergeEntry F)} {segment : Segment F}
      {segments : List (Segment F)} {entries : List (MergeEntry F)} (schema_eq : buffer.schema = schema)
      (key_eq : buffer.orderingKey = orderingKey) (rows : buffer.rows = chunk.map MergeEntry.cells)
        (filled : chunk ≠ [])
      (inOrder : buffer.InOrder)
      (closed : close buffer chunk base = .ok segment)
      (later : Chunked schema orderingKey close (base + chunk.length) segments entries) :
      Chunked schema orderingKey close base (segment :: segments) (chunk ++ entries)

section Rebuild

variable {schema : Schema}
  {close : WriteBuffer F → List (MergeEntry F) → Nat → Except StorageError (Segment F)}

/-- One merged row goes into the buffer, which is closed if that fills it. -/
theorem Store.rebuild_cons {segmentRows base : Nat} {entry : MergeEntry F}
    {rest taken : List (MergeEntry F)} {buffer : WriteBuffer F}
    {out : List (Segment F)}
    (built : Store.rebuild segmentRows close (entry :: rest) buffer taken base = .ok out) :
    ∃ filled, buffer.append entry.cells = .ok filled ∧
      if segmentRows ≤ filled.len then
        ∃ segment, close filled (taken ++ [entry]) base = .ok segment ∧ ∃ segments,
        Store.rebuild segmentRows close rest
          (.empty buffer.schema buffer.orderingKey) [] (base + filled.len) = .ok segments ∧
          out = segment :: segments
      else Store.rebuild segmentRows close rest filled (taken ++ [entry]) base = .ok out := by
  rw [Store.rebuild] at built
  cases appended : buffer.append entry.cells with
  | error e =>
    rw [appended] at built
    cases built
  | ok filled =>
    rw [appended] at built
    refine ⟨filled, rfl, ?_⟩
    change (if segmentRows ≤ filled.len then _ else _) = _ at built
    split at built
    · next full =>
      rw [if_pos full]
      cases closed : close filled (taken ++ [entry]) base with
      | error e =>
        rw [closed] at built
        cases built
      | ok segment =>
        rw [closed] at built
        cases later : Store.rebuild segmentRows close rest (.empty buffer.schema buffer.orderingKey)
          [] (base + filled.len) with
        | error e =>
          simp only [later] at built
          cases built
        | ok segments =>
          simp only [later] at built
          exact ⟨segment, rfl, segments, rfl, (Except.ok.inj built).symm⟩
    · next more =>
      rw [if_neg more]
      exact built

theorem rebuild_chunked {segmentRows base : Nat} {order taken : List (MergeEntry F)}
    {buffer : WriteBuffer F}
    {out : List (Segment F)} (built : Store.rebuild segmentRows close order buffer taken base = .ok out)
    (schema_eq : buffer.schema = schema) (key_eq : buffer.orderingKey = orderingKey)
    (rows : buffer.rows = taken.map MergeEntry.cells) (inOrder : buffer.InOrder) :
    Chunked schema orderingKey close base out (taken ++ order) := by
  induction order generalizing buffer taken base out with
  | nil =>
    rw [Store.rebuild] at built
    rw [List.append_nil]
    split at built
    · next empty =>
      have none := Store.isEmpty_iff.mp empty
      rw [rows, List.map_eq_nil_iff] at none
      obtain rfl := Except.ok.inj built
      exact none ▸ .nil base
    · next filled =>
      cases closed : close buffer taken base with
      | error e =>
        rw [closed] at built
        cases built
      | ok segment =>
        rw [closed] at built
        obtain rfl := Except.ok.inj built
        have some : taken ≠ [] := by
          rintro rfl
          exact filled (Store.isEmpty_iff.mpr rows)
        have last := Chunked.cons schema_eq key_eq rows some inOrder closed (.nil _)
        rwa [List.append_nil] at last
  | cons entry rest ih =>
    obtain ⟨filled, appended, built⟩ := Store.rebuild_cons built
    obtain ⟨valid, rfl⟩ := Store.append_ok appended
    have same : (buffer.push entry.cells valid).schema = schema := schema_eq
    have grown : (buffer.push entry.cells valid).rows = (taken ++ [entry]).map MergeEntry.cells := by
      rw [List.map_append, ← rows]
      rfl
    have still := WriteBuffer.push_inOrder inOrder entry.cells valid
    split at built
    · obtain ⟨segment, closed, segments, others, rfl⟩ := built
      rw [WriteBuffer.len, grown, List.length_map] at others
      have chunk := Chunked.cons same key_eq grown (by simp) still closed
        (ih others schema_eq key_eq rfl (WriteBuffer.empty_inOrder _ _))
      simpa using chunk
    · simpa using ih built same key_eq grown still

/-- Every segment but the last is full. -/
theorem rebuild_sized {segmentRows base : Nat} {order taken : List (MergeEntry F)}
    {buffer : WriteBuffer F} {out : List (Segment F)}
    (counts : ∀ {buffer : WriteBuffer F} {taken : List (MergeEntry F)} {base : Nat}
      {segment : Segment F},
      close buffer taken base = .ok segment → buffer.schema = schema → segment.numRows = buffer.len)
    (built : Store.rebuild segmentRows close order buffer taken base = .ok out)
    (schema_eq : buffer.schema = schema)
    (room : buffer.len < segmentRows) : ∀ segment ∈ out.dropLast, segment.numRows = segmentRows := by
  have one (first segment : Segment F) (member : segment ∈ [first].dropLast) : segment.numRows =
      segmentRows := by
    cases member
  induction order generalizing buffer taken base out with
  | nil =>
    rw [Store.rebuild] at built
    split at built
    · obtain rfl := Except.ok.inj built
      simp
    · cases closed : close buffer taken base with
      | error e =>
        rw [closed] at built
        cases built
      | ok segment =>
        rw [closed] at built
        obtain rfl := Except.ok.inj built
        exact one segment
  | cons entry rest ih =>
    obtain ⟨filled, appended, built⟩ := Store.rebuild_cons built
    obtain ⟨valid, rfl⟩ := Store.append_ok appended
    have same : (buffer.push entry.cells valid).schema = schema := schema_eq
    have grown := Store.push_len valid
    split at built
    · next full =>
      obtain ⟨first, closed, segments, later, rfl⟩ := built
      have exact_ : first.numRows = segmentRows := by
        rw [counts closed same]
        omega
      have rest_ := ih later same (Nat.lt_of_le_of_lt (Nat.zero_le _) room)
      cases segments with
      | nil => exact one first
      | cons second others =>
        intro segment member
        rcases List.mem_cons.mp member with rfl | inside
        · exact exact_
        · exact rest_ segment inside
    · next more => exact ih built same (Nat.not_le.mp more)

variable {base : Nat} {out : List (Segment F)} {entries : List (MergeEntry F)}

theorem Chunked.valid (chunked : Chunked schema orderingKey close base out entries) :
    ∀ entry ∈ entries, schema.validate entry.cells = .ok () := by
  induction chunked with
  | nil => simp
  | cons schema_eq key_eq rows filled inOrder closed later ih =>
    intro entry member
    rcases List.mem_append.mp member with own | rest
    · have checked := WriteBuffer.valid _ entry.cells (rows ▸ List.mem_map_of_mem own)
      rwa [schema_eq] at checked
    · exact ih entry rest

/-- What a closed chunk of rows records. -/
structure Closed (schema : Schema) (orderingKey : Nat) (chunk : List (MergeEntry F))
    (segment : Segment F) : Prop where
  mapped : schema.checkOrderingKey orderingKey = .ok () → segment.Mapped schema
  schema : segment.batch.schema = schema
  orderingKey : segment.orderingKey = orderingKey
  rows : segment.rows = chunk.map MergeEntry.cells
  count : segment.numRows = chunk.length
  sequenceOk : segment.SequenceOk
  inOrder : segment.InOrder

omit [F64 F] in
theorem closeLive_count [F64 F] {diverged : Bool} {buffer : WriteBuffer F}
    {chunk : List (MergeEntry F)} {segment : Segment F}
    (closed : Store.closeLive diverged buffer chunk base = .ok segment)
    (columns : buffer.schema.fields ≠ []) :
    segment.numRows = buffer.len := by
  unfold Store.closeLive at closed
  cases frozen : buffer.freezeAt base with
  | error e =>
    rw [frozen] at closed
    cases closed
  | ok raw =>
    rw [frozen] at closed
    have count := WriteBuffer.freezeAt_numRows frozen columns
    obtain rfl := Except.ok.inj closed
    cases diverged
    · exact count
    · exact count

theorem closeLive_closed {diverged : Bool} {buffer : WriteBuffer F} {chunk : List (MergeEntry F)}
    {segment : Segment F}
    (closed : Store.closeLive diverged buffer chunk base = .ok segment)
    (columns : buffer.schema.fields ≠ [])
    (rows : buffer.rows = chunk.map MergeEntry.cells) (inOrder : buffer.InOrder) :
    Closed buffer.schema buffer.orderingKey chunk segment ∧ segment.baseRowId = base ∧
      segment.births = (if diverged then chunk.map MergeEntry.birth
        else (List.range chunk.length).map (base + ·)) ∧
      (diverged = false → segment.sequence = .rowIds) := by
  unfold Store.closeLive at closed
  cases frozen : buffer.freezeAt base with
  | error e =>
    rw [frozen] at closed
    cases closed
  | ok raw =>
    rw [frozen] at closed
    have count : raw.numRows = chunk.length := by
      rw [WriteBuffer.freezeAt_numRows frozen columns, WriteBuffer.len, rows, List.length_map]
    have read := WriteBuffer.freezeAt_rows frozen columns
    have cells := read.trans rows
    have still : raw.InOrder := WriteBuffer.freezeAt_inOrder frozen read inOrder
    obtain ⟨start, sequence, -, schema, orderingKey, -⟩ := WriteBuffer.freezeAt_spec frozen
    have mapped := fun accepted => WriteBuffer.freezeAt_mapped accepted frozen
    cases diverged with
    | false =>
      obtain rfl : raw = segment := Except.ok.inj closed
      refine ⟨⟨mapped, schema, orderingKey, cells, count, ?_, still⟩, start, ?_, fun _ => sequence⟩
      · intro values explicit
        rw [sequence] at explicit
        cases explicit
      · simp [Segment.births, Segment.sequenceAt, sequence, count, start]
    | true =>
      obtain rfl := Except.ok.inj closed
      have sound : (raw.withSequence (.explicit (chunk.map MergeEntry.birth))).SequenceOk := by
        intro values explicit
        obtain rfl := SequenceInfo.explicit.inj explicit
        rw [List.length_map]
        exact count.symm
      refine ⟨⟨fun accepted => (mapped accepted).attached _ _, schema, orderingKey, cells, count,
        sound, still⟩, start, ?_, fun impossible => by cases impossible⟩
      exact Segment.births_explicit rfl (sound _ rfl)

theorem closeHistory_closed {stamps : Tombstones} {buffer : WriteBuffer F} {chunk : List (MergeEntry F)}
    {segment : Segment F} (closed : Store.closeHistory stamps buffer chunk base = .ok segment)
    (columns : buffer.schema.fields ≠ []) (rows : buffer.rows = chunk.map MergeEntry.cells)
    (inOrder : buffer.InOrder) :
    Closed buffer.schema buffer.orderingKey chunk segment ∧
    segment.births = chunk.map MergeEntry.birth ∧
      segment.superseded = some (chunk.map fun entry => (stamps.lookup entry.id).getD 0) := by
  unfold Store.closeHistory at closed
  cases frozen : buffer.freezeAt 0 with
  | error e =>
    rw [frozen] at closed
    cases closed
  | ok raw =>
    rw [frozen] at closed
    have count : raw.numRows = chunk.length := by
      rw [WriteBuffer.freezeAt_numRows frozen columns, WriteBuffer.len, rows, List.length_map]
    have read := WriteBuffer.freezeAt_rows frozen columns
    have cells := read.trans rows
    have still : raw.InOrder := WriteBuffer.freezeAt_inOrder frozen read inOrder
    obtain ⟨-, -, -, schema, orderingKey, -⟩ := WriteBuffer.freezeAt_spec frozen
    obtain rfl := Except.ok.inj closed
    have sound : ((raw.withSequence (.explicit (chunk.map MergeEntry.birth))).withSuperseded
        (chunk.map fun entry => (stamps.lookup entry.id).getD 0)).SequenceOk := by
      intro values explicit
      obtain rfl := SequenceInfo.explicit.inj explicit
      rw [List.length_map]
      exact count.symm
    have mapped := fun accepted => WriteBuffer.freezeAt_mapped accepted frozen
    exact ⟨⟨fun accepted => (mapped accepted).attached _ _, schema, orderingKey, cells, count,
      sound, still⟩, Segment.births_explicit rfl (sound _ rfl), rfl⟩

end Rebuild

/-! ### The merge -/

/-- What a merge makes of the pieces of a store. -/
structure MergeOf (store : Store F) (all : List (Segment F)) (merged : Store.Merged F) : Prop where
  rows : merged.rows = (orderOf store all).length
  covers : Covers 0 merged.segments merged.rows
  cells : merged.segments.flatMap Segment.rows = (orderOf store all).map MergeEntry.cells
  births : merged.segments.flatMap Segment.births = (orderOf store all).map MergeEntry.birth
  ok : ∀ segment ∈ merged.segments, SegmentOk store.schema store.orderingKey segment
  valid : ∀ entry ∈ orderOf store all, store.schema.validate entry.cells = .ok ()
  watermark : merged.watermark.getD merged.rows = store.watermark
  virtual : merged.watermark = none → ∀ segment ∈ merged.segments, segment.sequence = .rowIds
  historyCells : merged.history.flatMap Segment.rows = (deadOf store all).map MergeEntry.cells
  historyBirths : merged.history.flatMap Segment.births = (deadOf store all).map MergeEntry.birth
  historyKills : merged.history.flatMap (·.superseded.getD []) =
    (deadOf store all).map fun entry => (store.killedAt entry.id).getD 0
  historyOk : ∀ segment ∈ merged.history, HistoryOk store.schema store.orderingKey segment
  idle : merged.watermark = none → deadOf store all = []
  sized : ∀ segment ∈ merged.segments.dropLast, segment.numRows = store.segmentRows

omit [F64 F] in
theorem rowIds_births {segment : Segment F} (plain : segment.sequence = .rowIds) {row : Nat} :
    (segment.entry orderingKey row).birth = (segment.entry orderingKey row).id := by
  simp [Segment.entry, MergeEntry.birth, Segment.sequenceAt, plain]

omit [F64 F] in
/-- Where nothing diverges, every row keeps its id, which is its birth. -/
theorem undiverged (pieces_covers : Covers 0 all s.rows)
    (virtual : ∀ segment ∈ all, segment.sequence = .rowIds) {recorded : Option Nat}
    (plain : Store.diverging recorded (orderOf s all) (deadOf s all) = false) :
    recorded = none ∧ (orderOf s all).length = s.rows ∧
      (orderOf s all).map MergeEntry.birth = List.range (orderOf s all).length := by
  obtain ⟨⟨none, dead⟩, ids⟩ : (recorded = none ∧ deadOf s all = []) ∧
      ∀ entry id, (entry, id) ∈ (orderOf s all).zipIdx → entry.id = id := by
    simpa [Store.diverging] using plain
  have alive : (entriesOf s.orderingKey all).filter (fun entry => !s.isKilled entry.id) =
      entriesOf s.orderingKey all := by
    refine List.filter_eq_self.mpr fun entry member => ?_
    have nobody : (entriesOf s.orderingKey all).filter (fun entry => s.isKilled entry.id) = [] := by
      have perm := List.perm_insertionSort (MergeEntry.le (F := F))
        ((entriesOf s.orderingKey all).filter fun entry => s.isKilled entry.id)
      exact List.nil_perm.mp (dead ▸ perm)
    simpa using List.filter_eq_nil_iff.mp nobody entry member
  have perm : (orderOf s all).Perm (entriesOf s.orderingKey all) := by
    have sorted := List.perm_insertionSort (@MergeEntry.le F)
      ((entriesOf s.orderingKey all).filter fun entry => !s.isKilled entry.id)
    rw [alive] at sorted
    unfold orderOf
    rw [alive]
    exact sorted
  refine ⟨none, ?_, ?_⟩
  · have lengths := congrArg List.length (@entriesOf_ids F all s.orderingKey 0 s.rows pieces_covers)
    rw [perm.length_eq]
    simpa using lengths
  · refine List.ext_getElem (by simp) fun id bound _ => ?_
    have inside : id < (orderOf s all).length := by simpa using bound
    have member : (orderOf s all)[id] ∈ entriesOf s.orderingKey all :=
      perm.subset (List.getElem_mem inside)
    have own := ids _ id (List.mk_mem_zipIdx_iff_getElem?.mpr (List.getElem?_eq_getElem inside))
    simp only [entriesOf, List.mem_flatMap, List.mem_map] at member
    obtain ⟨segment, within, row, -, same⟩ := member
    rw [List.getElem_map, List.getElem_range, ← same, rowIds_births (virtual segment within), same, own]

theorem Closed.ok {schema : Schema} {chunk : List (MergeEntry F)} {segment : Segment F}
    (closed : Closed schema orderingKey chunk segment)
    (keyed : schema.checkOrderingKey orderingKey = .ok ()) (filled : chunk ≠ []) :
    SegmentOk schema orderingKey segment where
  schema := closed.schema
  orderingKey := closed.orderingKey
  filled := closed.count ▸ List.length_pos_of_ne_nil filled
  sequenceOk := closed.sequenceOk
  mapped := closed.mapped keyed
  inOrder := closed.inOrder

theorem Chunked.live {schema : Schema} {diverged : Bool} {base : Nat} {out : List (Segment F)}
    {entries : List (MergeEntry F)} (keyed : schema.checkOrderingKey orderingKey = .ok ())
    (chunked : Chunked schema orderingKey (Store.closeLive diverged) base out entries) :
    Covers base out (base + entries.length) ∧ out.flatMap Segment.rows = entries.map MergeEntry.cells ∧
      out.flatMap Segment.births =
        (if diverged then entries.map MergeEntry.birth
          else (List.range entries.length).map (base + ·)) ∧
      (∀ segment ∈ out, SegmentOk schema orderingKey segment) ∧
      (diverged = false → ∀ segment ∈ out, segment.sequence = .rowIds) := by
  induction chunked with
  | nil base => exact ⟨rfl, rfl, by simp, by simp, by simp⟩
  | @cons base buffer chunk segment segments entries schema_eq key_eq rows filled inOrder
      closed later ih =>
    obtain ⟨covers, cells, births, ok, plain⟩ := ih
    obtain ⟨own, start, ownBirths, ownPlain⟩ :=
      closeLive_closed closed (schema_eq ▸ Schema.fields_ne_nil keyed) rows inOrder
    rw [schema_eq, key_eq] at own
    refine ⟨⟨start, ?_⟩, ?_, ?_, ?_, ?_⟩
    · rw [own.count, List.length_append, ← Nat.add_assoc]
      exact covers
    · rw [List.flatMap_cons, own.rows, cells, List.map_append]
    · rw [List.flatMap_cons, ownBirths, births]
      cases diverged with
      | true => simp
      | false =>
        simp only [Bool.false_eq_true, if_false, List.length_append, List.range_add,
          List.map_append, List.map_map]
        congr 2
        exact funext fun row => Nat.add_assoc _ _ _
    · intro member inside
      rcases List.mem_cons.mp inside with rfl | rest
      · exact own.ok keyed filled
      · exact ok member rest
    · intro flat member inside
      rcases List.mem_cons.mp inside with rfl | rest
      · exact ownPlain flat
      · exact plain flat member rest

theorem Chunked.history {schema : Schema} {stamps : Tombstones} {base : Nat} {out : List (Segment F)}
    {entries : List (MergeEntry F)} (keyed : schema.checkOrderingKey orderingKey = .ok ())
    (chunked : Chunked schema orderingKey (Store.closeHistory stamps) base out entries) :
    out.flatMap Segment.rows = entries.map MergeEntry.cells ∧
    out.flatMap Segment.births = entries.map MergeEntry.birth ∧
      out.flatMap (·.superseded.getD []) = entries.map (fun entry => (stamps.lookup entry.id).getD 0) ∧
      ∀ segment ∈ out, HistoryOk schema orderingKey segment := by
  induction chunked with
  | nil => simp
  | @cons base buffer chunk segment segments entries schema_eq key_eq rows filled inOrder
      closed later ih =>
    obtain ⟨cells, births, kills, ok⟩ := ih
    obtain ⟨own, ownBirths, ownKills⟩ :=
      closeHistory_closed closed (schema_eq ▸ Schema.fields_ne_nil keyed) rows inOrder
    rw [schema_eq, key_eq] at own
    refine ⟨?_, ?_, ?_, ?_⟩
    · rw [List.flatMap_cons, own.rows, cells, List.map_append]
    · rw [List.flatMap_cons, ownBirths, births, List.map_append]
    · rw [List.flatMap_cons, ownKills, kills, List.map_append]
      rfl
    · intro member inside
      rcases List.mem_cons.mp inside with rfl | rest
      · exact ⟨own.mapped keyed, own.schema, own.orderingKey, own.sequenceOk, own.inOrder, _,
          ownKills, by rw [List.length_map, own.count]⟩
      · exact ok member rest

theorem Store.merge_spec {merged : Store.Merged F} (pieces : Pieces s segments all)
    (keyed : s.schema.checkOrderingKey s.orderingKey = .ok ()) (positive : 0 < s.segmentRows)
    (done : s.merge (all.map s.viewOf) = .ok merged) : MergeOf s all merged := by
  have columns := Schema.fields_ne_nil keyed
  unfold Store.merge at done
  rw [mergeOrder_views, deadOrder_views] at done
  cases live : rebuild s.segmentRows
    (closeLive (diverging (s.knowledge.map (·.next)) (orderOf s all) (deadOf s all)))
      (orderOf s all) (WriteBuffer.empty s.schema s.orderingKey) [] 0 with
  | error e =>
    simp only [live] at done
    cases done
  | ok out =>
    cases dead : rebuild s.segmentRows (closeHistory s.tombstones) (deadOf s all)
        (WriteBuffer.empty s.schema s.orderingKey) [] 0 with
    | error e =>
      simp only [live, dead] at done
      cases done
    | ok history =>
      simp only [live, dead] at done
      obtain rfl := Except.ok.inj done
      have chunked := rebuild_chunked live rfl rfl rfl (WriteBuffer.empty_inOrder _ _)
      obtain ⟨covers, cells, births, ok, plain⟩ := chunked.live keyed
      obtain ⟨deadCells, deadBirths, kills, historyOk⟩ :=
        (rebuild_chunked dead rfl rfl rfl (WriteBuffer.empty_inOrder _ _)).history keyed
      rw [Nat.zero_add, List.nil_append] at covers
      have flat (same : diverging (s.knowledge.map (·.next)) (orderOf s all) (deadOf s all) = false) :
          s.knowledge = none ∧ (orderOf s all).length = s.rows ∧
            (orderOf s all).map MergeEntry.birth = List.range (orderOf s all).length := by
        have virtual : s.knowledge = none := by
          have recorded : (s.knowledge.map (·.next)).isSome = false := by
            simp only [diverging, Bool.or_eq_false_iff] at same
            exact same.1.1
          simpa using recorded
        exact ⟨virtual, (undiverged pieces.covers (pieces.virtual virtual) same).2⟩
      refine ⟨rfl, covers, cells, ?_, ok, chunked.valid, ?_, ?_, deadCells, deadBirths, kills,
        historyOk, ?_, ?_⟩
      · rw [births, List.nil_append]
        split
        · rfl
        · next same =>
          rw [(flat (by simpa using same)).2.2]
          simp
      · dsimp only
        split
        · cases known : s.knowledge <;> simp [watermark, known]
        · next same =>
          obtain ⟨virtual, count, -⟩ := flat (by simpa using same)
          simp [watermark, virtual, count]
      · intro none
        refine plain ?_
        simpa using none
      · intro none
        have same : diverging (s.knowledge.map (·.next)) (orderOf s all) (deadOf s all) =
          false := by simpa using none
        simp only [diverging, Bool.or_eq_false_iff] at same
        simpa using same.1.2
      · refine rebuild_sized (fun closed schema => ?_) live rfl positive
        exact closeLive_count closed (schema ▸ columns)

end TallyDB
