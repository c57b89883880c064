import TallyDB.StorageLite.Mem

/-!
# Freezing loses nothing

`freezeAt_rows`: a frozen segment reads back exactly the buffered rows, null for null.
A freeze fails only where a key column holds nothing but nulls.
-/

namespace TallyDB

variable {F : Type}

namespace ColumnBuilder

def length : ColumnBuilder F → Nat
  | f64 values _ => values.length
  | i64 values _ => values.length
  | key codes _ _ => codes.length

/-- A builder holds one null flag a value, and every code it stored for a key is assigned. -/
def Sound : ColumnBuilder F → Prop
  | f64 values nulls => nulls.length = values.length
  | i64 values nulls => nulls.length = values.length
  | key codes nulls dictionary => nulls.length = codes.length ∧
      ∀ row < codes.length, nulls.getD row false = false →
        codes.getD row 0 < dictionary.values.length

/-- A builder of the column type whose cells it takes. -/
def HasType : ColumnBuilder F → ColumnType → Prop
  | f64 _ _, .f64 => True
  | i64 _ _, .i64 => True
  | key _ _ _, .key => True
  | _, _ => False

def cell [F64 F] (builder : ColumnBuilder F) (row : Nat) : RowValue F :=
  match builder with
  | f64 values nulls => bif nulls.getD row false then .null else .f64 (values.getD row F64.zero)
  | i64 values nulls => bif nulls.getD row false then .null else .i64 (values.getD row 0)
  | key codes nulls dictionary =>
    bif nulls.getD row false then .null else .key (dictionary.value (codes.getD row 0))

theorem start_hasType (columnType : ColumnType) :
    (start columnType : ColumnBuilder F).HasType columnType := by
  cases columnType <;> trivial

theorem start_sound (columnType : ColumnType) : (start columnType : ColumnBuilder F).Sound := by
  cases columnType <;> simp [start, Sound]

theorem start_length (columnType : ColumnType) : (start columnType : ColumnBuilder F).length = 0 := by
  cases columnType <;> rfl

theorem getD_append_self {α : Type} (xs : List α) (x fallback : α) :
    (xs ++ [x]).getD xs.length fallback = x := by
  simp [List.getD_eq_getElem?_getD]

theorem getD_append_lt {α : Type} {xs : List α} {x fallback : α} {row : Nat} (old : row < xs.length) :
    (xs ++ [x]).getD row fallback = xs.getD row fallback := by
  simp [List.getD_eq_getElem?_getD, List.getElem?_append_left old]

variable [F64 F] {builder : ColumnBuilder F} {value : RowValue F} {columnType : ColumnType}

theorem push_hasType (typed : builder.HasType columnType) (fits : value.hasType columnType) :
    (builder.push value).HasType columnType := by
  cases builder <;> cases columnType <;> cases value <;>
    first | exact typed.elim | exact (Bool.false_ne_true fits).elim | trivial

theorem push_length (typed : builder.HasType columnType) (fits : value.hasType columnType) :
    (builder.push value).length = builder.length + 1 := by
  cases builder <;> cases columnType <;> cases value <;>
    first | exact typed.elim | exact (Bool.false_ne_true fits).elim | simp [push, length]

theorem push_sound (sound : builder.Sound) (typed : builder.HasType columnType)
    (fits : value.hasType columnType) : (builder.push value).Sound := by
  cases builder with
  | f64 values nulls =>
    cases columnType <;> cases value <;>
      first
        | exact typed.elim
        | exact (Bool.false_ne_true fits).elim
        | (simp only [Sound, push, List.length_append, List.length_singleton] at sound ⊢; omega)
  | i64 values nulls =>
    cases columnType <;> cases value <;>
      first
        | exact typed.elim
        | exact (Bool.false_ne_true fits).elim
        | (simp only [Sound, push, List.length_append, List.length_singleton] at sound ⊢; omega)
  | key codes nulls dictionary =>
    obtain ⟨same, assigned⟩ := sound
    cases columnType <;> cases value <;>
      first | exact typed.elim | exact (Bool.false_ne_true fits).elim | skip
    · rename_i text
      refine ⟨by simp [same], fun row bound live => ?_⟩
      have grown := (dictionary.intern_prefix text).length_le
      rcases Nat.lt_or_ge row codes.length with old | new
      · rw [getD_append_lt old]
        rw [getD_append_lt (same ▸ old)] at live
        exact Nat.lt_of_lt_of_le (assigned row old live) grown
      · have last : row = codes.length := by
          simp only [List.length_append, List.length_singleton] at bound
          omega
        rw [last, getD_append_self]
        exact dictionary.intern_lt text
    · refine ⟨by simp [same], fun row bound live => ?_⟩
      rcases Nat.lt_or_ge row codes.length with old | new
      · rw [getD_append_lt old]
        rw [getD_append_lt (same ▸ old)] at live
        exact assigned row old live
      · have last : row = nulls.length := by
          simp only [List.length_append, List.length_singleton] at bound
          omega
        rw [last, getD_append_self] at live
        cases live

theorem push_cell_old (sound : builder.Sound) (typed : builder.HasType columnType)
    (fits : value.hasType columnType) {row : Nat} (old : row < builder.length) :
    (builder.push value).cell row = builder.cell row := by
  cases builder with
  | f64 values nulls =>
    have flag : row < nulls.length := sound ▸ old
    cases columnType <;> cases value <;>
      first | exact typed.elim | exact (Bool.false_ne_true fits).elim | simp only [push, cell,
        getD_append_lt flag, getD_append_lt (show row < values.length from old)]
  | i64 values nulls =>
    have flag : row < nulls.length := sound ▸ old
    cases columnType <;> cases value <;>
      first | exact typed.elim | exact (Bool.false_ne_true fits).elim | simp only [push, cell,
        getD_append_lt flag, getD_append_lt (show row < values.length from old)]
  | key codes nulls dictionary =>
    obtain ⟨same, assigned⟩ := sound
    have flag : row < nulls.length := same ▸ old
    cases columnType <;> cases value <;>
      first | exact typed.elim | exact (Bool.false_ne_true fits).elim | skip
    · rename_i text
      simp only [push, cell, getD_append_lt flag, getD_append_lt (show row < codes.length from old)]
      cases null : nulls.getD row false with
      | true => rfl
      | false =>
        exact congrArg RowValue.key
          (Dictionary.value_of_prefix (dictionary.intern_prefix text) (assigned row old null))
    · simp only [push, cell, getD_append_lt flag, getD_append_lt (show row < codes.length from old)]

theorem push_cell_new (sound : builder.Sound) (typed : builder.HasType columnType)
    (fits : value.hasType columnType) : (builder.push value).cell builder.length = value := by
  cases builder with
  | f64 values nulls =>
    have same : values.length = nulls.length := sound.symm
    cases columnType <;> cases value <;>
      first | exact typed.elim | exact (Bool.false_ne_true fits).elim | skip
    · simp only [push, cell, length]
      rw [same, getD_append_self, ← same, getD_append_self]
      rfl
    · simp only [push, cell, length]
      rw [same, getD_append_self]
      rfl
  | i64 values nulls =>
    have same : values.length = nulls.length := sound.symm
    cases columnType <;> cases value <;>
      first | exact typed.elim | exact (Bool.false_ne_true fits).elim | skip
    · simp only [push, cell, length]
      rw [same, getD_append_self, ← same, getD_append_self]
      rfl
    · simp only [push, cell, length]
      rw [same, getD_append_self]
      rfl
  | key codes nulls dictionary =>
    have same : codes.length = nulls.length := sound.1.symm
    cases columnType <;> cases value <;>
      first | exact typed.elim | exact (Bool.false_ne_true fits).elim | skip
    · rename_i text
      simp only [push, cell, length]
      rw [same, getD_append_self, ← same, getD_append_self]
      exact congrArg RowValue.key (dictionary.value_intern text)
    · simp only [push, cell, length]
      rw [same, getD_append_self]
      rfl

omit [F64 F] in
theorem validAt_validity {nulls : List Bool} {row : Nat} (bound : row < nulls.length) :
    Bitmap.validAt (validity nulls) row = !nulls.getD row false := by
  have flag : nulls.getD row false = nulls[row] := by
    simp [List.getD_eq_getElem?_getD, bound]
  unfold validity
  by_cases some : nulls.any id = true
  · rw [if_pos some, flag]
    simp [Bitmap.validAt, Bitmap.get, List.getD_eq_getElem?_getD, bound]
  · rw [if_neg some, flag]
    have none : ∀ flag ∈ nulls, flag = false := by simpa using some
    simp [Bitmap.validAt, none _ (List.getElem_mem bound)]

/-- A finished column reads back the cells of its builder. -/
theorem cellValue_finish {name : String} {column : Column F} {row : Nat} (sound : builder.Sound)
    (finished : builder.finish name = .ok column) (bound : row < builder.length) :
    cellValue column row = builder.cell row := by
  cases builder with
  | f64 values nulls =>
    obtain rfl := Except.ok.inj finished
    have same : nulls.length = values.length := sound
    have flag := validAt_validity (Nat.lt_of_lt_of_eq bound same.symm)
    simp only [cellValue, Column.isValid, Column.validity, flag, cell]
    cases nulls.getD row false <;> rfl
  | i64 values nulls =>
    obtain rfl := Except.ok.inj finished
    have same : nulls.length = values.length := sound
    have flag := validAt_validity (Nat.lt_of_lt_of_eq bound same.symm)
    simp only [cellValue, Column.isValid, Column.validity, flag, cell]
    cases nulls.getD row false <;> rfl
  | key codes nulls dictionary =>
    simp only [finish] at finished
    split at finished
    · cases finished
    · obtain rfl := Except.ok.inj finished
      have flag := validAt_validity (Nat.lt_of_lt_of_eq bound sound.1.symm)
      simp only [cellValue, Column.isValid, Column.validity, flag, cell]
      cases nulls.getD row false <;> rfl

omit [F64 F] in
theorem finish_length {name : String} {column : Column F}
    (finished : builder.finish name = .ok column) :
    column.length = builder.length := by
  cases builder with
  | key codes nulls dictionary =>
    simp only [finish] at finished
    split at finished
    · cases finished
    · obtain rfl := Except.ok.inj finished
      rfl
  | _ =>
    obtain rfl := Except.ok.inj finished
    rfl

/-- What a list of builders must satisfy for the rows they hold to be readable. -/
def Ready (count : Nat) (columnType : ColumnType) (builder : ColumnBuilder F) : Prop :=
  builder.HasType columnType ∧ builder.Sound ∧ builder.length = count

theorem push_ready {count : Nat} (ready : builder.Ready count columnType)
    (fits : value.hasType columnType) : (builder.push value).Ready (count + 1) columnType :=
  ⟨push_hasType ready.1 fits, push_sound ready.2.1 ready.1 fits, by
    rw [push_length ready.1 fits, ready.2.2]⟩

def rowOf (builders : List (ColumnBuilder F)) (row : Nat) : Row F := builders.map (·.cell row)

variable {types : List ColumnType} {builders : List (ColumnBuilder F)} {row : Row F} {count : Nat}

theorem pushRow_ready (ready : List.Forall₂ (Ready count) types builders)
    (fits : List.Forall₂ (fun columnType cell => cell.hasType columnType) types row) :
    List.Forall₂ (Ready (count + 1)) types (builders.zipWith push row) := by
  induction ready generalizing row with
  | nil => exact .nil
  | cons head _ ih =>
    cases fits with
    | cons fit fits => exact .cons (push_ready head fit) (ih fits)

theorem pushRow_old (ready : List.Forall₂ (Ready count) types builders)
    (fits : List.Forall₂ (fun columnType cell => cell.hasType columnType) types row) {at_ : Nat}
    (old : at_ < count) : rowOf (builders.zipWith push row) at_ = rowOf builders at_ := by
  induction ready generalizing row with
  | nil => rfl
  | cons head _ ih =>
    cases fits with
    | cons fit fits =>
      simp only [rowOf, List.zipWith_cons_cons, List.map_cons] at ih ⊢
      rw [ih fits, push_cell_old head.2.1 head.1 fit (head.2.2.symm ▸ old)]

theorem pushRow_new (ready : List.Forall₂ (Ready count) types builders)
    (fits : List.Forall₂ (fun columnType cell => cell.hasType columnType) types row) :
    rowOf (builders.zipWith push row) count = row := by
  induction ready generalizing row with
  | nil => cases fits; rfl
  | cons head _ ih =>
    cases fits with
    | cons fit fits =>
      simp only [rowOf, List.zipWith_cons_cons, List.map_cons] at ih ⊢
      rw [ih fits]
      exact congrArg (· :: _) (head.2.2 ▸ push_cell_new head.2.1 head.1 fit)

end ColumnBuilder

/-! ### The whole buffer -/

variable [F64 F]

/-- Builders fed a list of typed rows hold exactly those rows. -/
theorem foldl_push_rows {types : List ColumnType} {rows : List (Row F)}
    (typed : ∀ row ∈ rows,
      List.Forall₂ (fun columnType cell => RowValue.hasType cell columnType) types row) :
    List.Forall₂ (ColumnBuilder.Ready rows.length) types
        (rows.foldl (fun builders row => builders.zipWith .push row) (types.map .start)) ∧
      (List.range rows.length).map (ColumnBuilder.rowOf
        (rows.foldl (fun builders row => builders.zipWith .push row) (types.map .start))) = rows := by
  induction rows using List.reverseRecOn with
  | nil =>
    refine ⟨?_, rfl⟩
    induction types with
    | nil => exact .nil
    | cons columnType types ih =>
      exact .cons ⟨ColumnBuilder.start_hasType _, ColumnBuilder.start_sound _,
        ColumnBuilder.start_length _⟩
        (ih fun row member => absurd member List.not_mem_nil)
  | append_singleton rows row ih =>
    obtain ⟨ready, held⟩ := ih fun x member => typed x (List.mem_append_left _ member)
    have fits := typed row (List.mem_append_right _ (List.mem_singleton.mpr rfl))
    rw [List.foldl_append, List.foldl_cons, List.foldl_nil, List.length_append, List.length_singleton]
    refine ⟨ColumnBuilder.pushRow_ready ready fits, ?_⟩
    rw [List.range_succ, List.map_append, List.map_singleton, ColumnBuilder.pushRow_new ready fits]
    congr 1
    refine Eq.trans (List.map_congr_left fun i bound => ?_) held
    exact ColumnBuilder.pushRow_old ready fits (List.mem_range.mp bound)

namespace WriteBuffer

theorem finishAll_rows {count : Nat} {fields : List Field} {builders : List (ColumnBuilder F)}
    {columns : List (Column F)}
    (ready : List.Forall₂ (ColumnBuilder.Ready count) (fields.map Field.columnType) builders)
    (finished : finishAll fields builders = .ok columns) :
    (∀ column ∈ columns, column.length = count) ∧ columns.length = fields.length ∧
      ∀ row < count, columns.map (cellValue · row) = ColumnBuilder.rowOf builders row := by
  induction fields generalizing builders columns with
  | nil =>
    cases ready
    obtain rfl := Except.ok.inj finished
    exact ⟨by simp, rfl, fun _ _ => rfl⟩
  | cons field fields ih =>
    cases ready with
    | @cons _ builder _ builders head ready =>
      rw [finishAll] at finished
      cases first : builder.finish field.name with
      | error e => rw [first] at finished; cases finished
      | ok column =>
        cases others : finishAll fields builders with
        | error e => rw [first, others] at finished; cases finished
        | ok columns' =>
          rw [first, others] at finished
          obtain rfl := Except.ok.inj finished
          obtain ⟨lengths, same, reads⟩ := ih ready others
          refine ⟨?_, by simp [same], fun row bound => ?_⟩
          · rintro x (_ | ⟨_, member⟩)
            · exact (ColumnBuilder.finish_length first).trans head.2.2
            · exact lengths x member
          · simp only [ColumnBuilder.rowOf, List.map_cons] at reads ⊢
            rw [reads row bound, ColumnBuilder.cellValue_finish head.2.1 first (head.2.2.symm ▸ bound)]

variable {buffer : WriteBuffer F} {base : Nat} {segment : Segment F}

omit [F64 F] in
theorem rows_typed (buffer : WriteBuffer F) : ∀ row ∈ buffer.rows,
    List.Forall₂ (fun columnType cell => RowValue.hasType cell columnType)
      (buffer.schema.fields.map Field.columnType) row := fun row member => by
  have valid := Schema.validate_types (buffer.valid row member)
  exact List.forall₂_map_left_iff.mpr valid

theorem builders_eq (buffer : WriteBuffer F) : buffer.builders =
    buffer.rows.foldl (fun builders row => builders.zipWith .push row)
      ((buffer.schema.fields.map Field.columnType).map .start) := by
  simp [builders, List.map_map, Function.comp_def]

theorem freezeAt_spec (frozen : buffer.freezeAt base = .ok segment) :
    segment.baseRowId = base ∧ segment.sequence = .rowIds ∧ segment.superseded = none ∧
      segment.batch.schema = buffer.schema ∧ segment.orderingKey = buffer.orderingKey ∧
      segment.ordered = buffer.ordered ∧
      segment.zoneMaps = segment.batch.columns.map computeZoneMap ∧
      finishAll buffer.schema.fields buffer.builders = .ok segment.batch.columns := by
  unfold freezeAt at frozen
  cases finished : finishAll buffer.schema.fields buffer.builders with
  | error e => rw [finished] at frozen; cases frozen
  | ok columns =>
    rw [finished] at frozen
    obtain rfl := Except.ok.inj frozen
    exact ⟨rfl, rfl, rfl, rfl, rfl, rfl, rfl, rfl⟩

theorem freezeAt_numRows (frozen : buffer.freezeAt base = .ok segment)
    (columns : buffer.schema.fields ≠ []) : segment.numRows = buffer.len := by
  obtain ⟨-, -, -, -, -, -, -, finished⟩ := freezeAt_spec frozen
  rw [builders_eq] at finished
  obtain ⟨lengths, same, -⟩ := finishAll_rows (foldl_push_rows buffer.rows_typed).1 finished
  unfold Segment.numRows RecordBatch.numRows
  cases cols : segment.batch.columns with
  | nil =>
    rw [cols] at same
    exact absurd (List.length_eq_zero_iff.mp same.symm) columns
  | cons column rest => exact lengths column (cols ▸ List.mem_cons_self)

/-- A frozen segment reads back the buffered rows. -/
theorem freezeAt_rows (frozen : buffer.freezeAt base = .ok segment)
    (columns : buffer.schema.fields ≠ []) : segment.rows = buffer.rows := by
  have count := freezeAt_numRows frozen columns
  obtain ⟨-, -, -, -, -, -, -, finished⟩ := freezeAt_spec frozen
  rw [builders_eq] at finished
  obtain ⟨ready, held⟩ := foldl_push_rows buffer.rows_typed
  obtain ⟨-, -, reads⟩ := finishAll_rows ready finished
  unfold Segment.rows
  rw [count]
  exact Eq.trans (List.map_congr_left fun row bound => reads row (List.mem_range.mp bound)) held

end WriteBuffer

/-! ### What a freeze refuses -/

def RowValue.isNull : RowValue F → Bool
  | .null => true
  | _ => false

/-- Whether a key column is null in every one of the rows. -/
def nullKey (fields : List Field) (rows : List (Row F)) : Bool :=
  fields.zipIdx.any fun (field, column) =>
    field.columnType = .key && rows.all fun row => (row[column]?).any RowValue.isNull

/-- A key builder stays without dictionary as long as it takes nulls. -/
theorem ColumnBuilder.foldl_push_key {values : List (RowValue F)}
    (typed : ∀ value ∈ values, value.hasType .key)
    (codes : List Nat) (nulls : List Bool) (dictionary : Dictionary) :
    ∃ codes' nulls' dictionary', values.foldl ColumnBuilder.push (.key codes nulls dictionary) =
        .key codes' nulls' dictionary' ∧ codes'.length = codes.length + values.length ∧
      (dictionary'.isEmpty = true ↔ dictionary.isEmpty = true ∧ ∀ value ∈ values, value.isNull) := by
  induction values generalizing codes nulls dictionary with
  | nil => exact ⟨codes, nulls, dictionary, rfl, rfl, by simp⟩
  | cons value values ih =>
    have rest : ∀ value ∈ values, value.hasType .key :=
      fun value member => typed value (List.mem_cons_of_mem _ member)
    have fits := typed value List.mem_cons_self
    cases value with
    | key text =>
      obtain ⟨codes', nulls', dictionary', same, count, empty⟩ :=
        ih rest (codes ++ [(dictionary.intern text).1])
        (nulls ++ [false]) (dictionary.intern text).2
      refine ⟨codes', nulls', dictionary', same, by simp [count]; omega, ?_⟩
      have filled : (dictionary.intern text).2.isEmpty = false := by
        have bound := dictionary.intern_lt text
        unfold Dictionary.isEmpty
        rw [List.isEmpty_eq_false_iff]
        exact List.ne_nil_of_length_pos (Nat.zero_lt_of_lt bound)
      simp [empty, filled, RowValue.isNull]
    | null =>
      obtain ⟨codes', nulls', dictionary', same, count, empty⟩ :=
        ih rest (codes ++ [0]) (nulls ++ [true]) dictionary
      exact ⟨codes', nulls', dictionary', same, by simp [count]; omega, by
          simp [empty, RowValue.isNull]⟩
    | f64 value => cases fits
    | i64 value => cases fits

theorem ColumnBuilder.finish_key {values : List (RowValue F)}
    (typed : ∀ value ∈ values, value.hasType .key)
    (filled : values ≠ []) (name : String) :
    (∃ column, (values.foldl ColumnBuilder.push (.start .key)).finish name = .ok column) ↔
      ¬ ∀ value ∈ values, value.isNull := by
  obtain ⟨codes, nulls, dictionary, same, count, empty⟩ := foldl_push_key typed [] [] .empty
  have some : codes.isEmpty = false := by
    rw [List.isEmpty_eq_false_iff]
    refine List.ne_nil_of_length_pos ?_
    rw [count]
    exact Nat.lt_of_lt_of_le (List.length_pos_of_ne_nil filled) (Nat.le_add_left _ _)
  rw [ColumnBuilder.start, same, finish]
  rw [show Dictionary.empty.isEmpty = true from rfl] at empty
  simp only [some, Bool.not_false, Bool.and_true]
  split
  · next bare => simpa using fun value member => (empty.mp bare).2 value member
  · next full => exact ⟨fun _ all => full (empty.mpr ⟨rfl, all⟩), fun _ => ⟨_, rfl⟩⟩

omit [F64 F] in
theorem ColumnBuilder.finish_other {columnType : ColumnType} {builder : ColumnBuilder F}
    (typed : builder.HasType columnType)
    (other : columnType ≠ .key) (name : String) : ∃ column, builder.finish name = .ok column := by
  cases builder with
  | f64 values nulls => exact ⟨_, rfl⟩
  | i64 values nulls => exact ⟨_, rfl⟩
  | key codes nulls dictionary =>
    cases columnType with
    | key => exact absurd rfl other
    | _ => cases typed

theorem ColumnBuilder.foldl_push_hasType {columnType : ColumnType} {builder : ColumnBuilder F}
    {values : List (RowValue F)}
    (typed : builder.HasType columnType) (fits : ∀ value ∈ values, value.hasType columnType) :
    (values.foldl push builder).HasType columnType := by
  induction values generalizing builder with
  | nil => exact typed
  | cons value values ih =>
    exact ih (push_hasType typed (fits value List.mem_cons_self)) fun other member =>
      fits other (List.mem_cons_of_mem _ member)

theorem foldl_push_cons {rows : List (RowValue F × Row F)} (builder : ColumnBuilder F)
    (builders : List (ColumnBuilder F)) :
    (rows.map fun (cell, cells) => cell :: cells).foldl
    (fun builders row => builders.zipWith .push row) (builder :: builders) =
      (rows.map (·.1)).foldl .push builder ::
        (rows.map (·.2)).foldl (fun builders row => builders.zipWith .push row) builders := by
  induction rows generalizing builder builders with
  | nil => rfl
  | cons row rows ih =>
    simp only [List.map_cons, List.foldl_cons, List.zipWith_cons_cons]
    exact ih _ _

omit [F64 F] in
theorem nullKey_cons (field : Field) (fields : List Field) (rows : List (RowValue F × Row F)) :
    nullKey (field :: fields) (rows.map fun (cell, cells) => cell :: cells) =
      (decide (field.columnType = .key) && (rows.map (·.1)).all RowValue.isNull ||
        nullKey fields (rows.map (·.2))) := by
  unfold nullKey
  rw [List.zipIdx_cons, List.any_cons, List.zipIdx_succ, List.any_map]
  simp [List.all_map, Function.comp_def]

/-- A filled buffer's columns finish exactly where no key column is null throughout. -/
theorem finishAll_ok_iff {fields : List Field} {rows : List (Row F)} (filled : rows ≠ [])
    (typed : ∀ row ∈ rows, List.Forall₂ (fun columnType cell => RowValue.hasType cell columnType)
      (fields.map Field.columnType) row) :
    (∃ columns, WriteBuffer.finishAll fields
      (rows.foldl (fun builders row => builders.zipWith .push row)
      ((fields.map Field.columnType).map .start)) = .ok columns) ↔ nullKey fields rows = false := by
  induction fields generalizing rows with
  | nil => simp [WriteBuffer.finishAll, nullKey]
  | cons field fields ih =>
    obtain ⟨pairs, rfl⟩ : ∃ pairs : List (RowValue F × Row F), rows = pairs.map fun (cell, cells) =>
        cell :: cells := by
      refine ⟨rows.map fun row => (row.headD .null, row.tail), ?_⟩
      rw [List.map_map]
      refine (List.map_id _).symm.trans (List.map_congr_left fun row member => ?_)
      cases typed row member
      rfl
    have cells : ∀ value ∈ pairs.map (·.1), value.hasType field.columnType := by
      intro value member
      obtain ⟨pair, inside, rfl⟩ := List.mem_map.mp member
      cases typed _ (List.mem_map_of_mem inside) with
      | cons fit _ => exact fit
    have rest : ∀ row ∈ pairs.map (·.2),
      List.Forall₂ (fun columnType cell => RowValue.hasType cell columnType)
        (fields.map Field.columnType) row := by
      intro row member
      obtain ⟨pair, inside, rfl⟩ := List.mem_map.mp member
      cases typed _ (List.mem_map_of_mem inside) with
      | cons _ fits => exact fits
    have some : pairs ≠ [] := by simpa using filled
    have others := @ih (pairs.map (·.2)) (by simpa using some) rest
    have own : (∃ column,
      ((pairs.map (·.1)).foldl ColumnBuilder.push (.start field.columnType)).finish field.name =
        .ok column) ↔ ¬ (field.columnType = .key ∧ ∀ value ∈ pairs.map (·.1), value.isNull) := by
      by_cases key : field.columnType = .key
      · rw [key] at cells ⊢
        simpa using ColumnBuilder.finish_key cells (by simpa using some) field.name
      · have kept := ColumnBuilder.foldl_push_hasType
          (ColumnBuilder.start_hasType field.columnType) cells
        simpa [key] using ColumnBuilder.finish_other kept key field.name
    rw [List.map_cons, List.map_cons, foldl_push_cons, WriteBuffer.finishAll, nullKey_cons,
      Bool.or_eq_false_iff, ← others]
    have flag : (decide (field.columnType = .key) && (pairs.map (·.1)).all RowValue.isNull) = false ↔
        ¬ (field.columnType = .key ∧ ∀ value ∈ pairs.map (·.1), value.isNull) := by
      simp [← Bool.not_eq_true]
    rw [flag, ← own]
    cases first : ((pairs.map (·.1)).foldl ColumnBuilder.push (.start field.columnType)).finish
      field.name with
    | error e => simp [bind, Except.bind]
    | ok column =>
      cases WriteBuffer.finishAll fields
        ((pairs.map (·.2)).foldl (fun builders row => builders.zipWith .push row)
        ((fields.map Field.columnType).map .start)) <;> simp [bind, Except.bind, pure, Except.pure]

/-- A filled buffer freezes exactly where no key column is null throughout. -/
theorem WriteBuffer.freezeAt_ok_iff {buffer : WriteBuffer F} {base : Nat} (filled : buffer.rows ≠ []) :
    (∃ segment, buffer.freezeAt base = .ok segment) ↔
    nullKey buffer.schema.fields buffer.rows = false := by
  rw [← finishAll_ok_iff filled buffer.rows_typed, ← builders_eq, freezeAt]
  cases finishAll buffer.schema.fields buffer.builders <;> simp [bind, Except.bind, pure, Except.pure]

end TallyDB
