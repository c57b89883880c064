import TallyDB.StorageLite.RoundTrip

/-!
# What the write path seals

A frozen buffer's columns agree with their fields: a bitmap stands on a nullable column
only, and each code is in its dictionary's range, also the placeholder under a null.
-/

namespace TallyDB

variable {F : Type}

namespace ColumnBuilder

def nulls : ColumnBuilder F → List Bool
  | f64 _ nulls => nulls
  | i64 _ nulls => nulls
  | key _ nulls _ => nulls

/-- A builder that has taken cells which its field allows. -/
structure Fed (field : Field) (builder : ColumnBuilder F) : Prop where
  nullable : true ∈ builder.nulls → field.nullable = true
  assigned : ∀ codes nulls dictionary, builder = .key codes nulls dictionary →
    ∀ code ∈ codes, code = 0 ∨ code < dictionary.values.length

theorem start_fed (field : Field) : Fed field (start field.columnType : ColumnBuilder F) := by
  cases field.columnType with
  | key =>
    refine ⟨by simp [start, nulls], fun codes nulls dictionary same => ?_⟩
    cases same
    simp
  | f64 => exact ⟨by simp [start, nulls], by simp [start]⟩
  | i64 => exact ⟨by simp [start, nulls], by simp [start]⟩

variable [F64 F] {builder : ColumnBuilder F} {field : Field}

theorem push_nulls (cell : RowValue F) {flag : Bool} (member : flag ∈ (builder.push cell).nulls) :
    flag ∈ builder.nulls ∨ (flag = true → cell = .null) := by
  cases builder <;> cases cell <;> simp_all [push, nulls]

theorem push_fed {cell : RowValue F} (fed : builder.Fed field)
    (valid : validateCell field cell = .ok ()) :
    (builder.push cell).Fed field where
  nullable member := by
    rcases push_nulls cell member with old | null
    · exact fed.nullable old
    · rw [null rfl, validateCell] at valid
      split at valid
      · assumption
      · cases valid
  assigned := by
    cases builder with
    | f64 values nulls => cases cell <;> simp [push]
    | i64 values nulls => cases cell <;> simp [push]
    | key codes nulls dictionary =>
      have old := fed.assigned codes nulls dictionary rfl
      intro codes' nulls' dictionary' same code member
      cases cell with
      | key text =>
        cases same
        rcases List.mem_append.mp member with member | member
        · have grown := (dictionary.intern_prefix text).length_le
          exact (old code member).imp_right (Nat.lt_of_lt_of_le · grown)
        · rw [List.mem_singleton.mp member]
          exact .inr (dictionary.intern_lt text)
      | null =>
        cases same
        rcases List.mem_append.mp member with member | member
        · exact old code member
        · exact .inl (List.mem_singleton.mp member)
      | f64 value =>
        cases same
        exact old code member
      | i64 value =>
        cases same
        exact old code member

theorem pushRow_fed {fields : List Field} {builders : List (ColumnBuilder F)} {row : Row F}
    (fed : List.Forall₂ Fed fields builders)
    (valid : List.Forall₂ (fun field cell => validateCell field cell = .ok ()) fields row) :
    List.Forall₂ Fed fields (builders.zipWith push row) := by
  induction fed generalizing row with
  | nil => exact .nil
  | cons head _ ih =>
    cases valid with
    | cons first rest => exact .cons (push_fed head first) (ih rest)

omit [F64 F] in
theorem finish_binds {count : Nat} {name : String} {column : Column F}
    (ready : builder.Ready count field.columnType)
    (fed : builder.Fed field) (finished : builder.finish name = .ok column) :
    column.Binds count field := by
  obtain ⟨typed, sound, length⟩ := ready
  have flags {nulls : List Bool} {bits : Bitmap} (held : builder.nulls = nulls)
    (same : validity nulls = some bits) :
      bits.length = nulls.length ∧ field.nullable = true := by
    unfold validity at same
    split at same
    · next any =>
      cases same
      obtain ⟨flag, member, set⟩ := List.any_eq_true.mp any
      obtain rfl : flag = true := set
      exact ⟨List.length_map _, fed.nullable (held ▸ member)⟩
    · cases same
  cases builder with
  | f64 values nulls =>
    cases finished
    refine ⟨?_, length, fun bits same => ?_, by simp⟩
    · cases same : field.columnType <;> rw [same] at typed <;> first | rfl | exact typed.elim
    · obtain ⟨long, nullable⟩ := flags rfl same
      exact ⟨long.trans (sound.trans length), nullable⟩
  | i64 values nulls =>
    cases finished
    refine ⟨?_, length, fun bits same => ?_, by simp⟩
    · cases same : field.columnType <;> rw [same] at typed <;> first | rfl | exact typed.elim
    · obtain ⟨long, nullable⟩ := flags rfl same
      exact ⟨long.trans (sound.trans length), nullable⟩
  | key codes nulls dictionary =>
    have assigned := fed.assigned codes nulls dictionary rfl
    rw [finish] at finished
    split at finished
    · cases finished
    next full =>
      cases finished
      refine ⟨?_, length, fun bits same => ?_, fun codes' bits dictionary' same code member => ?_⟩
      · cases same : field.columnType <;> rw [same] at typed <;> first | rfl | exact typed.elim
      · obtain ⟨long, nullable⟩ := flags rfl same
        exact ⟨long.trans (sound.1.trans length), nullable⟩
      · cases same
        rcases assigned code member with rfl | inside
        · have some : codes ≠ [] := List.ne_nil_of_mem member
          simp only [Dictionary.isEmpty, Bool.and_eq_true, List.isEmpty_iff, Bool.not_eq_true',
            List.isEmpty_eq_false_iff] at full
          exact List.length_pos_of_ne_nil fun empty => full ⟨empty, some⟩
        · exact inside

end ColumnBuilder

/-! ### The whole buffer -/

theorem validateCells_valid {fields : List Field} {row : Row F} (same : row.length = fields.length)
    (valid : validateCells fields row = .ok ()) : List.Forall₂
      (fun field cell => validateCell field cell = .ok ()) fields row := by
  induction fields generalizing row with
  | nil =>
    obtain rfl := List.length_eq_zero_iff.mp same
    exact .nil
  | cons field fields ih =>
    cases row with
    | nil => cases same
    | cons cell cells =>
      cases head : validateCell field cell with
      | error e =>
        rw [validateCells, head] at valid
        cases valid
      | ok _ =>
        rw [validateCells, head] at valid
        exact .cons head (ih (Nat.succ.inj same) valid)

namespace WriteBuffer

theorem rows_valid (buffer : WriteBuffer F) (row : Row F) (member : row ∈ buffer.rows) :
    List.Forall₂ (fun field cell => validateCell field cell = .ok ()) buffer.schema.fields row := by
  have valid := buffer.valid row member
  unfold Schema.validate at valid
  split at valid
  · cases valid
  · next same => exact validateCells_valid (not_not.mp same) valid

variable [F64 F]

theorem builders_fed (buffer : WriteBuffer F) :
    List.Forall₂ ColumnBuilder.Fed buffer.schema.fields buffer.builders := by
  have all (rows : List (Row F))
    (valid : ∀ row ∈ rows, List.Forall₂ (fun field cell => validateCell field cell = .ok ())
      buffer.schema.fields row) : List.Forall₂ ColumnBuilder.Fed buffer.schema.fields
      (rows.foldl (fun builders row => builders.zipWith .push row)
        (buffer.schema.fields.map fun field => .start field.columnType)) := by
    induction rows using List.reverseRecOn with
    | nil =>
      refine List.forall₂_map_right_iff.mpr (List.forall₂_same.mpr fun field _ => ?_)
      exact ColumnBuilder.start_fed field
    | append_singleton rows row ih =>
      rw [List.foldl_append]
      exact ColumnBuilder.pushRow_fed
        (ih fun other member => valid other (List.mem_append_left _ member))
        (valid row (List.mem_append_right _ (List.mem_singleton.mpr rfl)))
  exact all buffer.rows buffer.rows_valid

omit [F64 F] in
theorem finishAll_binds {count : Nat} {fields : List Field} {builders : List (ColumnBuilder F)}
    {columns : List (Column F)}
    (ready : List.Forall₂ (ColumnBuilder.Ready count) (fields.map Field.columnType) builders)
    (fed : List.Forall₂ ColumnBuilder.Fed fields builders)
    (finished : finishAll fields builders = .ok columns) :
    List.Forall₂ (Column.Binds count) fields columns := by
  induction fields generalizing builders columns with
  | nil =>
    cases finished
    exact .nil
  | cons field fields ih =>
    cases ready with
    | @cons _ builder _ builders head ready =>
      cases fed with
      | cons first rest =>
        rw [finishAll] at finished
        cases one : builder.finish field.name with
        | error e => rw [one] at finished; cases finished
        | ok column =>
          cases others : finishAll fields builders with
          | error e => rw [one, others] at finished; cases finished
          | ok columns' =>
            rw [one, others] at finished
            obtain rfl := Except.ok.inj finished
            exact .cons (ColumnBuilder.finish_binds head first one) (ih ready rest others)

end WriteBuffer

/-! ### The segment -/

/-- A segment that the engine builds: a frozen buffer, with any births and kills attached to it, in
the bounds of its machine words. No dictionary is beyond what interning lets it grow to. -/
structure Segment.Built [F64Arith F] (segment : Segment F) : Prop where
  frozen : ∃ (buffer : WriteBuffer F) (base : Nat) (frozen : Segment F),
    buffer.schema.checkOrderingKey buffer.orderingKey = .ok () ∧ buffer.freezeAt base = .ok frozen ∧
      segment = { frozen with sequence := segment.sequence, superseded := segment.superseded }
  numbered : segment.Numbered
  interned : ∀ column ∈ segment.batch.columns, column.Interned
  /-- A buffer of the rows' keys fits memory. -/
  rows : segment.numRows * 8 < 2 ^ 63
  base : segment.baseRowId < 2 ^ 64
  file : (encodeSegment segment).length < 2 ^ 64

theorem Schema.checkOrderingKey_lt {schema : Schema} {orderingKey : Nat}
    (accepted : schema.checkOrderingKey orderingKey = .ok ()) :
    orderingKey < schema.fields.length := by
  unfold Schema.checkOrderingKey at accepted
  split at accepted
  · cases accepted
  · next some => exact (List.getElem?_eq_some_iff.mp some).1

theorem Schema.checkOrderingKey_axis {schema : Schema} {orderingKey : Nat}
    (accepted : schema.checkOrderingKey orderingKey = .ok ()) :
    ∃ field, schema.fields[orderingKey]? = some field ∧ field.columnType = .i64 ∧
    field.nullable = false := by
  unfold Schema.checkOrderingKey at accepted
  split at accepted
  · cases accepted
  next field found =>
  split at accepted
  · cases accepted
  next typed =>
  split at accepted
  · cases accepted
  next whole => exact ⟨field, found, not_not.mp typed, by simpa using whole⟩

theorem Segment.Built.toSealed [F64Arith F] {segment : Segment F} (built : segment.Built) :
    segment.Sealed := by
  obtain ⟨buffer, base, frozen, accepted, froze, same⟩ := built.frozen
  have keyed := Schema.checkOrderingKey_lt accepted
  have some : buffer.schema.fields ≠ [] := List.ne_nil_of_length_pos (Nat.zero_lt_of_lt keyed)
  have rows := WriteBuffer.freezeAt_numRows froze some
  obtain ⟨-, -, -, schema, key, -, maps, finished⟩ := WriteBuffer.freezeAt_spec froze
  have ready := (foldl_push_rows buffer.rows_typed).1
  rw [← WriteBuffer.builders_eq] at ready
  have binds := WriteBuffer.finishAll_binds ready buffer.builders_fed finished
  have batch : segment.batch = frozen.batch := by rw [same]
  have zones : segment.zoneMaps = frozen.zoneMaps := by rw [same]
  have ordering : segment.orderingKey = frozen.orderingKey := by rw [same]
  refine ⟨?_, ?_, ?_, built.numbered, built.interned, built.rows, built.base, built.file⟩
  · rw [Segment.numRows, batch, schema, show frozen.batch.numRows = _ from rows]
    exact binds
  · rw [batch, schema, ordering, key]
    exact keyed
  · rw [batch, ← maps, zones]

/-! ### What storage says of a segment -/

/-- A segment whose columns agree with the schema and whose zone maps are those of its columns. -/
structure Segment.Mapped [F64 F] (schema : Schema) (segment : Segment F) : Prop where
  under : segment.batch.schema = schema
  binds : List.Forall₂ (Column.Binds segment.numRows) schema.fields segment.batch.columns
  zoneMaps : segment.zoneMaps = segment.batch.columns.map computeZoneMap
  axis : ∃ field, schema.fields[segment.orderingKey]? = some field ∧ field.columnType = .i64 ∧
    field.nullable = false

/-- The flag of a segment tells the order of its rows. -/
def Segment.InOrder [F64 F] (segment : Segment F) : Prop :=
  segment.ordered = true → (segment.rows.map (orderingValue segment.orderingKey)).Pairwise (· ≤ ·)

/-- A segment whose rows are in the order that its flag says. -/
structure Segment.Stored [F64 F] (schema : Schema) (segment : Segment F) :
    Prop extends segment.Mapped schema where
  sorted : segment.ordered = true →
    (segment.rows.map (orderingValue segment.orderingKey)).Pairwise (· ≤ ·)

/-- Births and kills are attached to a segment without touching its columns. -/
theorem Segment.Mapped.attached [F64 F] {schema : Schema} {segment : Segment F}
    (mapped : segment.Mapped schema) (sequence : SequenceInfo)
    (superseded : Option (List Nat)) :
    ({ segment with sequence, superseded } : Segment F).Mapped schema :=
  ⟨mapped.under, mapped.binds, mapped.zoneMaps, mapped.axis⟩

namespace WriteBuffer

/-- A buffer whose rows are in the order that its flag says. -/
structure InOrder (buffer : WriteBuffer F) : Prop where
  sorted : buffer.ordered = true → (buffer.rows.map (orderingValue buffer.orderingKey)).Pairwise (· ≤ ·)
  last : buffer.lastOrderingValue = (buffer.rows.map (orderingValue buffer.orderingKey)).getLast?

theorem empty_inOrder (schema : Schema) (orderingKey : Nat) :
    (empty schema orderingKey : WriteBuffer F).InOrder where
  sorted _ := .nil
  last := rfl

theorem push_inOrder {buffer : WriteBuffer F} (inOrder : buffer.InOrder) (row : Row F)
    (valid : buffer.validate row = .ok ()) :
    (buffer.push row valid).InOrder where
  sorted ordered := by
    simp only [push] at ordered ⊢
    rw [inOrder.last] at ordered
    rw [List.map_append, List.map_singleton]
    cases rows : (buffer.rows.map (orderingValue buffer.orderingKey)).getLast? with
    | none =>
      rw [List.getLast?_eq_none_iff] at rows
      rw [rows]
      exact List.pairwise_singleton _ _
    | some last =>
      rw [rows] at ordered
      simp only at ordered
      split at ordered
      · cases ordered
      next above =>
      have sorted := inOrder.sorted ordered
      refine List.pairwise_append.mpr ⟨sorted, List.pairwise_singleton _ _,
        fun value member other added => ?_⟩
      rw [List.mem_singleton.mp added]
      obtain ⟨front, parts⟩ := List.getLast?_eq_some_iff.mp rows
      rw [parts] at member sorted
      have below : value ≤ last := by
        rcases List.mem_append.mp member with old | new
        · exact (List.pairwise_append.mp sorted).2.2 value old last (List.mem_singleton_self _)
        · exact Int64.le_of_eq (List.mem_singleton.mp new)
      exact Int64.le_trans below (Int64.not_lt.mp above)
  last := by simp [push]

theorem freezeAt_mapped [F64 F] {buffer : WriteBuffer F} {base : Nat} {segment : Segment F}
    (accepted : buffer.schema.checkOrderingKey buffer.orderingKey = .ok ())
    (froze : buffer.freezeAt base = .ok segment) :
    segment.Mapped buffer.schema := by
  have rows := freezeAt_numRows froze
    (List.ne_nil_of_length_pos (Nat.zero_lt_of_lt (Schema.checkOrderingKey_lt accepted)))
  obtain ⟨-, -, -, schema, key, -, maps, finished⟩ := freezeAt_spec froze
  have ready := (foldl_push_rows buffer.rows_typed).1
  rw [← builders_eq] at ready
  refine ⟨schema, rows ▸ finishAll_binds ready buffer.builders_fed finished, maps, ?_⟩
  rw [key]
  exact Schema.checkOrderingKey_axis accepted

theorem freezeAt_inOrder [F64 F] {buffer : WriteBuffer F} {base : Nat} {segment : Segment F}
    (froze : buffer.freezeAt base = .ok segment)
    (read : segment.rows = buffer.rows) (inOrder : buffer.InOrder) : segment.InOrder := by
  obtain ⟨-, -, -, -, key, ordered, -⟩ := freezeAt_spec froze
  intro flag
  rw [read, key]
  exact inOrder.sorted (ordered ▸ flag)

end WriteBuffer

end TallyDB
