import TallyDB.StorageLite.Built
import TallyDB.StorageLite.Ops

/-!
# The knowledge axis

The virtual, contiguous and per-row states are three representations of one thing: a birth
for every buffered row and a watermark. Each operation is shown on that reading.
-/

namespace TallyDB

open Crash

variable {F : Type}

namespace Store

/-- The births of the buffered rows, whatever state represents them. -/
def bufferBirths (store : Store F) : List Nat :=
  match store.knowledge with
  | none => (List.range store.buffer.len).map (store.bufferBase + ·)
  | some knowledge => knowledge.births store.buffer.len

/-- The state represents one birth a buffered row, and a contiguous one ends at the watermark. -/
structure AxisOk (store : Store F) : Prop where
  counted : store.rows = store.bufferBase + store.buffer.len
  explicit : ∀ knowledge, store.knowledge = some knowledge → ∀ births,
    knowledge.explicit = some births → births.length = store.buffer.len
  contiguous : ∀ knowledge, store.knowledge = some knowledge → knowledge.explicit = none →
    knowledge.next = knowledge.bufferBase + store.buffer.len

def taken (store : Store F) (row : Row F) (valid : store.buffer.validate row = .ok ()) : Store F :=
  { store with
    buffer := store.buffer.push row valid
    knowledge := store.knowledge.map fun knowledge => { knowledge with
      explicit := knowledge.explicit.map (· ++ [knowledge.next])
      next := knowledge.next + 1 }
    rows := store.rows + 1 }

def takenAt (store : Store F) (row : Row F) (sequence : Nat)
    (valid : store.buffer.validate row = .ok ()) : Store F :=
  { store with
    buffer := store.buffer.push row valid
    knowledge := some { store.diverged store.rows with
      explicit := some ((store.diverged store.rows).births store.buffer.len ++ [sequence])
      next := max (store.diverged store.rows).next (sequence + 1) }
    rows := store.rows + 1 }

theorem append_eq_push {buffer : WriteBuffer F} {row : Row F} (valid : buffer.validate row = .ok ()) :
    buffer.append row = .ok (buffer.push row valid) := by
  unfold WriteBuffer.append
  split
  · next e refused => rw [valid] at refused; cases refused
  · rfl

theorem append_error {buffer : WriteBuffer F} {row : Row F} {e : StorageError}
    (refused : buffer.validate row = .error e) :
    buffer.append row = .error e := by
  unfold WriteBuffer.append
  split
  · next other same =>
    obtain rfl := Except.error.inj (same.symm.trans refused)
    rfl
  · next valid => cases refused.symm.trans valid

theorem append_ok {buffer filled : WriteBuffer F} {row : Row F}
    (appended : buffer.append row = .ok filled) :
    ∃ valid, filled = buffer.push row valid := by
  have valid : buffer.validate row = .ok () := by
    cases checked : buffer.validate row with
    | ok _ => rfl
    | error e =>
      rw [append_error checked] at appended
      cases appended
  rw [append_eq_push valid] at appended
  exact ⟨valid, (Except.ok.inj appended).symm⟩

theorem push_len {buffer : WriteBuffer F} {row : Row F} (valid : buffer.validate row = .ok ()) :
    (buffer.push row valid).len = buffer.len + 1 := by
  simp [WriteBuffer.push, WriteBuffer.len]

theorem isEmpty_iff {buffer : WriteBuffer F} : buffer.isEmpty = true ↔ buffer.rows = [] := by
  simp [WriteBuffer.isEmpty, WriteBuffer.len]

theorem births_length {store : Store F} (axis : store.AxisOk) {knowledge : Knowledge}
    (known : store.knowledge = some knowledge) : (knowledge.births store.buffer.len).length =
      store.buffer.len := by
  unfold Knowledge.births
  cases births : knowledge.explicit with
  | none => simp
  | some births' => exact axis.explicit _ known _ births

theorem bufferBirths_length {store : Store F} (axis : store.AxisOk) :
    store.bufferBirths.length = store.buffer.len := by
  unfold bufferBirths
  cases known : store.knowledge with
  | none => simp
  | some knowledge => exact births_length axis known

theorem diverged_births {store : Store F} (axis : store.AxisOk) :
    (store.diverged store.rows).births store.buffer.len = store.bufferBirths := by
  unfold diverged bufferBirths
  cases store.knowledge with
  | none =>
    have base : store.rows - store.buffer.len = store.bufferBase := by
      have counted := axis.counted
      omega
    simp [Knowledge.births, base]
  | some knowledge => rfl

theorem diverged_next (store : Store F) : (store.diverged store.rows).next = store.watermark := by
  unfold diverged watermark
  cases store.knowledge <;> rfl

/-! ### One ordinary row -/

section Taken

variable {store : Store F} {row : Row F} (valid : store.buffer.validate row = .ok ())

theorem taken_axis (axis : store.AxisOk) : (store.taken row valid).AxisOk := by
  refine ⟨?_, ?_, ?_⟩
  · have counted := axis.counted
    simp only [taken, push_len]
    omega
  · intro knowledge known births explicit
    cases before : store.knowledge with
    | none => simp [taken, before] at known
    | some old =>
      simp only [taken, before, Option.map_some, Option.some.injEq] at known
      subst known
      cases births' : old.explicit with
      | none => simp [births'] at explicit
      | some olds =>
        simp only [births', Option.map_some, Option.some.injEq] at explicit
        have same := axis.explicit _ before _ births'
        simp [← explicit, taken, push_len, same]
  · intro knowledge known contiguous
    cases before : store.knowledge with
    | none => simp [taken, before] at known
    | some old =>
      simp only [taken, before, Option.map_some, Option.some.injEq] at known
      subst known
      have same := axis.contiguous _ before (by simpa using contiguous)
      simp only [taken, push_len]
      omega

theorem taken_watermark : (store.taken row valid).watermark = store.watermark + 1 := by
  unfold taken watermark
  cases store.knowledge <;> rfl

theorem taken_births (axis : store.AxisOk) :
    (store.taken row valid).bufferBirths = store.bufferBirths ++ [store.watermark] := by
  unfold bufferBirths watermark
  cases before : store.knowledge with
  | none =>
    simp [taken, before, push_len, List.range_succ, axis.counted]
  | some old =>
    cases births : old.explicit with
    | none =>
      have ends := axis.contiguous _ before births
      simp [taken, before, push_len, Knowledge.births, births, List.range_succ, ends]
    | some olds => simp [taken, before, Knowledge.births, births]

end Taken

/-! ### One replacement -/

section TakenAt

variable {store : Store F} {row : Row F} {sequence : Nat} (valid : store.buffer.validate row = .ok ())

theorem takenAt_axis (axis : store.AxisOk) : (store.takenAt row sequence valid).AxisOk := by
  refine ⟨?_, ?_, ?_⟩
  · have counted := axis.counted
    simp only [takenAt, push_len]
    omega
  · intro knowledge known births explicit
    simp only [takenAt, Option.some.injEq] at known
    subst known
    simp only [Option.some.injEq] at explicit
    rw [← explicit, diverged_births axis]
    simp [takenAt, push_len, bufferBirths_length axis]
  · intro knowledge known contiguous
    simp only [takenAt, Option.some.injEq] at known
    subst known
    cases contiguous

theorem takenAt_watermark :
    (store.takenAt row sequence valid).watermark = max store.watermark (sequence + 1) := by
  simp only [takenAt, watermark, diverged_next]

theorem takenAt_births (axis : store.AxisOk) :
    (store.takenAt row sequence valid).bufferBirths = store.bufferBirths ++ [sequence] := by
  rw [← diverged_births axis]
  rfl

theorem takenAt_rows : (store.takenAt row sequence valid).buffer.rows =
      store.buffer.rows ++ [row] := rfl

end TakenAt

/-! ### A consumed coordinate -/

section Consume

variable {store : Store F}

theorem consume_axis (axis : store.AxisOk) : (store.consumeSequence store.rows).AxisOk := by
  refine ⟨axis.counted, ?_, ?_⟩
  · intro knowledge known births explicit
    simp only [consumeSequence, Option.some.injEq] at known
    subst known
    split at explicit
    · cases explicit
    · simp only [Option.some.injEq] at explicit
      rw [← explicit, diverged_births axis, bufferBirths_length axis]
      rfl
  · intro knowledge known contiguous
    simp only [consumeSequence, Option.some.injEq] at known
    subst known
    split at contiguous
    · next empty =>
      have none : store.buffer.len = 0 := by simpa [WriteBuffer.isEmpty] using empty
      simp [consumeSequence, empty, none]
    · cases contiguous

theorem consume_watermark (store : Store F) :
    (store.consumeSequence store.rows).watermark = store.watermark + 1 := by
  rw [← diverged_next store]
  simp only [consumeSequence, watermark]
  split <;> rfl

theorem consume_births (axis : store.AxisOk) :
    (store.consumeSequence store.rows).bufferBirths = store.bufferBirths := by
  simp only [consumeSequence, bufferBirths]
  split
  · next empty =>
    have none : store.buffer.len = 0 := by simpa [WriteBuffer.isEmpty] using empty
    have births := bufferBirths_length axis
    rw [none] at births
    simp only [bufferBirths] at births
    rw [List.length_eq_zero_iff.mp births]
    simp [Knowledge.births, none]
  · exact diverged_births axis

end Consume

/-! ### A flush -/

section Flushed

variable {store : Store F} {segment : Segment F}

theorem flushed_axis : (store.flushed segment).AxisOk := by
  refine ⟨rfl, ?_, ?_⟩
  · intro knowledge known births explicit
    cases before : store.knowledge with
    | none => simp [flushed, before] at known
    | some old =>
      simp only [flushed, before, Option.map_some, Option.some.injEq] at known
      subst known
      cases explicit
  · intro knowledge known contiguous
    cases before : store.knowledge with
    | none => simp [flushed, before] at known
    | some old =>
      simp only [flushed, before, Option.map_some, Option.some.injEq] at known
      subst known
      rfl

theorem flushed_watermark : (store.flushed segment).watermark = store.watermark := by
  unfold flushed watermark
  cases store.knowledge <;> rfl

theorem flushed_births : (store.flushed segment).bufferBirths = [] := by
  unfold flushed bufferBirths
  cases store.knowledge <;> rfl

end Flushed

end Store

/-! ### Births in segments -/

namespace Segment

def births (segment : Segment F) : List Nat := (List.range segment.numRows).map segment.sequenceAt

def SequenceOk (segment : Segment F) : Prop :=
  ∀ values, segment.sequence = .explicit values → values.length = segment.numRows

theorem births_length (segment : Segment F) : segment.births.length = segment.numRows := by
  simp [births]

theorem births_explicit {segment : Segment F} {values : List Nat}
    (explicit : segment.sequence = .explicit values) (covers : values.length = segment.numRows) :
    segment.births = values := by
  unfold births
  rw [← covers]
  refine List.ext_getElem (by simp) fun i bound _ => ?_
  have inside : i < values.length := by simpa using bound
  simp [sequenceAt, explicit, List.getD_eq_getElem?_getD, inside]

theorem births_lt_end {segment : Segment F} (sound : segment.SequenceOk) :
    ∀ birth ∈ segment.births, birth < segment.sequenceEnd := by
  intro birth member
  cases kind : segment.sequence with
  | rowIds =>
    simp only [births, sequenceAt, sequenceEnd, kind, List.mem_map, List.mem_range] at member ⊢
    omega
  | contiguous base =>
    simp only [births, sequenceAt, sequenceEnd, kind, List.mem_map, List.mem_range] at member ⊢
    omega
  | explicit values =>
    rw [births_explicit kind (sound _ kind)] at member
    cases largest : values.max? with
    | none => rw [List.max?_eq_none_iff.mp largest] at member; cases member
    | some top =>
      have bound := List.max?_eq_some_iff.mp largest
      have below := bound.2 birth member
      simp only [sequenceEnd, kind, largest, Option.elim_some]
      omega

end Segment

theorem Schema.fields_ne_nil {schema : Schema} {orderingKey : Nat}
    (keyed : schema.checkOrderingKey orderingKey = .ok ()) : schema.fields ≠ [] := by
  intro none
  simp [checkOrderingKey, none] at keyed

section Frozen

variable [F64 F] {store : Store F} {segment : Segment F}

/-- What a frozen buffer records. -/
structure FrozenFrom (store : Store F) (segment : Segment F) : Prop where
  base : segment.baseRowId = store.bufferBase
  count : segment.numRows = store.buffer.len
  rows : segment.rows = store.buffer.rows
  births : segment.births = store.bufferBirths
  sequenceOk : segment.SequenceOk
  schema : segment.batch.schema = store.buffer.schema
  orderingKey : segment.orderingKey = store.buffer.orderingKey
  virtual : segment.sequence = .rowIds ↔ store.knowledge = none
  mapped : store.buffer.schema.checkOrderingKey store.buffer.orderingKey = .ok () →
    segment.Mapped store.buffer.schema
  inOrder : store.buffer.InOrder → segment.InOrder

theorem Store.frozenBuffer_spec (frozen : store.frozenBuffer = .ok segment) (axis : store.AxisOk)
    (columns : store.buffer.schema.fields ≠ []) : FrozenFrom store segment := by
  unfold frozenBuffer at frozen
  cases plain : store.buffer.freezeAt store.bufferBase with
  | error e => rw [plain] at frozen; cases frozen
  | ok raw =>
    rw [plain] at frozen
    have count := WriteBuffer.freezeAt_numRows plain columns
    have rows := WriteBuffer.freezeAt_rows plain columns
    obtain ⟨base, sequence, -, schema, orderingKey, -⟩ := WriteBuffer.freezeAt_spec plain
    have mapped := fun accepted => WriteBuffer.freezeAt_mapped accepted plain
    have inOrder := WriteBuffer.freezeAt_inOrder plain rows
    cases known : store.knowledge with
    | none =>
      simp only [bufferSequence, known, Option.map_none] at frozen
      obtain rfl : raw = segment := Except.ok.inj frozen
      refine ⟨base, count, rows, ?_, ?_, schema, orderingKey, by
          simp [sequence, known], mapped, inOrder⟩
      · simp [Segment.births, Store.bufferBirths, known, count, Segment.sequenceAt, sequence, base]
      · intro values explicit
        rw [sequence] at explicit
        cases explicit
    | some knowledge =>
      cases explicit : knowledge.explicit with
      | none =>
        simp only [bufferSequence, known, Option.map_some, explicit] at frozen
        obtain rfl := Except.ok.inj frozen
        refine ⟨base, count, rows, ?_, ?_, schema, orderingKey, by
            simp [Segment.withSequence, known], fun accepted => (mapped accepted).attached _ _, inOrder⟩
        · have same : (raw.withSequence (.contiguous knowledge.bufferBase)).numRows =
            store.buffer.len := count
          simp only [Segment.births, Store.bufferBirths, known, same, Knowledge.births, explicit,
            Option.getD_none]
          rfl
        · intro values explicit
          cases explicit
      | some births =>
        simp only [bufferSequence, known, Option.map_some, explicit] at frozen
        obtain rfl := Except.ok.inj frozen
        have covers := axis.explicit _ known _ explicit
        have sound : (raw.withSequence (.explicit births)).SequenceOk := by
          intro values same
          obtain rfl := SequenceInfo.explicit.inj same
          exact covers.trans count.symm
        refine ⟨base, count, rows, ?_, sound, schema, orderingKey, by
            simp [Segment.withSequence, known], fun accepted => (mapped accepted).attached _ _, inOrder⟩
        rw [Segment.births_explicit rfl (sound _ rfl)]
        simp [Store.bufferBirths, known, Knowledge.births, explicit]

theorem Store.frozenBuffer_ok_iff (filled : store.buffer.rows ≠ []) :
    (∃ segment, store.frozenBuffer = .ok segment) ↔
    nullKey store.buffer.schema.fields store.buffer.rows = false := by
  rw [← @WriteBuffer.freezeAt_ok_iff F _ _ store.bufferBase filled, frozenBuffer]
  cases store.buffer.freezeAt store.bufferBase <;> simp [bind, Except.bind, pure, Except.pure]

/-- A freeze fails only at a key column of nulls. -/
theorem Store.frozenBuffer_error {e : StorageError} (refused : store.frozenBuffer = .error e) :
    ∃ column, e = .allNullKeyColumn column := by
  have finish {name : String} {builder : ColumnBuilder F} {e : StorageError}
      (failed : builder.finish name = .error e) : ∃ column, e = .allNullKeyColumn column := by
    cases builder with
    | key codes nulls dictionary =>
      simp only [ColumnBuilder.finish] at failed
      split at failed
      · exact ⟨name, (Except.error.inj failed).symm⟩
      · cases failed
    | _ => cases failed
  have all (fields : List Field) (builders : List (ColumnBuilder F))
      (failed : WriteBuffer.finishAll fields builders = .error e) : ∃ column,
        e = .allNullKeyColumn column := by
    induction fields generalizing builders with
    | nil => cases failed
    | cons field fields ih =>
      cases builders with
      | nil => cases failed
      | cons builder builders =>
        rw [WriteBuffer.finishAll] at failed
        cases first : builder.finish field.name with
        | error other =>
          rw [first] at failed
          exact Except.error.inj failed ▸ finish first
        | ok column =>
          cases others : WriteBuffer.finishAll fields builders with
          | error other =>
            rw [first, others] at failed
            exact Except.error.inj failed ▸ ih builders (by rw [others, Except.error.inj failed])
          | ok columns => rw [first, others] at failed; cases failed
  unfold frozenBuffer WriteBuffer.freezeAt at refused
  cases finished : WriteBuffer.finishAll store.buffer.schema.fields store.buffer.builders with
  | error other =>
    rw [finished] at refused
    have same : other = e := Except.error.inj refused
    exact all _ _ (same ▸ finished)
  | ok columns => rw [finished] at refused; cases refused

end Frozen

end TallyDB
