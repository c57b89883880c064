import TallyDB.Table.Literal
import TallyDB.Table.Refusal

/-!
# Literals written twice

A row that is inserted and then updated in one column, beside the row that is inserted with
the literal in that column: where the two statements leave the same table.
-/

namespace TallyDB

open Crash Chronicle

variable {F : Type} [F64Text F] {name : String} {registry : Registry F} {display : F → String}
  {show_ : Sql.Cell → String}
variable {s s' : Store F} {w : World F} {allow : World F → Call F → Outcome → Prop}
  {segments past : List (Segment F)}

namespace Table

/-- A statement that runs with no failing call. -/
def Ran (name : String) (registry : Registry F) (display : F → String) (s : Store F) (disk : Disk F)
    (parsed : Except QueryError (Statement F))
    (result : Except EngineError Nat) (s' : Store F) (disk' : Disk F) : Prop :=
  ∃ plan w rest, Program.Admits backend NoFailure (mutate name registry display parsed s)
    ⟨disk, []⟩ plan ∧
    Program.run backend (mutate name registry display parsed s) ⟨disk, []⟩ plan = .returned
      (result, s') w rest ∧ w.disk = disk'

theorem Ran.wp {disk disk' : Disk F} {parsed : Except QueryError (Statement F)}
    {result : Except EngineError Nat}
    {post : Except EngineError Nat → Store F → World F → Prop}
    (ran : Ran name registry display s disk parsed result s' disk')
    (rule : Fallible.wp backend NoFailure (fun _ => True) (mutate name registry display parsed) post
      s ⟨disk, []⟩) :
    ∃ w, w.disk = disk' ∧ post result s' w := by
  obtain ⟨plan, w, rest, admitted, ends, same⟩ := ran
  have holds := Program.wp_sound rule admitted
  rw [ends] at holds
  exact ⟨w, same, holds⟩

/-! ### The statements -/

def insertStatement (name : String) (columns : Option (List String)) (row : List Sql.Cell) :
    Except QueryError (Statement F) :=
  (row.mapM lowerInsertValue).map fun values => .insert ⟨name, columns, [values]⟩

def updateStatement (show_ : Sql.Cell → String) (name column : String) (literal : Sql.Cell)
    (predicate : Option (Predicate F)) :
    Except QueryError (Statement F) :=
  (lowerSetValue show_ column literal).map fun value => .update ⟨name, [⟨column, value⟩], predicate⟩

/-- An `INSERT` of one row is refused for its literals, or takes the row. -/
theorem wp_insertStatement {post : Except EngineError Nat → Store F → World F → Prop}
    {columns : Option (List String)} {row : List Sql.Cell}
    (sure : Sure allow) (steady : s.Steady w.disk segments past)
    (refused : ∀ e, (∃ e', insertedRow display s.schema columns row = .error e') → post (.error e) s w)
    (taken : ∀ order values cells result s' w' segments',
      insertedRow display s.schema columns row = .ok cells →
      TakesRow display s segments past order values cells result s' w'.disk segments' →
      post (result.map fun _ => 1) s' w') :
    Fallible.wp backend allow (fun _ => True)
      (mutate name registry display (insertStatement name columns row)) post s w := by
  unfold insertStatement
  cases lowered : row.mapM (lowerInsertValue (F := F)) with
  | error e => exact refused _ ⟨.query e, by rw [insertedRow, lowered]; rfl⟩
  | ok values =>
    simp only [Except.map, mutate, checkTable, Fallible.wp_bind]
    rw [if_neg (not_not.mpr rfl)]
    simp only [insert, Fallible.wp_bind, Fallible.wp_pure, Fallible.wp_read, Fallible.wp_ofExcept]
    cases ordered : insertOrder s.schema columns with
    | error e => exact refused _ ⟨e, by rw [insertedRow, lowered, ordered]; rfl⟩
    | ok order =>
      have own : insertedRow display s.schema columns row = (do
          let cells ← insertCells display s.schema order values
          (s.buffer.validate cells).mapError .storage
          return cells) := by
        have checks (cells : Row F) : s.buffer.validate cells = s.schema.validate cells := by
          rw [WriteBuffer.validate, steady.sound.bufferSchema]
        simp only [checks]
        rw [insertedRow, lowered, ordered]
        rfl
      simp only [Fallible.each, Fallible.wp_bind]
      refine wp_insertRow sure steady (fun e fails => refused e ?_)
        fun cells result s' w' segments' takes => ?_
      · rw [own]
        cases placed : insertCells display s.schema order values with
        | error e => exact ⟨e, rfl⟩
        | ok cells =>
          cases valid : s.buffer.validate cells with
          | error e => exact ⟨.storage e, by simp [bind, Except.bind, valid, Except.mapError]⟩
          | ok _ => exact absurd valid (fails cells placed)
      · have accepted : insertedRow display s.schema columns row = .ok cells := by
          rw [own, takes.placed]
          simp only [bind, Except.bind, takes.valid]
          rfl
        have ends := taken order values cells result s' w' segments' accepted takes
        cases result with
        | error e => exact ends
        | ok _ => exact ends

/-- The `WHERE` hits one row of a state alone, wherever a snapshot can be taken. -/
def Picks (registry : Registry F) (s : Store F) (disk : Disk F) (predicate : Option (Predicate F))
    (id : Nat) (cells : Row F) : Prop :=
  ∀ handles, s.snapshot = .ok handles → matchedOn registry s disk predicate = .ok [⟨id, cells⟩]

theorem snapshot_of_freezes (own : s.Buffers s s.buffer.rows)
    (freezes : s.schema.Freezes s.buffer.rows) : ∃ handles, s.snapshot = .ok handles := by
  unfold Store.snapshot
  simp only
  split
  · exact ⟨_, rfl⟩
  · next filled =>
    obtain ⟨segment, frozen⟩ := (Store.frozenBuffer_freezes own (by simpa using filled)).mpr freezes
    exact ⟨_, by rw [frozen]; rfl⟩

def keptFor (s : Store F) (id : Nat) : List (Row F) :=
  if s.persistent && decide (s.bufferBase ≤ id) then [] else s.buffer.rows

/-! ### The parts of an `UPDATE` of one row -/

section UpdateOne

variable {column : String} {literal : Sql.Cell} {value : SetValue F}
  {predicate : Option (Predicate F)} {id : Nat} {cells replaced : Row F}

/-- The row with the column overwritten, wherever that is valid. -/
theorem updatedRow_ok_iff {schema : Schema}
    (lowered : lowerSetValue (F := F) show_ column literal = .ok value) :
    updatedRow show_ schema column literal cells = .ok replaced ↔ ∃ assigned,
      assignedCells schema [⟨column, value⟩] = .ok assigned ∧
        schema.validate (overwrite assigned cells) = .ok () ∧ overwrite assigned cells = replaced := by
  rw [updatedRow, lowered]
  cases put : assignedCells schema [⟨column, value⟩] with
  | error e => simp [bind, Except.bind, Except.mapError, put]
  | ok assigned =>
    cases valid : schema.validate (overwrite assigned cells) <;>
      simp [bind, Except.bind, pure, Except.pure, Except.mapError, put, valid]

theorem corrections_picks {disk : Disk F} {assigned : List (Nat × RowValue F)}
    (own : s.Buffers s s.buffer.rows) (freezes : s.schema.Freezes s.buffer.rows)
    (picks : Picks registry s disk predicate id cells)
    (put : assignedCells s.schema [⟨column, value⟩] = .ok assigned) :
    corrections name registry s disk ⟨name, [⟨column, value⟩], predicate⟩ =
      .ok ([overwrite assigned cells], [id]) := by
  obtain ⟨handles, taken⟩ := snapshot_of_freezes own freezes
  rw [corrections, checkedCells, if_neg (not_not.mpr rfl), put, picks handles taken]
  rfl

/-- Where no call fails, one row is replaced by another if that one is valid and the flushes of the
supersession go through. -/
theorem wp_supersedeOne (sure : Sure allow) (steady : s.Steady w.disk segments past)
    (freezes : s.schema.Freezes s.buffer.rows) (newly : s.newlyDead [id] = [id])
    (inside : id < s.rows) :
    Fallible.wp backend allow (fun _ => True) (Store.supersede [replaced] [id])
      (fun result _ _ => (∃ count, result = .ok count) ↔ s.schema.validate replaced = .ok () ∧
        (s.unlogged = true ∨ s.segmentRows ≤ (keptFor s id ++ [replaced]).length →
          s.schema.Freezes (keptFor s id ++ [replaced]))) s w := by
  have kept : s.keptBuffer [id] = keptFor s id := by
    rw [Store.keptBuffer, newly]
    simp [keptFor]
  have checks : s.buffer.validate replaced = s.schema.validate replaced := by
    rw [WriteBuffer.validate, steady.sound.bufferSchema]
  refine Store.wp_supersedeSure sure steady freezes (by simp) (by simp) (by simpa using inside)
    (fun e refused => ?_) fun valid result s' w' ends => ?_
  · refine iff_of_false ?_ fun holds => ?_
    · rintro ⟨_, ok⟩
      cases ok
    · rw [Store.validateRows, checks, holds.1] at refused
      cases refused
  · have accepted := checks ▸ Store.validateRows_ok valid _ (List.mem_singleton_self _)
    rw [kept] at ends
    exact ends.ok_iff.trans ⟨fun freezes => ⟨accepted, freezes⟩, And.right⟩

end UpdateOne

/-- An `UPDATE` of one row ends well where its literal is taken, a snapshot can be taken, and the
flushes of its supersession go through. -/
theorem wp_updateStatement {column : String} {literal : Sql.Cell} {predicate : Option (Predicate F)}
    {id : Nat} {cells : Row F}
    (sure : Sure allow) (steady : s.Steady w.disk segments past)
    (picks : Picks registry s w.disk predicate id cells) :
    Fallible.wp backend allow (fun _ => True)
      (mutate name registry display (updateStatement show_ name column literal predicate))
      (fun result s' w' =>
        ((∃ count, result = .ok count) ↔ ∃ replaced,
        updatedRow show_ s.schema column literal cells = .ok replaced ∧
          s.schema.Freezes s.buffer.rows ∧
          (s.unlogged = true ∨ s.segmentRows ≤ (keptFor s id ++ [replaced]).length →
            s.schema.Freezes (keptFor s id ++ [replaced]))) ∧
        ∀ count, result = .ok count → ∃ replaced,
        updatedRow show_ s.schema column literal cells = .ok replaced ∧
          Replaces s w.disk [⟨id, cells⟩] [replaced] s' w'.disk ∧ ∃ segments' past',
          s'.Sound w'.disk segments' past') s w := by
  have fails {e : EngineError} {p : Row F → Prop} {q : Nat → Prop} (none : ∀ replaced, ¬ p replaced) :
      ((∃ count, (.error e : Except EngineError Nat) = .ok count) ↔ ∃ replaced, p replaced) ∧
        ∀ count, (.error e : Except EngineError Nat) = .ok count → q count := by
    refine ⟨iff_of_false ?_ ?_, fun count ok => by cases ok⟩
    · rintro ⟨_, ok⟩
      cases ok
    · rintro ⟨replaced, holds⟩
      exact none replaced holds
  unfold updateStatement
  cases lowered : lowerSetValue (F := F) show_ column literal with
  | error e =>
    refine fails fun replaced holds => ?_
    have ok := holds.1
    rw [updatedRow, lowered] at ok
    cases ok
  | ok value =>
    simp only [Except.map, mutate]
    have own := steady.sound.buffers
    have frozen {found : List (Row F) × List Nat}
        (made : corrections name registry s w.disk ⟨name, [⟨column, value⟩], predicate⟩ =
          .ok found) : s.schema.Freezes s.buffer.rows := freezes_of_corrections own made
    refine wp_update steady (fun e w' _ refused => ?_) (fun assigned w' _ put _ none => ?_)
      fun assigned hits w₁ quiet put selects filled made => ?_
    · refine fails fun replaced holds => ?_
      obtain ⟨assigned, put, -⟩ := (updatedRow_ok_iff lowered).mp holds.1
      cases (refused sure).symm.trans (corrections_picks own holds.2.1 picks put)
    · -- The row is picked, so some row is hit.
      cases none.symm.trans (corrections_picks own (frozen none) picks put)
    · have same := made.symm.trans (corrections_picks own (frozen made) picks put)
      obtain ⟨rows, ids⟩ := Prod.mk.inj (Except.ok.inj same)
      have onDisk : w₁.disk = w.disk := quiet.2
      have steady₁ : s.Steady w₁.disk segments past := onDisk ▸ steady
      have hit : s.Hits segments hits := steady.sound.segmentsOn ▸ selects.own
      have replaces : Fallible.wp backend allow (fun _ => True)
          (Store.supersede [overwrite assigned cells] (hits.map Match.id)) _ s w₁ :=
        wp_supersedeHits steady₁ hit (by simp)
      rw [ids] at replaces
      have newly : s.newlyDead [id] = [id] := by rw [← ids, hit.newlyDead]
      have inside : id < s.rows := (hit.alive id (by rw [ids]; exact List.mem_singleton_self id)).1
      rw [rows, ids]
      refine Fallible.wp_mono (Fallible.wp_and replaces
        (wp_supersedeOne sure steady₁ (frozen made) newly inside)) (fun result s' w' both => ?_)
        fun _ _ => trivial
      obtain ⟨lands, goes⟩ := both
      have exists_ : (∃ count, result.mapError EngineError.storage = .ok count) ↔ ∃ count,
          result = .ok count := by
        cases result <;> simp [Except.mapError]
      have wanted (replaced : Row F) : updatedRow show_ s.schema column literal cells = .ok replaced ↔
          _ := updatedRow_ok_iff lowered
      rw [exists_, goes]
      refine ⟨⟨fun holds => ?_, ?_⟩, fun count ok => ?_⟩
      · exact ⟨_, (wanted _).mpr ⟨assigned, put, holds.1, rfl⟩, frozen made, holds.2⟩
      · rintro ⟨replaced, ok, -, freezes⟩
        obtain ⟨_, put', valid, rfl⟩ := (wanted _).mp ok
        obtain rfl := Except.ok.inj (put.symm.trans put')
        exact ⟨valid, freezes⟩
      · obtain ⟨count', same⟩ := exists_.mp ⟨count, ok⟩
        obtain ⟨-, replaces, sound⟩ := lands count' same
        refine ⟨_, (wanted _).mpr ⟨assigned, put, (goes.mp ⟨count', same⟩).1, rfl⟩, ?_, sound⟩
        exact (onDisk ▸ replaces).recast ids

end Table

/-! ### Where the freezes go through -/

omit [F64Text F] in
theorem Schema.freezes_cons {schema : Schema} {row : Row F} {rows : List (Row F)} :
    schema.Freezes (rows ++ [row]) ↔ nullKey schema.fields (rows ++ [row]) = false :=
  or_iff_right (by simp)

omit [F64Text F] in
/-- A freeze reads of a cell only whether it is null. -/
theorem nullKey_set {fields : List Field} (rows : List (Row F)) (cells : Row F) (position : Nat)
    {first second : RowValue F}
    (same : first.isNull = second.isNull) :
    nullKey fields (rows ++ [cells.set position first]) = nullKey fields
      (rows ++ [cells.set position second]) := by
  have reads (column : Nat) : ((cells.set position first)[column]?).any RowValue.isNull =
      ((cells.set position second)[column]?).any RowValue.isNull := by
    rw [List.getElem?_set, List.getElem?_set]
    split
    · split
      · exact same
      · rfl
    · rfl
  unfold nullKey
  simp only [List.all_append, List.all_cons, List.all_nil, reads]

namespace Store

/-- The `INSERT` of a row meets no buffer that cannot be frozen. -/
def InsertFreezes (s : Store F) (cells : Row F) : Prop :=
  s.segmentRows ≤ s.buffer.rows.length + 1 → nullKey s.schema.fields (s.buffer.rows ++ [cells]) = false

/-- The `UPDATE` of a row that was inserted meets none. Its snapshot freezes the row itself, and
where the store has no log, or segments of one row, it flushes the replacement alone. -/
def UpdateFreezes (s : Store F) (cells replaced : Row F) : Prop :=
  nullKey s.schema.fields (s.buffer.rows ++ [cells]) = false ∧
    (s.unlogged = true ∨ s.segmentRows ≤ 1 → nullKey s.schema.fields [replaced] = false)

/-- After an `INSERT` that went through, an `UPDATE` meets no buffer that cannot be frozen under the
same condition. -/
theorem updateFreezes_iff {disk' : Disk F} {segments' past' : List (Segment F)}
    {cells replaced : Row F} {id : Nat}
    (buffers : s.Buffers s' (s.overflow (s.buffer.rows ++ [cells])))
    (sound : s'.Sound disk' segments' past') (last : s'.rows = id + 1)
    (inserts : s.InsertFreezes cells) :
    (s'.schema.Freezes s'.buffer.rows ∧
      (s'.unlogged = true ∨ s'.segmentRows ≤ (Table.keptFor s' id ++ [replaced]).length →
      s'.schema.Freezes (Table.keptFor s' id ++ [replaced]))) ↔ s.UpdateFreezes cells replaced := by
  have logs : s'.unlogged = s.unlogged := by rw [unlogged, unlogged, buffers.persistent, buffers.logs]
  have counted := sound.axis.counted
  have alone : s.schema.Freezes [replaced] ↔ nullKey s.schema.fields [replaced] = false :=
    or_iff_right (by simp)
  rw [logs, buffers.threshold, buffers.schema, UpdateFreezes]
  by_cases full : s.segmentRows ≤ (s.buffer.rows ++ [cells]).length
  · -- The buffer went out with the row.
    have empty : s'.buffer.rows = [] := by rw [buffers.rows, overflow, if_pos full]
    have kept : Table.keptFor s' id = [] := by simp [Table.keptFor, empty]
    have some := inserts (by simpa using full)
    rw [kept, empty, List.nil_append, alone]
    exact and_congr_left' (iff_of_true (.inl rfl) some)
  · have held : s'.buffer.rows = s.buffer.rows ++ [cells] := by rw [buffers.rows, overflow, if_neg full]
    rw [held, Schema.freezes_cons]
    refine and_congr_right fun some => ?_
    have several : ¬ s.segmentRows ≤ 1 := by
      simp only [List.length_append, List.length_singleton] at full
      omega
    have buffered : s'.bufferBase ≤ id := by
      rw [WriteBuffer.len, held, List.length_append, List.length_singleton] at counted
      omega
    by_cases persistent : s.persistent = true
    · have kept : Table.keptFor s' id = [] := by
        simp [Table.keptFor, buffers.persistent, persistent, buffered]
      rw [kept, List.nil_append, alone, List.length_singleton]
    · -- In memory, the replacement goes behind the row.
      have kept : Table.keptFor s' id = s.buffer.rows ++ [cells] := by
        simp [Table.keptFor, buffers.persistent, persistent, held]
      have memory : ¬ s.unlogged = true := by simp [unlogged, persistent]
      rw [kept]
      exact iff_of_true (fun _ => .inr (nullKey_append _ some)) fun other =>
        (other.elim memory several).elim

end Store

/-! ### The same table -/

/-- The last row has a cell that holds what was written. -/
def Literal.EndsIn (literal : Literal) (position : Nat) (rows : List (Row F)) : Prop :=
  ∃ row cell, rows.getLast? = some row ∧ row[position]? = some cell ∧ literal.Stored cell

/-- Two statements are refused together, leave the same rows, and store nothing but what was
written. -/
structure StoresSame (literal : Literal) (position : Nat) (inserted : Except EngineError Nat)
    (insertedRows : List (Row F))
    (updated : Except EngineError Nat) (updatedRows : List (Row F)) : Prop where
  refused : (∃ count, inserted = .ok count) ↔ ∃ count, updated = .ok count
  same : ∀ count count', inserted = .ok count → updated = .ok count' → insertedRows = updatedRows
  inserted : ∀ count, inserted = .ok count → literal.EndsIn position insertedRows
  updated : ∀ count, updated = .ok count → literal.EndsIn position updatedRows

/-- A literal that its column holds exactly meets the same freezes in both statements; of another
one both are refused. -/
structure Alike (s : Store F) (cells : Row F) (position : Nat) (literal : Literal) : Prop where
  held : ¬ literal.Inexact F (s.schema.fieldAt position) → literal.Fits (s.schema.fieldAt position) →
    (s.InsertFreezes (cells.set position literal.stand) ↔
      s.UpdateFreezes cells (cells.set position literal.stand))
  refused : literal.Inexact F (s.schema.fieldAt position) →
    ¬ s.UpdateFreezes cells (cells.set position literal.stand) ∧
      (literal.Short ∨ ¬ s.InsertFreezes (cells.set position literal.stand))

structure Writes (freezes : Row F → Prop) (rows : List (Row F))
    (wanted : Except EngineError (Row F)) (result : Except EngineError Nat)
    (left : List (Row F)) : Prop where
  ok_iff : (∃ count, result = .ok count) ↔ ∃ replaced, wanted = .ok replaced ∧ freezes replaced
  left : ∀ count, result = .ok count → ∃ replaced, wanted = .ok replaced ∧ left = rows ++ [replaced]

section Writes

variable {freezes : Row F → Prop} {rows left : List (Row F)} {wanted : Except EngineError (Row F)}
  {result : Except EngineError Nat}
variable {literal : Literal} {position : Nat} {cells : Row F} {cell : RowValue F}

omit [F64Text F] in
theorem Writes.refused (writes : Writes freezes rows wanted result left)
    (fails : ∃ e, wanted = .error e) : ¬ ∃ count, result = .ok count := by
  obtain ⟨e, rfl⟩ := fails
  rw [writes.ok_iff]
  rintro ⟨replaced, ok, -⟩
  cases ok

omit [F64Text F] in
theorem Writes.goes (writes : Writes freezes rows wanted result left)
    (ok : wanted = .ok (cells.set position cell)) :
    (∃ count, result = .ok count) ↔ freezes (cells.set position cell) := by
  rw [writes.ok_iff, ok]
  exact ⟨fun ⟨replaced, same, holds⟩ => Except.ok.inj same ▸ holds, fun holds => ⟨_, rfl, holds⟩⟩

theorem Writes.endsIn (writes : Writes freezes rows wanted result left)
    (inside : position < cells.length)
    (ok : wanted = .ok (cells.set position cell)) {count : Nat} (ends : result = .ok count) :
    literal.EndsIn position left ↔ literal.Stored cell := by
  obtain ⟨replaced, own, rfl⟩ := writes.left count ends
  obtain rfl := Except.ok.inj (own.symm.trans ok)
  unfold Literal.EndsIn
  simp [inside]

end Writes

/-- Two statements that are refused both leave the same. -/
theorem StoresSame.of_refused {literal : Literal} {position : Nat}
    {inserted updated : Except EngineError Nat} {insertedRows updatedRows : List (Row F)}
    (none : ¬∃ count, inserted = .ok count) (none' : ¬∃ count, updated = .ok count) :
    StoresSame literal position inserted insertedRows updated updatedRows :=
  ⟨iff_of_false none none', fun count _ ok => absurd ⟨count, ok⟩ none,
    fun count ok => absurd ⟨count, ok⟩ none, fun count ok => absurd ⟨count, ok⟩ none'⟩

/-- What two statements write is the same where the coercions of their literal agree and so do their
freezes. -/
theorem storesSame_iff {literal : Literal} {field : Field} {position : Nat} {cells : Row F}
    {rows insertedRows updatedRows : List (Row F)}
    {inserts updates : Row F → Prop} {insertedCell assignedCell : Except EngineError (RowValue F)}
    {wanted wanted' : Except EngineError (Row F)}
    {inserted updated : Except EngineError Nat}
    (coerced : literal.Coerced field insertedCell assignedCell) (inside : position < cells.length)
    (first : wanted.toOption = insertedCell.toOption.map (cells.set position))
    (second : wanted'.toOption = assignedCell.toOption.map (cells.set position))
    (writes : Writes inserts rows wanted inserted insertedRows)
    (writes' : Writes updates rows wanted' updated updatedRows)
    (nulls : ∀ cell other : RowValue F, cell.isNull = other.isNull →
      (inserts (cells.set position cell) ↔ inserts (cells.set position other)) ∧
      (updates (cells.set position cell) ↔ updates (cells.set position other))) :
    StoresSame literal position inserted insertedRows updated updatedRows ↔
      (¬ literal.Inexact F field → literal.Fits field →
        (inserts (cells.set position literal.stand) ↔ updates (cells.set position literal.stand))) ∧
        (literal.Inexact F field → ¬ updates (cells.set position literal.stand) ∧
          (literal.Short ∨ ¬ inserts (cells.set position literal.stand))) := by
  have kept {wanted : Except EngineError (Row F)} {own : Except EngineError (RowValue F)}
    (same : wanted.toOption = own.toOption.map (cells.set position))
      {cell : RowValue F} (ok : own = .ok cell) : wanted = .ok (cells.set position cell) := by
    rw [ok] at same
    exact except_of_toOption same
  have lost {wanted : Except EngineError (Row F)} {own : Except EngineError (RowValue F)}
    (same : wanted.toOption = own.toOption.map (cells.set position))
      (fails : ∃ e, own = .error e) : ∃ e, wanted = .error e := by
    obtain ⟨e, rfl⟩ := fails
    cases wanted with
    | error e => exact ⟨e, rfl⟩
    | ok row => cases same
  cases coerced with
  | stored cell fits exact_ null holds taken put =>
    have goes := writes.goes (kept first taken)
    have goes' := writes'.goes (kept second put)
    obtain ⟨one, two⟩ := nulls cell literal.stand null
    rw [one] at goes
    rw [two] at goes'
    simp only [exact_, fits, not_false_eq_true, forall_const, false_implies, and_true]
    refine ⟨fun stores => by rw [← goes, ← goes']; exact stores.refused,
      fun same => ⟨by rw [goes, goes']; exact same, ?_, ?_, ?_⟩⟩
    · intro count count' ok ok'
      obtain ⟨row, own, rfl⟩ := writes.left count ok
      obtain ⟨row', own', rfl⟩ := writes'.left count' ok'
      rw [Except.ok.inj (own.symm.trans (kept first taken)),
        Except.ok.inj (own'.symm.trans (kept second put))]
    · exact fun count ok => (writes.endsIn inside (kept first taken) ok).mpr holds
    · exact fun count ok => (writes'.endsIn inside (kept second put) ok).mpr holds
  | refused unfit exact_ fails fails' =>
    have none := writes.refused (lost first fails)
    have none' := writes'.refused (lost second fails')
    simp only [exact_, unfit, false_implies, implies_true, and_true, iff_true]
    exact .of_refused none none'
  | rounded cell short inexact null other fails put =>
    have none := writes.refused (lost first fails)
    have goes' := writes'.goes (kept second put)
    rw [(nulls cell literal.stand null).2] at goes'
    simp only [inexact, short, not_true_eq_false, false_implies, true_and, forall_const,
      true_or, and_true]
    rw [← goes']
    exact ⟨fun stores goes => none (stores.refused.mpr goes), fun none' => .of_refused none none'⟩
  | misread cell long inexact null other taken put =>
    have goes := writes.goes (kept first taken)
    have goes' := writes'.goes (kept second put)
    obtain ⟨one, two⟩ := nulls cell literal.stand null
    rw [one] at goes
    rw [two] at goes'
    simp only [inexact, long, not_true_eq_false, false_implies, true_and, forall_const, false_or]
    rw [← goes, ← goes']
    constructor
    · intro stores
      refine ⟨fun ⟨count, ok⟩ => ?_, fun ⟨count, ok⟩ => ?_⟩
      · exact other ((writes'.endsIn inside (kept second put) ok).mp (stores.updated count ok))
      · exact other ((writes.endsIn inside (kept first taken) ok).mp (stores.inserted count ok))
    · rintro ⟨none', none⟩
      exact .of_refused none none'

section Statements

variable {rules : Rules F} {schema : Schema} {orderingKey : Nat} {options : StoreOptions → Prop}
  {permits : World F → Call F → Outcome → Prop}
variable {disk disk' : Disk F} {columns : Option (List String)} {row : List Sql.Cell}
  {cells : Row F} {parsed : Except QueryError (Statement F)}

/-- An `INSERT` of one row, in any state that a run reaches. -/
theorem Table.Ran.inserts {result : Except EngineError Nat} (steady : s.Steady disk segments past)
    (ran : Table.Ran name registry display s disk (Table.insertStatement name columns row)
      result s' disk') :
    Writes s.InsertFreezes (s.liveRows disk) (insertedRow display s.schema columns row) result
      (s'.liveRows disk') ∧
      ∀ count, result = .ok count → ∃ cells segments' past',
      insertedRow display s.schema columns row = .ok cells ∧
        s.Buffers s' (s.overflow (s.buffer.rows ++ [cells])) ∧ s'.Steady disk' segments' past' ∧
        s'.latestFacts segments' = s.latestFacts segments ++ [Fact.bornAt s.watermark cells] := by
  have rule : Fallible.wp backend NoFailure (fun _ => True)
    (Table.mutate name registry display (Table.insertStatement name columns row))
      (fun result s' w =>
        Writes s.InsertFreezes (s.liveRows disk) (insertedRow display s.schema columns row) result
        (s'.liveRows w.disk) ∧
        ∀ count, result = .ok count → ∃ cells segments' past',
        insertedRow display s.schema columns row = .ok cells ∧
          s.Buffers s' (s.overflow (s.buffer.rows ++ [cells])) ∧ s'.Steady w.disk segments' past' ∧
          s'.latestFacts segments' = s.latestFacts segments ++ [Fact.bornAt s.watermark cells]) s
          ⟨disk, []⟩ := by
    refine Table.wp_insertStatement sure_noFailure steady ?_ ?_
    · rintro e ⟨e', refused⟩
      refine ⟨⟨iff_of_false (fun ⟨_, ok⟩ => by cases ok) ?_, fun count ok => by cases ok⟩,
        fun count ok => by cases ok⟩
      rintro ⟨replaced, ok, -⟩
      rw [refused] at ok
      cases ok
    · intro order values cells result s' w segments' accepted takes
      have ok_iff : (∃ count, (result.map fun _ => 1) = .ok count) ↔ result = .ok () := by
        cases result <;> simp [Except.map]
      have live : s'.liveRows w.disk = s.liveRows disk ++ [cells] := by
        rw [takes.steady.sound.liveRows_latest, steady.sound.liveRows_latest,
          takes.latest, living_append]
        rfl
      refine ⟨⟨?_, fun count ok => ⟨cells, accepted, live⟩⟩, fun count ok => ?_⟩
      · rw [ok_iff, takes.ok_iff, accepted, Schema.freezes_cons]
        exact ⟨fun freezes => ⟨cells, rfl, freezes⟩, fun ⟨own, same, freezes⟩ =>
          Except.ok.inj same ▸ freezes⟩
      · exact ⟨cells, segments', past, accepted, takes.buffers (ok_iff.mp ⟨count, ok⟩),
          takes.steady, takes.latest⟩
  obtain ⟨w, rfl, holds⟩ := ran.wp rule
  exact holds

/-- The `UPDATE` of the row that an `INSERT` put last. -/
theorem Table.Ran.updates {s₁ s₂ : Store F} {disk₁ disk₂ : Disk F}
    {segments₁ past₁ : List (Segment F)} {column : String} {literal : Sql.Cell}
    {predicate : Option (Predicate F)} {result : Except EngineError Nat}
    (sound : s.Sound disk segments past) (steady₁ : s₁.Steady disk₁ segments₁ past₁)
    (buffers : s.Buffers s₁ (s.overflow (s.buffer.rows ++ [cells])))
    (latest : s₁.latestFacts segments₁ = s.latestFacts segments ++ [Fact.bornAt s.watermark cells])
    (inserts : s.InsertFreezes cells)
    (picks : Table.Picks registry s₁ disk₁ predicate s.rows cells)
    (ran : Table.Ran name registry display s₁ disk₁
      (Table.updateStatement show_ name column literal predicate) result s₂ disk₂) :
    Writes (s.UpdateFreezes cells) (s.liveRows disk)
      (updatedRow show_ s.schema column literal cells) result (s₂.liveRows disk₂) := by
  obtain ⟨w, rfl, ok_iff, left⟩ := ran.wp (Table.wp_updateStatement sure_noFailure steady₁ picks)
  have last : s₁.rows = s.rows + 1 := by
    rw [← steady₁.sound.latest_length, ← sound.latest_length, latest, List.length_append,
      List.length_singleton]
  rw [buffers.schema] at ok_iff left
  constructor
  · rw [ok_iff]
    refine exists_congr fun replaced => and_congr_right fun _ => ?_
    rw [← Store.updateFreezes_iff buffers steady₁.sound last inserts, buffers.schema]
  · intro count ok
    obtain ⟨replaced, wanted, replaces, segments', past', sound₂⟩ := left count ok
    refine ⟨replaced, wanted, ?_⟩
    have facts := replaces.live
    rw [sound₂.liveRows_latest, sound.liveRows_latest, living, ← sound₂.segmentsOn]
    change (s₂.factsOn w.disk |>.filter (·.alive)).map (·.value) = _
    rw [facts, Store.factsOn, steady₁.sound.segmentsOn, latest, ← sound.latest_length]
    simp only [List.map_cons, List.map_nil]
    rw [survivors_last, List.map_append]
    rfl

end Statements

/-- In any state that a run reaches, with no failing call: inserting a row and updating one of its
columns by a literal is refused where inserting the row with that literal is, leaves the same rows,
and stores what was written, exactly where the two are alike. -/
theorem Reached.same_literals_iff [LawfulRounding F] [LawfulText F] {rules : Rules F}
    {schema : Schema} {orderingKey : Nat}
    {options : StoreOptions → Prop} {permits : World F → Call F → Outcome → Prop}
    {s s₁ s₂ s₃ : Store F} {disk disk₁ disk₂ disk₃ : Disk F}
    {columns : Option (List String)} {order : List Nat} {row : List Sql.Cell} {cells : Row F}
    {column : String} {position : Nat}
    {literal : Literal} {predicate : Option (Predicate F)} {inserted updated : Except EngineError Nat}
    (reached : Reached rules schema orderingKey options permits (.up s disk))
    (ordered : insertOrder s.schema columns = .ok order)
    (declared : columnPosition s.schema column = .ok position) (listed : position ∈ order)
    (accepted : insertedRow display s.schema columns row = .ok cells)
    (inserts : Table.Ran name registry display s disk (Table.insertStatement name columns row)
      (.ok 1) s₁ disk₁)
    (picks : Table.Picks registry s₁ disk₁ predicate s.rows cells)
    (updates : Table.Ran name registry display s₁ disk₁
      (Table.updateStatement show_ name column literal.cell predicate) updated s₂ disk₂)
    (replaces : Table.Ran name registry display s disk
      (Table.insertStatement name columns (replacedAt position literal.cell row order))
      inserted s₃ disk₃) :
    StoresSame literal position inserted (s₃.liveRows disk₃) updated (s₂.liveRows disk₂) ↔
    Alike s cells position literal := by
  obtain ⟨-, -, segments, past, steady, -⟩ := reached.upheld upholds_steady
  obtain ⟨written, lands⟩ := inserts.inserts steady
  obtain ⟨own, segments₁, past₁, same, buffers, steady₁, latest⟩ := lands 1 rfl
  obtain rfl := Except.ok.inj (accepted.symm.trans same)
  have taken : s.InsertFreezes cells := by
    obtain ⟨own, same, freezes⟩ := written.ok_iff.mp ⟨1, rfl⟩
    exact Except.ok.inj (accepted.symm.trans same) ▸ freezes
  have inside := columnPosition_lt declared
  obtain ⟨_, -, -, -, -, valid⟩ := insertedRow_ok ordered accepted
  have long : cells.length = s.schema.fields.length := by
    unfold Schema.validate at valid
    split at valid
    · cases valid
    · next same => exact not_not.mp same
  have both := storesSame_iff (literal.coerced (F := F)) (long ▸ inside)
    (insertedRow_replaced ordered accepted inside listed)
    (updatedRow_eq ordered accepted declared) (replaces.inserts steady).1
    (updates.updates steady.sound steady₁ buffers latest taken picks) fun cell other null => ?_
  · rw [both]
    exact ⟨fun parts => ⟨parts.1, parts.2⟩, fun alike => ⟨alike.held, alike.refused⟩⟩
  · unfold Store.InsertFreezes Store.UpdateFreezes
    have alone := @nullKey_set F s.schema.fields [] cells position _ _ null
    rw [nullKey_set s.buffer.rows cells position null]
    simp only [List.nil_append] at alone
    rw [alone]
    exact ⟨Iff.rfl, Iff.rfl⟩

/-! ### An integer between two doubles -/

def measured : Schema := ⟨[.new "at" .i64 false, .new "x" .f64 false]⟩

def fresh : Store UInt64 × Disk UInt64 := (openTable measured 0 ⟨some 4, none, .full⟩ .empty).get
      (by decide +kernel)

theorem fresh_reached : Reached Anything measured 0 (fun _ => True) (fun _ _ _ => True)
      (.up fresh.1 fresh.2) := by
  have made : openTable measured 0 ⟨some 4, none, .full⟩ .empty = some (fresh.1, fresh.2) := by
    rw [Prod.mk.eta, fresh, Option.some_get]
  exact .stored (.boot (.blank fun _ => rfl) (Boot.completes trivial (fun _ _ => trivial) made))

def performed (table : Store UInt64 × Disk UInt64) (parsed : Except QueryError (Statement UInt64)) :
    (Except EngineError Nat × Store UInt64) × World UInt64 :=
  Program.complete backend .ok (Table.mutate "t" noFunctions (fun _ => "") parsed table.1) ⟨table.2, []⟩

theorem performed_ran (table : Store UInt64 × Disk UInt64)
    (parsed : Except QueryError (Statement UInt64)) :
    Table.Ran "t" noFunctions (fun _ => "") table.1 table.2 parsed (performed table parsed).1.1
      (performed table parsed).1.2
      (performed table parsed).2.disk := by
  obtain ⟨plan, admitted, ran⟩ := @Program.run_complete _ _ _ _ _ backend NoFailure .ok
    (Table.mutate "t" noFunctions (fun _ => "") parsed table.1) ⟨table.2, []⟩ fun _ _ => .inl rfl
  exact ⟨plan, _, [], admitted, ran, rfl⟩

def halved : Store UInt64 × Disk UInt64 :=
  let done := performed fresh (Table.insertStatement "t" none [.number "1", .number "0.5"])
  (done.1.2, done.2.disk)

/-- The table that gets the row with the literal in `x`. -/
def asInserted (literal : Literal) : (Except EngineError Nat × Store UInt64) × World UInt64 :=
  performed fresh (Table.insertStatement "t" none
    (replacedAt 1 literal.cell [.number "1", .number "0.5"] [0, 1]))

/-- The table whose row gets the literal in `x`. -/
def asUpdated (literal : Literal) : (Except EngineError Nat × Store UInt64) × World UInt64 :=
  performed halved (Table.updateStatement (fun _ => "") "t" "x" literal.cell none)

theorem halved_ran : Table.Ran "t" noFunctions (fun _ => "") fresh.1 fresh.2
      (Table.insertStatement "t" none [.number "1", .number "0.5"]) (.ok 1)
    halved.1 halved.2 := by
  have ok : (performed fresh (Table.insertStatement "t" none [.number "1", .number "0.5"])).1.1 =
    .ok 1 := except_of_toOption (by decide +kernel)
  rw [← ok]
  exact performed_ran fresh _

theorem halved_picks : Table.Picks noFunctions halved.1 halved.2 none fresh.1.rows
      [.i64 1, .f64 0x3fe0000000000000] := by
  intro handles _
  refine except_of_toOption ?_
  have shown : (Table.matchedOn noFunctions halved.1 halved.2 none).toOption.map
    (·.map fun hit => (hit.id, hit.cells)) =
    some [(0, [.i64 1, .f64 0x3fe0000000000000])] := by decide +kernel
  obtain ⟨hits, ok, same⟩ := Option.map_eq_some_iff.mp shown
  rw [ok]
  match hits, same with
  | [⟨id, cells⟩], same =>
    simp only [List.map_cons, List.map_nil, List.cons.injEq, Prod.mk.injEq, and_true] at same
    have first : fresh.1.rows = 0 := by decide +kernel
    rw [same.1, same.2, first]

def minusSeven : Literal := .number true "7" (by decide)

/-- Both statements store `-7`. -/
theorem Reached.same_literals_seven :
    StoresSame minusSeven 1 (asInserted minusSeven).1.1
      ((asInserted minusSeven).1.2.liveRows (asInserted minusSeven).2.disk)
        (asUpdated minusSeven).1.1 ((asUpdated minusSeven).1.2.liveRows (asUpdated minusSeven).2.disk) ∧
      (asUpdated minusSeven).1.2.liveRows
      (asUpdated minusSeven).2.disk = [[.i64 1, .f64 0xc01c000000000000]] := by
  have ordered : insertOrder fresh.1.schema none = .ok [0, 1] := except_of_toOption (by decide +kernel)
  have declared : columnPosition fresh.1.schema "x" = .ok 1 := except_of_toOption (by decide +kernel)
  have accepted : insertedRow (fun _ : UInt64 => "") fresh.1.schema none
      [.number "1", .number "0.5"] = .ok [.i64 1, .f64 0x3fe0000000000000] :=
    except_of_toOption (by decide +kernel)
  refine ⟨(Reached.same_literals_iff fresh_reached ordered declared (by
      decide) accepted halved_ran halved_picks
    (performed_ran halved _) (performed_ran fresh _)).mpr ⟨fun _ _ => ?_, fun inexact => ?_⟩, by
    decide +kernel⟩
  · refine iff_of_true (fun full => ?_) ⟨by decide +kernel, fun other => ?_⟩
    · have room : ¬ fresh.1.segmentRows ≤ fresh.1.buffer.rows.length + 1 := by decide +kernel
      exact absurd full room
    · have neither : ¬ (fresh.1.unlogged = true ∨ fresh.1.segmentRows ≤ 1) := by decide +kernel
      exact absurd other neither
  · have whole : minusSeven.integer = some (-7) := by decide +kernel
    have held : F64.exact (0xc01c000000000000 : UInt64) = .finite ((-7 : ℤ) : ℚ) := by decide +kernel
    have none := inexact.2
    rw [whole] at none
    exact absurd ⟨_, held⟩ none

def odd : Literal := .number false "9007199254740993" (by decide)

/-- `INSERT` refuses the integer that `UPDATE` stores as its neighbour. -/
theorem update_rounds :
    ¬ ∀ (s s₁ s₂ s₃ : Store UInt64) (disk disk₁ disk₂ disk₃ : Disk UInt64) (row :
      List Sql.Cell) (order : List Nat) (cells : Row UInt64)
    (column : String) (position : Nat) (literal : Literal) (inserted updated : Except EngineError Nat),
    Reached Anything measured 0 (fun _ => True) (fun _ _ _ => True) (.up s disk) →
    insertOrder s.schema none = .ok order →
      columnPosition s.schema column = .ok position → position ∈ order →
      Table.Ran "t" noFunctions (fun _ => "") s disk (Table.insertStatement "t" none row)
        (.ok 1) s₁ disk₁ →
      insertedRow (fun _ : UInt64 => "") s.schema none row = .ok cells →
      Table.Picks noFunctions s₁ disk₁ none s.rows cells →
      Table.Ran "t" noFunctions (fun _ => "") s₁ disk₁
        (Table.updateStatement (fun _ => "") "t" column literal.cell none) updated s₂ disk₂ →
      Table.Ran "t" noFunctions (fun _ => "") s disk
        (Table.insertStatement "t" none (replacedAt position literal.cell row order))
        inserted s₃ disk₃ →
      StoresSame literal position inserted (s₃.liveRows disk₃) updated (s₂.liveRows disk₂) := by
  intro claim
  have same := claim fresh.1 halved.1 (asUpdated odd).1.2 (asInserted odd).1.2 fresh.2 halved.2
    (asUpdated odd).2.disk (asInserted odd).2.disk
    [.number "1", .number "0.5"] [0, 1] [.i64 1, .f64 0x3fe0000000000000] "x" 1 odd
      (asInserted odd).1.1 (asUpdated odd).1.1 fresh_reached
    (except_of_toOption (by decide +kernel)) (except_of_toOption (by decide +kernel))
      (by decide) halved_ran (except_of_toOption (by decide +kernel))
    halved_picks (performed_ran halved _) (performed_ran fresh _)
  have refused : (asInserted odd).1.1.toOption = none := by decide +kernel
  have stored : (asUpdated odd).1.1.toOption = some 1 := by decide +kernel
  obtain ⟨count, ok⟩ := same.refused.mpr ⟨1, except_of_toOption stored⟩
  rw [ok] at refused
  cases refused

end TallyDB
