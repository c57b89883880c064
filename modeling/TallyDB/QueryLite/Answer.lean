import TallyDB.Logic.Grouped
import TallyDB.QueryLite.Evaluate
import TallyDB.QueryLite.Frames

/-!
# The rows of a grouped answer

A grouping reads rows and nothing else: which segments hold them, under which codes and
behind which masks leaves no trace in the answer. Each group is told by its texts and
buckets, and its aggregates are folds of its own rows.
-/

namespace TallyDB

variable {F : Type}

/-! ### A grouping of rows -/

/-- What a term tells a row by. -/
def GroupTerm.markOf (row : Row F) : GroupTerm → Mark
  | label index => .text (row.getD index .null).text
  | bucket index divide multiply => .word (bucketValue divide multiply (orderingValue index row))

def Mark.cell : Mark → RowValue F
  | .text none => .null
  | .text (some value) => .key value
  | .word value => .i64 value

def AggCell.cell : AggCell F → RowValue F
  | .i64 value => value.elim .null .i64
  | .f64 value => value.elim .null .f64

def argumentCell (schema : Schema) (row : Row F) : Option Nat → Except QueryError
      (Option (CellNumber F))
  | none => .ok none
  | some index =>
    if (schema.fields[index]?).map Field.columnType = some .key then
      .error (.typeError "aggregates take numeric arguments; keys are labels")
    else match row.getD index .null with
      | .f64 value => .ok (some (.f64 value))
      | .i64 value => .ok (some (.i64 value))
      | _ => .ok none

section Answer

variable [F64Math F]

def absorb (schema : Schema) (row : Row F) (clock : Int64) :
    List (Option Nat) → List (Accumulator F) → Except QueryError (List (Accumulator F))
  | argument :: arguments, accumulator :: accumulators => do
    let cell ← argumentCell schema row argument
    let accumulator ← accumulator.update clock cell
    let accumulators ← absorb schema row clock arguments accumulators
    .ok (accumulator :: accumulators)
  | _, accumulators => .ok accumulators

/-- A row's group and what the row does to it. -/
def GroupPlan.keyed (plan : GroupPlan F) (schema : Schema) (row : Row F) :
    List Mark × (List (Accumulator F) → Except QueryError (List (Accumulator F))) :=
  (plan.terms.map (·.markOf row),
    absorb schema row (plan.orderingKey.elim 0 fun index => orderingValue index row) plan.arguments)

/-- The groups that are there before any row. -/
def GroupPlan.known (plan : GroupPlan F) : List (List Mark) := if plan.terms.isEmpty then [[]] else []

def GroupPlan.fold (plan : GroupPlan F) (schema : Schema) (rows : List (Row F)) : Except QueryError
      (List (List Mark × List (Accumulator F))) :=
  GroupBy.groupsOf plan.known plan.template (rows.map (plan.keyed schema))

omit [F64Math F] in
/-- A group's row in the order of the SELECT list; `call` counts the aggregates before. -/
def answerCells (keys : List GroupKey) (marks : List Mark) (cells : List (AggCell F)) :
    List AggItem → Nat → Row F
  | [], _ => []
  | .key key _ :: rest, call =>
      (marks.getD (keys.idxOf key) (.text none)).cell :: answerCells keys marks cells rest call
  | .call _ :: rest, call =>
      (cells.getD call (.f64 none)).cell :: answerCells keys marks cells rest (call + 1)

def answer (schema : Schema) (orderingKey : Option Nat) (keys : List GroupKey)
    (items : List AggItem) (rows : List (Row F)) :
    Except QueryError (List (Row F)) := do
  let plan ← groupPlan schema [] orderingKey keys items
  let groups ← plan.fold schema rows
  .ok (groups.map fun group => answerCells keys group.1 (group.2.map Accumulator.cell) items 0)

end Answer

/-! ### Cells -/

section Cells

variable [F64 F] {schema : Schema} {view : SegmentView F} {row : Nat}

theorem text_cellValue (column : Column F)
    (row : Nat) : (cellValue column row).text = column.valueAt row := by
  cases column with
  | f64 values validity =>
    rw [cellValue_f64]
    split <;> rfl
  | i64 values validity =>
    rw [cellValue_i64]
    split <;> rfl
  | key codes validity dictionary =>
    rw [cellValue_key, Column.valueAt]
    split <;> rfl

theorem Segment.row_getD {segment : Segment F} {index : Nat}
    (inside : index < segment.batch.columns.length) (row : Nat) :
    (segment.row row).getD index .null = cellValue (segment.batch.column index) row := by
  rw [Segment.row, RecordBatch.column, List.getD_eq_getElem _ _ (by simpa using inside),
    List.getD_eq_getElem _ _ inside, List.getElem_map]

theorem Segment.row_text (segment : Segment F) (row index : Nat) :
    ((segment.row row).getD index .null).text = (segment.batch.column index).valueAt row := by
  by_cases inside : index < segment.batch.columns.length
  · rw [Segment.row_getD inside, text_cellValue]
  · rw [Segment.row, RecordBatch.column, List.getD_eq_default _ _ (by simpa using inside),
      List.getD_eq_default _ _ (by omega)]
    rfl

/-- The clock of a row is its ordering value, where the axis holds no null. -/
theorem SegmentView.Readable.clock (readable : view.Readable schema) {index : Nat} {field : Field}
    (declared : schema.fields[index]? = some field)
    (typed : field.columnType = .i64) (whole : field.nullable = false) (row : Nat) :
    (orderingClocks (view.segment.batch.column index)).getD row 0 = orderingValue index
    (view.segment.row row) := by
  have binds := readable.column declared
  have inside : index < view.segment.batch.columns.length := by
    rw [← readable.binds.length_eq]
    exact (List.getElem?_eq_some_iff.mp declared).1
  have here : (view.segment.row row)[index]? =
      some (cellValue (view.segment.batch.column index) row) := by
    rw [Segment.row, List.getElem?_map, List.getElem?_eq_getElem inside, RecordBatch.column,
      List.getD_eq_getElem _ _ inside]
    rfl
  have kind := binds.typed.trans typed
  have nulls := binds.validity
  unfold orderingValue
  rw [here]
  cases column : view.segment.batch.column index with
  | i64 values validity =>
    rw [column] at nulls
    have valid : validity = none := by
      cases validity with
      | none => rfl
      | some bits => exact absurd (nulls bits rfl).2 (by simp [whole])
    subst valid
    rw [cellValue_i64]
    rfl
  | f64 values validity => rw [column] at kind; cases kind
  | key codes validity dictionary => rw [column] at kind; cases kind

theorem SegmentView.Readable.argument (readable : view.Readable schema) (argument : Option Nat)
    (inside : ∀ index ∈ argument, index < schema.fields.length) (row : Nat) :
    callCell view.segment.batch row argument = argumentCell schema (view.segment.row row) argument := by
  cases argument with
  | none => rfl
  | some index =>
    have declared := List.getElem?_eq_getElem (inside index rfl)
    have kind := (readable.column declared).typed
    have place : index < view.segment.batch.columns.length :=
      readable.binds.length_eq ▸ inside index rfl
    simp only [callCell, argumentCell, declared, Option.map_some, ← kind, Segment.row_getD place]
    cases column : view.segment.batch.column index with
    | f64 values validity =>
      simp only [cellValue_f64, Column.columnType]
      cases Bitmap.validAt validity row <;> rfl
    | i64 values validity =>
      simp only [cellValue_i64, Column.columnType]
      cases Bitmap.validAt validity row <;> rfl
    | key codes validity dictionary => rfl

end Cells

/-! ### The rows that a grouping folds in -/

section Rows

variable [F64Math F] {schema : Schema} {orderingKey : Nat} {plan : GroupPlan F}
  {views : List (SegmentView F)}

def Schema.Axis (schema : Schema) (orderingKey : Nat) : Prop :=
  ∃ field, schema.fields[orderingKey]? = some field ∧ field.columnType = .i64 ∧ field.nullable = false

omit [F64Math F] in
structure GroupPlan.Fits (schema : Schema) (orderingKey : Nat) (plan : GroupPlan F) : Prop where
  axis : schema.Axis orderingKey
  clock : plan.orderingKey = some orderingKey
  buckets : ∀ index divide multiply, .bucket index divide multiply ∈ plan.terms → index = orderingKey
  arguments : ∀ argument ∈ plan.arguments, ∀ index ∈ argument, index < schema.fields.length

theorem updateAll_absorb {view : SegmentView F} (readable : view.Readable schema) (row : Nat)
    (clock : Int64) {arguments : List (Option Nat)}
    (inside : ∀ argument ∈ arguments, ∀ index ∈ argument, index < schema.fields.length)
    (accumulators : List (Accumulator F)) :
    updateAll view.segment.batch row clock arguments accumulators = absorb schema
      (view.segment.row row) clock arguments accumulators := by
  induction arguments generalizing accumulators with
  | nil => rfl
  | cons argument arguments ih =>
    cases accumulators with
    | nil => rfl
    | cons accumulator accumulators =>
      have later := ih fun other member => inside other (List.mem_cons_of_mem _ member)
      rw [updateAll, absorb, readable.argument argument (inside argument List.mem_cons_self)]
      simp only [later]

theorem GroupPlan.Fits.marks (fits : plan.Fits schema orderingKey) {view : SegmentView F}
    (readable : view.Readable schema) (row : Nat) :
    plan.terms.map (GroupTerm.mark view.segment.batch row) = plan.terms.map
      (·.markOf (view.segment.row row)) := by
  obtain ⟨field, declared, typed, whole⟩ := fits.axis
  refine List.map_congr_left fun term member => ?_
  cases term with
  | label index => rw [GroupTerm.mark, GroupTerm.markOf, Segment.row_text]
  | bucket index divide multiply =>
    obtain rfl := fits.buckets index divide multiply member
    rw [GroupTerm.mark, GroupTerm.markOf, readable.clock declared typed whole]

theorem GroupPlan.Fits.update (fits : plan.Fits schema orderingKey) {view : SegmentView F}
    (readable : view.Readable schema) (row : Nat) :
    updateAll view.segment.batch row (plan.clock view.segment.batch row) plan.arguments =
      (plan.keyed schema (view.segment.row row)).2 := by
  obtain ⟨field, declared, typed, whole⟩ := fits.axis
  have clock : plan.clock view.segment.batch row = plan.orderingKey.elim 0 fun index =>
      orderingValue index (view.segment.row row) := by
    rw [GroupPlan.clock, fits.clock, Option.elim_some, Option.elim_some,
      readable.clock declared typed whole]
  funext accumulators
  rw [updateAll_absorb readable row _ fits.arguments, clock]
  rfl

theorem SegmentView.liveRows_eq (view : SegmentView F) :
    view.liveRows = view.liveIndices.map view.segment.row := rfl

/-- The rows that grouping folds in are the live rows under codes for their marks. -/
theorem GroupPlan.Fits.rows (fits : plan.Fits schema orderingKey)
    (readable : ∀ view ∈ views, view.Readable schema) {unified : List Dictionary}
    (sized : unified.length = plan.terms.length) :
    List.Forall₂ (fun dictionary later => dictionary.values <+: later.values) unified
      (plan.unifiedAfter views unified) ∧
      (∀ row ∈ views.flatMap SegmentView.liveRows,
        List.Forall₂ (fun dictionary mark => Mark.Known dictionary mark)
        (plan.unifiedAfter views unified) (plan.keyed schema row).1) ∧
      plan.rows views unified =
        GroupBy.rename (codesIn (plan.unifiedAfter views unified))
          ((views.flatMap SegmentView.liveRows).map (plan.keyed schema)) := by
  induction views generalizing unified with
  | nil => exact ⟨List.forall₂_same.mpr fun _ _ => List.prefix_rfl, by simp, rfl⟩
  | cons view rest ih =>
    have here := readable view List.mem_cons_self
    obtain ⟨grown, codes⟩ := remaps_marks here.coded plan.terms sized
    obtain ⟨more, known, later⟩ :=
      ih (fun other member => readable other (List.mem_cons_of_mem _ member))
      (grown.length_eq.symm.trans sized)
    have marked (row : Nat) (live : row ∈ view.liveIndices) :
        List.Forall₂ (fun dictionary mark => Mark.Known dictionary mark)
          (remaps view.segment.batch plan.terms unified).2
          (plan.keyed schema (view.segment.row row)).1 ∧
        groupKey view.segment.batch plan.terms (remaps view.segment.batch plan.terms unified).1 row =
          codesIn (remaps view.segment.batch plan.terms unified).2
            (plan.keyed schema (view.segment.row row)).1 := by
      have both := codes row (SegmentView.liveIndices_lt live)
      rwa [fits.marks here row] at both
    refine ⟨growth_trans grown more, fun row member => ?_, ?_⟩
    · rw [List.flatMap_cons, List.mem_append] at member
      rcases member with own | other
      · obtain ⟨place, live, rfl⟩ := List.mem_map.mp own
        exact (codesIn_grown more (marked place live).1).1
      · exact known row other
    · rw [GroupPlan.rows, later, GroupPlan.unifiedAfter, List.flatMap_cons, List.map_append,
        GroupBy.rename, GroupBy.rename, List.map_append,
        SegmentView.liveRows_eq, List.map_map, List.map_map, List.map_map]
      refine congrArg (· ++ _) (List.map_congr_left fun row live => ?_)
      obtain ⟨own, key⟩ := marked row live
      have code := (codesIn_grown more own).2
      exact Prod.ext (key.trans code.symm) (fits.update here row)

end Rows

/-! ### The groups -/

section Groups

variable [F64Math F] {schema : Schema} {orderingKey : Nat} {plan : GroupPlan F}
  {views : List (SegmentView F)}

/-- The group of a row without terms is the one group there is. -/
theorem GroupPlan.keyed_known {mark : List Mark} {rows : List (Row F)}
    (member : mark ∈ plan.known ++ (rows.map (plan.keyed schema)).map Prod.fst) :
    mark.length = plan.terms.length := by
  rw [List.mem_append] at member
  rcases member with alone | seen
  · unfold GroupPlan.known at alone
    split at alone
    · next none_ =>
      rw [List.mem_singleton.mp alone, List.isEmpty_iff.mp none_]
      rfl
    · cases alone
  · simp only [List.map_map, List.mem_map] at seen
    obtain ⟨row, -, rfl⟩ := seen
    exact List.length_map _

omit [F64Math F] in
theorem GroupPlan.start_known (plan : GroupPlan F) (unified : List Dictionary) :
    plan.start = .start ((plan.known.map (codesIn unified)).map (·, plan.template)) := by
  unfold GroupPlan.start GroupPlan.known
  split
  · simp [codesIn]
  · rfl

/-- Hashing groups the live rows by their marks. -/
theorem GroupPlan.Fits.hashed_iff (fits : plan.Fits schema orderingKey)
    (readable : ∀ view ∈ views, view.Readable schema)
    {closed : List (ClosedGroup F)} {unified : List Dictionary} :
    plan.hashing.groups views = .ok (closed, unified) ↔
      ∃ groups, plan.fold schema (views.flatMap SegmentView.liveRows) = .ok groups ∧
        closed = groups.map (fun group => (codesIn unified group.1, group.2.map Accumulator.cell)) ∧
        unified = plan.unifiedAfter views (plan.terms.map fun _ => .empty) := by
  obtain ⟨growth, marked, folded⟩ :=
    @GroupPlan.Fits.rows F _ schema orderingKey plan views fits readable
    (plan.terms.map fun _ => .empty) (List.length_map _)
  generalize final : plan.unifiedAfter views (plan.terms.map fun _ => .empty) =
    last at growth marked folded
  have spaces : last.length = plan.terms.length := by simpa using growth.length_eq.symm
  have injective : ∀ a ∈ plan.known ++ ((views.flatMap SegmentView.liveRows).map
    (plan.keyed schema)).map Prod.fst,
      ∀ b ∈ plan.known ++ ((views.flatMap SegmentView.liveRows).map
        (plan.keyed schema)).map Prod.fst, codesIn last a = codesIn last b → a = b := by
    intro a left b right same
    have length := (GroupPlan.keyed_known right).trans (GroupPlan.keyed_known left).symm
    rcases List.mem_append.mp left with alone | seen
    · unfold GroupPlan.known at alone
      split at alone
      · rw [List.mem_singleton.mp alone] at length ⊢
        exact (List.length_eq_zero_iff.mp length).symm
      · cases alone
    · obtain ⟨entry, present, rfl⟩ := List.mem_map.mp seen
      obtain ⟨row, live, rfl⟩ := List.mem_map.mp present
      exact codesIn_inj (marked row live) length same
  have distinct : (plan.known.map (codesIn last)).Nodup := by
    unfold GroupPlan.known
    split <;> simp
  rw [GroupPlan.hashing_groups, final, folded, plan.start_known last]
  constructor
  · intro given
    cases ran : GroupBy.Groups.run plan.bucketOf closeGroup false plan.template
        (GroupBy.rename (codesIn last) ((views.flatMap SegmentView.liveRows).map (plan.keyed schema)))
        (.start ((plan.known.map (codesIn last)).map (·, plan.template))) with
    | error e =>
      rw [ran] at given
      cases given
    | ok state =>
      rw [ran] at given
      obtain ⟨codes, grouped, rfl⟩ := (GroupBy.run_plain distinct).mp ran
      obtain ⟨groups, own, rfl⟩ := (GroupBy.Grouped.rename injective).mp grouped
      obtain ⟨rfl, rfl⟩ := Prod.mk.inj (Except.ok.inj given)
      refine ⟨groups, GroupBy.groupsOf_iff.mpr own, ?_, rfl⟩
      simp only [GroupBy.Groups.emit, GroupBy.Groups.start, List.nil_append, List.map_map]
      rfl
  · rintro ⟨groups, own, rfl, rfl⟩
    have grouped := (GroupBy.Grouped.rename injective).mpr ⟨groups, GroupBy.groupsOf_iff.mp own, rfl⟩
    rw [(GroupBy.run_plain distinct).mpr ⟨_, grouped, rfl⟩]
    simp only [Except.map, GroupBy.Groups.emit, GroupBy.Groups.start, List.nil_append, List.map_map]
    rfl

end Groups

/-! ### The kinds of aggregates -/

section Kinds

variable [F64Math F] {schema : Schema} {row : Row F} {clock : Int64}

theorem Accumulator.update_columnType {accumulator accumulator' : Accumulator F}
    {cell : Option (CellNumber F)}
    (updated : accumulator.update clock cell = .ok accumulator') :
    accumulator'.columnType = accumulator.columnType := by
  unfold Accumulator.update at updated
  split at updated <;> try split at updated
  all_goals first | cases updated; rfl | cases updated

theorem absorb_columnTypes {arguments : List (Option Nat)}
    {accumulators accumulators' : List (Accumulator F)}
    (absorbed : absorb schema row clock arguments accumulators = .ok accumulators') :
    accumulators'.map Accumulator.columnType = accumulators.map Accumulator.columnType := by
  induction arguments generalizing accumulators accumulators' with
  | nil =>
    rw [absorb] at absorbed
    · rw [Except.ok.inj absorbed]
    · intros; contradiction
  | cons argument arguments ih =>
    cases accumulators with
    | nil =>
      rw [absorb] at absorbed
      · rw [← Except.ok.inj absorbed]
      · intros; contradiction
    | cons accumulator accumulators =>
      rw [absorb] at absorbed
      obtain ⟨cell, -, absorbed⟩ := except_bind_ok absorbed
      obtain ⟨updated, own, absorbed⟩ := except_bind_ok absorbed
      obtain ⟨rest, later, absorbed⟩ := except_bind_ok absorbed
      rw [← Except.ok.inj absorbed, List.map_cons, List.map_cons, ih later,
        Accumulator.update_columnType own]

/-- Rows folded in leave the accumulators of a group what they are. -/
theorem foldOf_columnTypes {plan : GroupPlan F} {rows : List (Row F)} {key : List Mark}
    {accumulators : List (Accumulator F)}
    (folded : GroupBy.foldOf plan.template (rows.map (plan.keyed schema)) key = .ok accumulators) :
    accumulators.map Accumulator.columnType = plan.template.map Accumulator.columnType := by
  induction rows using List.reverseRecOn generalizing accumulators with
  | nil => rw [← Except.ok.inj folded]
  | append_singleton rows row ih =>
    rw [List.map_append, List.map_singleton, GroupBy.foldOf_concat] at folded
    split at folded
    · obtain ⟨before, earlier, absorbed⟩ := except_bind_ok folded
      rw [absorb_columnTypes absorbed, ih earlier]
    · exact ih folded

end Kinds

/-! ### The columns of the answer -/

section Columns

variable [F64Math F]

/-- A mark of the kind that the term has, known to its key space. -/
def GroupTerm.Suits (dictionary : Dictionary) : GroupTerm → Mark → Prop
  | label _, .text text => ∀ value ∈ text, value ∈ dictionary.values
  | bucket _ _ _, .word _ => True
  | _, _ => False

omit [F64Math F] in
theorem cellValue_text [F64 F] {column : Column F} (typed : column.columnType = .key) (row : Nat) :
    cellValue column row = (column.valueAt row).elim .null .key := by
  cases column with
  | f64 values validity => cases typed
  | i64 values validity => cases typed
  | key codes validity dictionary =>
    rw [cellValue_key, Column.valueAt]
    split <;> rfl

omit [F64Math F] in
theorem assembleGroupKey_cell [F64 F] (name : String) {term : GroupTerm} {dictionary : Dictionary}
    {marks : List Mark}
    (suits : ∀ mark ∈ marks, term.Suits dictionary mark) {place : Nat} (inside : place < marks.length) :
    cellValue (assembleGroupKey (F := F) name term dictionary
      (marks.map (Mark.codeIn dictionary))).2 place = marks[place].cell := by
  have own := suits marks[place] (List.getElem_mem inside)
  cases term with
  | bucket index divide multiply =>
    cases mark : marks[place] with
    | text text =>
      rw [mark] at own
      exact own.elim
    | word value =>
      simp [assembleGroupKey, cellValue_i64, Bitmap.validAt, Mark.cell, mark, inside, Mark.codeIn]
  | label index =>
    simp only [assembleGroupKey]
    rw [cellValue_text rfl, valueAt_assembleKey (by simpa using inside), List.getElem_map,
      List.getElem_map]
    cases mark : marks[place] with
    | word value =>
      rw [mark] at own
      exact own.elim
    | text text =>
      rw [mark] at own
      cases text with
      | none => rfl
      | some value =>
        have listed := own value rfl
        have found := List.idxOf_lt_length_iff.mpr listed
        simp [Mark.codeIn, Mark.cell, Dictionary.value, List.getD_eq_getElem?_getD,
          List.getElem?_eq_getElem found]

/-- An aggregate's column says what its groups' aggregates are. -/
theorem assembleAggregate_cell (name : String) {columnType : ColumnType}
    {accumulators : List (Option (Accumulator F))}
    (typed : ∀ accumulator ∈ accumulators, (accumulator.map Accumulator.columnType).getD .f64 =
      columnType) {place : Nat} (inside : place < accumulators.length) :
    cellValue (assembleAggregate name columnType
      (accumulators.map fun accumulator => (accumulator.map Accumulator.cell).getD (.f64 none))).2
      place =
      ((accumulators[place].map Accumulator.cell).getD (.f64 none)).cell := by
  have own := typed accumulators[place] (List.getElem_mem inside)
  cases columnType with
  | i64 =>
    simp only [assembleAggregate, assembleI64]
    rw [cellValue_i64, validAt_assembled (by simpa using inside)]
    simp only [List.getElem_map, List.getD_eq_getElem?_getD, List.getElem?_map,
      List.getElem?_eq_getElem inside, Option.map_some, Option.getD_some]
    cases held : accumulators[place] with
    | none => rw [held] at own; cases own
    | some accumulator =>
      rw [held] at own
      cases accumulator <;> cases own
      all_goals simp only [Option.map_some, Option.getD_some, Accumulator.cell, AggCell.cell]
      all_goals first | rfl | (split <;> rfl)
  | f64 =>
    simp only [assembleAggregate, assembleF64]
    rw [cellValue_f64, validAt_assembled (by simpa using inside)]
    simp only [List.getElem_map, List.getD_eq_getElem?_getD, List.getElem?_map,
      List.getElem?_eq_getElem inside, Option.map_some, Option.getD_some]
    cases held : accumulators[place] with
    | none => rfl
    | some accumulator =>
      rw [held] at own
      cases accumulator <;> cases own
      all_goals simp only [Option.map_some, Option.getD_some, Accumulator.cell, AggCell.cell]
      all_goals first | rfl | (split <;> rfl)
  | key =>
    cases held : accumulators[place] with
    | none => rw [held] at own; cases own
    | some accumulator =>
      rw [held] at own
      cases accumulator <;> cases own

omit [F64Math F] in
/-- A group's mark in a column has the kind of the column's term. -/
theorem marks_suit {terms : List GroupTerm} {unified : List Dictionary}
    {marks : List Mark} {row : Row F}
    (marked : marks = terms.map (·.markOf row))
    (known : List.Forall₂ (fun dictionary mark => Mark.Known dictionary mark) unified marks)
    (position : Nat) :
    (terms.getD position (.label 0)).Suits (unified.getD position .empty)
    (marks.getD position (.text none)) := by
  subst marked
  have sized : unified.length = terms.length := known.length_eq.trans (List.length_map _)
  by_cases inside : position < terms.length
  · have here := known.get (sized ▸ inside) (by simpa using inside)
    simp only [List.get_eq_getElem, List.getElem_map] at here
    rw [List.getD_eq_getElem _ _ inside, List.getD_eq_getElem _ _ (sized ▸ inside),
      List.getD_eq_getElem _ _ (by simpa using inside), List.getElem_map]
    cases term : terms[position] with
    | bucket index divide multiply => exact trivial
    | label index =>
      rw [term] at here
      intro value held
      have text : (GroupTerm.label index).markOf row = .text (some value) := congrArg Mark.text held
      rwa [text] at here
  · rw [List.getD_eq_default _ _ (by omega), List.getD_eq_default _ _ (by omega),
      List.getD_eq_default _ _ (by simpa using inside)]
    exact fun value none_ => by cases none_

omit [F64Math F] in
theorem codesIn_getD {unified : List Dictionary} {marks : List Mark}
    (sized : unified.length = marks.length) (position : Nat) :
    (codesIn unified marks).getD position (.label none) = (marks.getD position (.text none)).codeIn
    (unified.getD position .empty) := by
  unfold codesIn
  by_cases inside : position < marks.length
  · rw [List.getD_eq_getElem _ _ (by simp; omega), List.getD_eq_getElem _ _ inside,
      List.getD_eq_getElem _ _ (by omega), List.getElem_zipWith]
  · rw [List.getD_eq_default _ _ (by simp; omega), List.getD_eq_default _ _ (by omega),
      List.getD_eq_default _ _ (by omega)]
    rfl

structure GroupPlan.Folded (plan : GroupPlan F) (unified : List Dictionary)
    (group : List Mark × List (Accumulator F)) : Prop where
  sized : unified.length = group.1.length
  suits : ∀ position, (plan.terms.getD position (.label 0)).Suits (unified.getD position .empty)
    (group.1.getD position (.text none))
  typed : group.2.map Accumulator.columnType = plan.template.map Accumulator.columnType

variable {plan : GroupPlan F} {unified : List Dictionary}
  {groups : List (List Mark × List (Accumulator F))}

/-- A group's row of the output is made of its marks and aggregates. -/
theorem assembleItems_cells (folded : ∀ group ∈ groups, plan.Folded unified group)
    (keys : List GroupKey) (items : List AggItem) (call : Nat)
    {place : Nat} (inside : place < groups.length) :
    (assembleItems keys plan unified
      (groups.map fun group => (codesIn unified group.1, group.2.map Accumulator.cell)) items call).map
        (fun column => cellValue column.2 place) =
      answerCells keys groups[place].1 (groups[place].2.map Accumulator.cell) items call := by
  induction items generalizing call with
  | nil => rfl
  | cons item items ih =>
    cases item with
    | key key as =>
      rw [assembleItems, answerCells, List.map_cons, ih]
      refine congrArg (· :: _) ?_
      have marks : (groups.map fun group =>
        (codesIn unified group.1, group.2.map Accumulator.cell)).map
        (·.1.getD (keys.idxOf key) (.label none)) =
          (groups.map (·.1.getD (keys.idxOf key) (.text none))).map
            (Mark.codeIn (unified.getD (keys.idxOf key) .empty)) := by
        rw [List.map_map, List.map_map]
        exact List.map_congr_left fun group member => codesIn_getD (folded group member).sized _
      rw [marks, assembleGroupKey_cell _ _ (by simpa using inside), List.getElem_map]
      intro mark member
      obtain ⟨group, present, rfl⟩ := List.mem_map.mp member
      exact (folded group present).suits _
    | call aggregate =>
      rw [assembleItems, answerCells, List.map_cons, ih]
      refine congrArg (· :: _) ?_
      have cells : (groups.map fun group =>
        (codesIn unified group.1, group.2.map Accumulator.cell)).map (·.2.getD call (.f64 none)) =
          (groups.map (·.2[call]?)).map fun accumulator => (accumulator.map Accumulator.cell).getD
            (.f64 none) := by
        rw [List.map_map, List.map_map]
        refine List.map_congr_left fun group _ => ?_
        simp only [Function.comp_apply, List.getD_eq_getElem?_getD, List.getElem?_map]
      rw [cells, assembleAggregate_cell _ _ (by simpa using inside), List.getElem_map,
        List.getD_eq_getElem?_getD, List.getElem?_map]
      intro accumulator member
      obtain ⟨group, present, rfl⟩ := List.mem_map.mp member
      rw [← List.getElem?_map, (folded group present).typed, List.getD_eq_getElem?_getD]

omit [F64Math F] in
theorem length_assembleGroupKey (name : String) (term : GroupTerm) (dictionary : Dictionary)
    (codes : List GroupCode) :
    (assembleGroupKey (F := F) name term dictionary codes).2.length = codes.length := by
  cases term with
  | bucket index divide multiply => exact List.length_map _
  | label index => simp [assembleGroupKey, assembleKey, Column.length, (internAll_value _ _).1]

theorem length_assembleAggregate (name : String) (columnType : ColumnType) (cells : List (AggCell F)) :
    (assembleAggregate name columnType cells).2.length = cells.length := by
  cases columnType <;> simp [assembleAggregate, assembleI64, assembleF64, Column.length]

theorem numRows_assembled (keys : List GroupKey) (closed : List (ClosedGroup F))
    {items : List AggItem} (some_ : items ≠ []) (schema : Schema) :
    (RecordBatch.mk schema
      ((assembleItems keys plan unified closed items 0).map Prod.snd)).numRows = closed.length := by
  obtain ⟨item, rest, rfl⟩ := List.exists_cons_of_ne_nil some_
  cases item with
  | key key as =>
    rw [assembleItems, List.map_cons, RecordBatch.numRows]
    exact (length_assembleGroupKey _ _ _ _).trans (List.length_map _)
  | call aggregate =>
    rw [assembleItems, List.map_cons, RecordBatch.numRows]
    exact (length_assembleAggregate _ _ _).trans (List.length_map _)

theorem assembled_rows (folded : ∀ group ∈ groups, plan.Folded unified group) (keys : List GroupKey)
    {items : List AggItem} (some_ : items ≠ [])
    (schema : Schema) :
    (QueryOutput.mk schema
      (if (groups.map fun group => (codesIn unified group.1, group.2.map Accumulator.cell)).isEmpty
      then []
        else [⟨schema, (assembleItems keys plan unified (groups.map fun group =>
        (codesIn unified group.1, group.2.map Accumulator.cell)) items 0).map
          Prod.snd⟩])).rows = groups.map fun group =>
          answerCells keys group.1 (group.2.map Accumulator.cell) items 0 := by
  by_cases none_ : groups = []
  · subst none_
    rfl
  · rw [if_neg (by simpa using none_), QueryOutput.rows, List.flatMap_singleton, RecordBatch.rows,
      numRows_assembled keys _ some_]
    refine List.ext_getElem (by simp) fun place low high => ?_
    rw [List.getElem_map, List.getElem_map, List.getElem_range, RecordBatch.row, List.map_map]
    exact assembleItems_cells folded keys items 0 (by simpa using high)

end Columns

/-! ### The answer -/

section Answered

variable [F64Math F] {schema : Schema} {orderingKey : Nat} {plan : GroupPlan F}
  {views : List (SegmentView F)} {keys : List GroupKey} {items : List AggItem}

/-- Which segments there are decides how a plan groups and not what it groups. -/
theorem groupPlan_views (views : List (SegmentView F)) (orderingKey : Option Nat)
    (keys : List GroupKey) (items : List AggItem) :
    groupPlan schema views orderingKey keys items =
      (groupPlan schema [] orderingKey keys items).map fun plan =>
      { plan with
        streaming := plan.terms.any GroupTerm.isBucket &&
          orderingKey.any fun index => (orderingProblem views index).isNone } := by
  unfold groupPlan
  cases keys.mapM (resolveGroupKey schema orderingKey) with
  | error e => rfl
  | ok terms =>
    simp only [bind, Except.bind]
    cases (items.filterMap _).mapM (resolveArgument schema) with
    | error e => rfl
    | ok arguments =>
      simp only
      cases ((items.filterMap _).zip arguments).mapM (m := Except QueryError) _ with
      | error e => rfl
      | ok template => rfl

theorem groupPlan_fits (axis : schema.Axis orderingKey)
    (planned : groupPlan schema views (some orderingKey) keys items = .ok plan) :
    plan.Fits schema orderingKey := by
  obtain ⟨resolved, clock, -⟩ := groupPlan_ok planned
  refine ⟨axis, clock, fun index divide multiply member => ?_, fun argument member index held => ?_⟩
  · obtain ⟨key, -, same⟩ := forall₂_mem_right resolved member
    exact (resolveGroupKey_bucket same).1
  · unfold groupPlan at planned
    obtain ⟨terms, -, planned⟩ := except_bind_ok planned
    obtain ⟨arguments, found, planned⟩ := except_bind_ok planned
    obtain ⟨template, -, planned⟩ := except_bind_ok planned
    rw [← Except.ok.inj planned] at member
    obtain ⟨pair, listed, rfl⟩ := List.mem_map.mp member
    obtain ⟨call, -, resolves⟩ := forall₂_mem_right (except_mapM_ok found) listed
    unfold resolveArgument at resolves
    split at resolves
    · rw [← Except.ok.inj resolves] at held
      cases held
    · cases here : schema.resolve _ with
      | error e =>
        rw [here] at resolves
        cases resolves
      | ok place =>
        rw [here] at resolves
        rw [← Except.ok.inj resolves] at held
        obtain rfl := Option.some.inj held
        exact (List.getElem?_eq_some_iff.mp (Schema.resolve_declared here)).1

/-- No bucket of the rows overflows. -/
def ExactBuckets (orderingKey : Nat) (keys : List GroupKey) (rows : List (Row F)) : Prop :=
  ∀ name divide multiply, .bucket name divide multiply ∈ keys →
    0 < divide ∧ (∀ factor ∈ multiply, 0 < factor) ∧ ∀ row ∈ rows,
      GroupTerm.ExactAt divide multiply (orderingValue orderingKey row)

/-- Streaming or not, the groups are those of hashing. -/
theorem groups_hashed (axis : schema.Axis orderingKey) (readable : ∀ view ∈ views, view.Readable schema)
    (planned : groupPlan schema views (some orderingKey) keys items = .ok plan)
    (buckets : ExactBuckets orderingKey keys (views.flatMap SegmentView.liveRows)) :
    plan.groups views = plan.hashing.groups views := by
  obtain ⟨field, declared, typed, whole⟩ := axis
  obtain ⟨-, -, streams⟩ := groupPlan_ok planned
  by_cases streaming : plan.streaming = true
  · rw [streaming, eq_comm, Bool.and_eq_true, Option.isNone_iff_eq_none] at streams
    refine exact_buckets_stream planned streams.1
      (fun view member => (readable view member).sorted) streams.2
      fun name divide multiply member => ?_
    obtain ⟨positive, factors, exactly⟩ := buckets name divide multiply member
    refine ⟨positive, factors, fun clock live => ?_⟩
    obtain ⟨view, present, place⟩ := List.mem_flatMap.mp live
    obtain ⟨row, here, rfl⟩ := List.mem_map.mp place
    rw [(readable view present).clock declared typed whole]
    exact exactly _ (List.mem_flatMap.mpr ⟨view, present, List.mem_map_of_mem here⟩)
  · have plain : plan.hashing = plan := by
      rw [Bool.not_eq_true] at streaming
      unfold GroupPlan.hashing
      rw [← streaming]
    rw [plain]

theorem GroupPlan.Fits.folded (fits : plan.Fits schema orderingKey)
    (readable : ∀ view ∈ views, view.Readable schema)
    {groups : List (List Mark × List (Accumulator F))}
    (given : plan.fold schema (views.flatMap SegmentView.liveRows) = .ok groups) :
    ∀ group ∈ groups, plan.Folded (plan.unifiedAfter views (plan.terms.map fun _ => .empty)) group := by
  obtain ⟨growth, marked, -⟩ :=
    @GroupPlan.Fits.rows F _ schema orderingKey plan views fits readable
    (plan.terms.map fun _ => .empty) (List.length_map _)
  intro group member
  obtain ⟨listed, value⟩ := (GroupBy.groupsOf_iff.mp given).mem member
  have spaces : (plan.unifiedAfter views (plan.terms.map fun _ => .empty)).length =
      plan.terms.length := by
    simpa using growth.length_eq.symm
  refine ⟨spaces.trans (GroupPlan.keyed_known listed).symm, fun position => ?_,
    foldOf_columnTypes value⟩
  rcases List.mem_append.mp listed with alone | seen
  · unfold GroupPlan.known at alone
    split at alone
    · next none_ =>
      rw [List.mem_singleton.mp alone, List.isEmpty_iff.mp none_]
      exact fun value held => by cases held
    · cases alone
  · obtain ⟨entry, present, same⟩ := List.mem_map.mp seen
    obtain ⟨row, live, rfl⟩ := List.mem_map.mp present
    exact marks_suit same.symm (same ▸ marked row live) position

/-- An aggregate over segments answers what its live rows answer, whatever segments hold them. -/
theorem projectAggregate_answers (axis : schema.Axis orderingKey)
    (readable : ∀ view ∈ views, view.Readable schema) (some_ : items ≠ [])
    (buckets : ExactBuckets orderingKey keys (views.flatMap SegmentView.liveRows))
    (rows : List (Row F)) :
    (projectAggregate schema views (some orderingKey) keys items).map QueryOutput.rows = .ok rows ↔
      answer schema (some orderingKey) keys items (views.flatMap SegmentView.liveRows) = .ok rows := by
  unfold projectAggregate answer
  rw [groupPlan_views views]
  cases resolved : groupPlan (F := F) schema [] (some orderingKey) keys items with
  | error e => simp [Except.map, bind, Except.bind]
  | ok shape =>
    have planned := @groupPlan_views F _ schema views (some orderingKey) keys items
    rw [resolved] at planned
    simp only [Except.map, bind, Except.bind] at planned ⊢
    generalize streaming :
      (shape.terms.any GroupTerm.isBucket && (some orderingKey).any fun index =>
      (orderingProblem views index).isNone) = mode at planned ⊢
    have fits := groupPlan_fits axis planned
    rw [groups_hashed axis readable planned buckets]
    have same : shape.fold schema (views.flatMap SegmentView.liveRows) =
      ({ shape with streaming := mode } : GroupPlan F).fold schema
      (views.flatMap SegmentView.liveRows) := rfl
    rw [same]
    generalize ({ shape with streaming := mode } : GroupPlan F) = plan at planned fits ⊢
    cases folded : plan.fold schema (views.flatMap SegmentView.liveRows) with
    | error e =>
      cases hashed : plan.hashing.groups views with
      | error e' => simp
      | ok both =>
        obtain ⟨groups, own, -⟩ :=
          (fits.hashed_iff readable).mp
          (show plan.hashing.groups views = .ok (both.1, both.2) from hashed)
        rw [folded] at own
        cases own
    | ok groups =>
      have held := fits.folded readable folded
      rw [(fits.hashed_iff readable).mpr ⟨groups, folded, rfl, rfl⟩]
      simp only [Except.ok.injEq]
      rw [assembled_rows held keys some_]

end Answered

end TallyDB
