import Mathlib.Data.List.Perm.Basic
import TallyDB.QueryLite.Compare
import TallyDB.QueryLite.Exec

/-!
# The rows of an ordered answer

`ORDER BY` under `LIMIT` keeps a bounded heap of the leading rows. The rows that come out are
those of a stable sort of all rows that is cut afterwards.
-/

namespace TallyDB

variable {F : Type} [F64 F]

open BoundedHeap

/-! ### The order of the entries -/

omit [F64 F] in
theorem ordered_compare {E L : Type} [LinearOrder L] (f : E → L) : Ordered fun a b => compare
      (f a) (f b) where
  swap a b := Std.OrientedOrd.eq_swap
  trans a b c ab bc := by
    rw [compare_le_iff_le] at *
    exact ab.trans bc

theorem SortCell.ordered : Ordered (SortCell.compare : SortCell F → SortCell F → Ordering) where
  swap a b := by
    cases a <;> cases b <;> simp only [SortCell.compare]
    · exact (ordered_compare Int64.toInt).swap _ _
    · rfl
    · rfl
    · rw [cmpF64_eq, cmpF64_eq]
      exact (ordered_compare F64.exact).swap _ _
  trans a b c ab bc := by
    cases a <;> cases b <;> cases c <;> simp only [SortCell.compare] at *
    · exact (ordered_compare Int64.toInt).trans _ _ _ ab bc
    all_goals try simp_all
    simp only [cmpF64_eq] at *
    exact (ordered_compare F64.exact).trans _ _ _ ab bc

namespace OrderBy

/-- The engine's comparison of two key cells. -/
def cellOrder (orderBy : OrderBy) (left right : Option (SortCell F)) : Ordering :=
  match left, right with
  | none, none => .eq
  | none, some _ => if orderBy.nullsFirst.getD false then .lt else .gt
  | some _, none => (if orderBy.nullsFirst.getD false then .lt else .gt : Ordering).swap
  | some left, some right =>
      if orderBy.descending then (left.compare right).swap else left.compare right

theorem compare_eq (orderBy : OrderBy) (left right : SortEntry F) :
    orderBy.compare left right = (orderBy.cellOrder left.cell right.cell).then
      (Ord.compare left.position right.position) := rfl

theorem cellOrder_ordered (orderBy : OrderBy) : Ordered
      (orderBy.cellOrder : Option (SortCell F) → Option (SortCell F) → Ordering) where
  swap a b := by
    cases a <;> cases b <;> simp only [cellOrder]
    · rfl
    · exact Ordering.swap_swap.symm
    · split
      · rw [SortCell.ordered.swap]
      · exact SortCell.ordered.swap _ _
  trans a b c ab bc := by
    cases a <;> cases b <;> cases c <;> simp only [cellOrder] at *
    all_goals try split at ab
    all_goals try simp_all
    · simpa using SortCell.ordered.reverse.trans _ _ _ (by simpa using ab) (by simpa using bc)
    · exact SortCell.ordered.trans _ _ _ ab bc

theorem compare_ordered (orderBy : OrderBy) : Ordered
      (orderBy.compare : SortEntry F → SortEntry F → Ordering) := by
  have cells : Ordered fun left right : SortEntry F => orderBy.cellOrder left.cell right.cell :=
    ⟨fun a b => orderBy.cellOrder_ordered.swap _ _, fun a b c => orderBy.cellOrder_ordered.trans _ _ _⟩
  exact cells.lex (ordered_compare SortEntry.position)

end OrderBy

/-! ### The picks -/

def QueryOutput.keyCell (output : QueryOutput F) (index : Nat) (pick : Nat × Nat) : Option
      (SortCell F) :=
  (output.batches[pick.1]?).bind fun batch => sortCell (batch.column index) pick.2

def stableSort (output : QueryOutput F) (orderBy : OrderBy) (index : Nat) : List (Nat × Nat) :=
  output.positions.mergeSort fun left right => orderBy.cellOrder (output.keyCell index left)
    (output.keyCell index right) ≠ .gt

def cut (offset : Nat) (limit : Option Nat) (picks : List (Nat × Nat)) : List (Nat × Nat) :=
  limit.elim (picks.drop offset) (picks.drop offset).take

section Picks

variable (output : QueryOutput F) (orderBy : OrderBy) (index : Nat)

theorem sortEntries_distinct : (sortEntries output index).Pairwise fun a b =>
      orderBy.compare a b ≠ .eq := by
  rw [sortEntries, List.pairwise_map]
  have places : output.positions.zipIdx.Pairwise fun a b => a.2 ≠ b.2 := by
    have nodup : (output.positions.zipIdx.map Prod.snd).Nodup := by
      rw [List.zipIdx_map_snd]
      exact List.nodup_range'
    exact List.pairwise_map.mp nodup
  refine places.imp fun {a b} differ same => differ ?_
  rw [OrderBy.compare_eq, Ordering.then_eq_eq] at same
  exact compare_eq_iff_eq.mp same.2

def QueryOutput.entry (output : QueryOutput F) (index : Nat) (pick : (Nat × Nat) × Nat) : SortEntry F :=
  ⟨output.keyCell index pick.1, pick.1, pick.2⟩

/-- Breaking ties by the place in the input is what makes a sort stable. -/
theorem picks_mergeSort :
    ((sortEntries output index).mergeSort fun a b => orderBy.compare a b ≠ .gt).map SortEntry.pick =
      stableSort output orderBy index := by
  have tied : ∀ a ∈ output.positions.zipIdx, ∀ b ∈ output.positions.zipIdx,
      List.zipIdxLE (fun left right =>
        orderBy.cellOrder (output.keyCell index left) (output.keyCell index right) ≠ .gt) a b =
        decide (orderBy.compare (output.entry index a) (output.entry index b) ≠ .gt) := by
    intro a _ b _
    rw [OrderBy.compare_eq, List.zipIdxLE, orderBy.cellOrder_ordered.swap (output.keyCell index a.1)]
    cases cells : orderBy.cellOrder (output.keyCell index a.1) (output.keyCell index b.1) <;>
      simp [QueryOutput.entry, cells, compare_le_iff_le]
  have mapped : _ = (output.positions.zipIdx.map (output.entry index)).mergeSort fun a b =>
      decide (orderBy.compare a b ≠ .gt) :=
    List.map_mergeSort tied
  have entries : sortEntries output index = output.positions.zipIdx.map (output.entry index) := rfl
  have sorted := @List.mergeSort_zipIdx _
    (fun left right =>
      decide (orderBy.cellOrder (output.keyCell index left) (output.keyCell index right) ≠ .gt))
      output.positions
  rw [entries, ← mapped, List.map_map, stableSort, ← sorted]
  rfl

/-- The bounded heap picks the rows that the stable sort puts first. -/
theorem select_picks (keep : Option Nat) :
    (select orderBy.compare keep (sortEntries output index)).map SortEntry.pick =
      keep.elim (stableSort output orderBy index) (stableSort output orderBy index).take := by
  rw [select_eq orderBy.compare_ordered keep (sortEntries_distinct output orderBy index)]
  cases keep with
  | none => exact picks_mergeSort output orderBy index
  | some k => rw [Option.elim_some, Option.elim_some, List.map_take, picks_mergeSort]

end Picks

/-! ### Gathering -/

section Gather

omit [F64 F] in
theorem validAt_assembled {validity : List Bool} {j : Nat} (inside : j < validity.length) :
    Bitmap.validAt (assembledValidity validity) j = validity[j] := by
  unfold assembledValidity
  split
  · next all =>
    have := List.all_eq_true.mp all validity[j] (List.getElem_mem inside)
    simpa [Bitmap.validAt] using this.symm
  · simp [Bitmap.validAt, Bitmap.get, List.getD_eq_getElem?_getD, inside]

theorem internAll_value (texts : List (Option String)) (dictionary : Dictionary) :
    (internAll texts dictionary).1.length = texts.length ∧
    dictionary.values <+: (internAll texts dictionary).2.values ∧
      ∀ j text, texts[j]? = some (some text) →
        (internAll texts dictionary).1.getD j 0 < (internAll texts dictionary).2.values.length ∧
          (internAll texts dictionary).2.value ((internAll texts dictionary).1.getD j 0) = text := by
  induction texts generalizing dictionary with
  | nil => exact ⟨rfl, List.prefix_rfl, fun j text none_ => by simp at none_⟩
  | cons first rest ih =>
    cases first with
    | none =>
      obtain ⟨length, grown, codes⟩ := ih dictionary
      refine ⟨by simp [internAll, length], grown, fun j text at_ => ?_⟩
      cases j with
      | zero => simp at at_
      | succ j => exact codes j text at_
    | some own =>
      obtain ⟨length, grown, codes⟩ := ih (dictionary.intern own).2
      refine ⟨by simp [internAll, length], (dictionary.intern_prefix own).trans grown,
        fun j text at_ => ?_⟩
      cases j with
      | zero =>
        obtain rfl : own = text := by simpa using at_
        have bound := dictionary.intern_lt own
        exact ⟨bound.trans_le grown.length_le,
          (Dictionary.value_of_prefix grown bound).trans (dictionary.value_intern own)⟩
      | succ j => exact codes j text at_

/-- What a gathered column holds at a place is what its source held. -/
def Gathered : ColumnType → Column F → Nat → Option (Column F × Nat) → Prop
  | .f64, column, j, source => column.isValid j = (source.any fun (held, row) => held.isValid row) ∧
      column.f64At j = source.elim F64.zero fun (held, row) => held.f64At row
  | .i64, column, j, source => column.isValid j = (source.any fun (held, row) => held.isValid row) ∧
      column.i64At j = source.elim 0 fun (held, row) => held.i64At row
  | .key, column, j, source => column.valueAt j = source.bind fun (held, row) => held.valueAt row

omit [F64 F] in
theorem valueAt_assembleKey {texts : List (Option String)} {j : Nat} (inside : j < texts.length) :
    (assembleKey (internAll texts .empty).1 (texts.map Option.isSome) (internAll texts .empty).2 :
      Column F).valueAt j = texts[j] := by
  obtain ⟨length, -, codes⟩ := internAll_value texts .empty
  simp only [assembleKey, Column.valueAt]
  rw [validAt_assembled (by simpa using inside), List.getElem_map]
  cases held : texts[j] with
  | none => rfl
  | some text =>
    obtain ⟨bound, value⟩ := codes j text (by rw [List.getElem?_eq_getElem inside, held])
    have filled : (internAll texts .empty).2.isEmpty = false := by
      unfold Dictionary.isEmpty
      cases values : (internAll texts .empty).2.values with
      | nil => simp [values] at bound
      | cons => rfl
    simp only [filled, Bool.false_and, Bool.false_eq_true, if_false, Option.isSome_some, if_true, value]

theorem gatherColumn_gathered (columnType : ColumnType) {sources : List (Option (Column F × Nat))}
    {j : Nat} (inside : j < sources.length) :
    Gathered columnType (gatherColumn columnType sources) j sources[j] := by
  have present (f : Option (Column F × Nat) → Bool) : Bitmap.validAt
      (assembledValidity (sources.map f)) j = f sources[j] := by
    rw [validAt_assembled (by simpa using inside), List.getElem_map]
  cases columnType with
  | f64 =>
    refine ⟨present _, ?_⟩
    simp [gatherColumn, Column.f64At, List.getD_eq_getElem?_getD, inside]
  | i64 =>
    refine ⟨present _, ?_⟩
    simp [gatherColumn, Column.i64At, List.getD_eq_getElem?_getD, inside]
  | key =>
    refine (valueAt_assembleKey (by simpa using inside)).trans ?_
    rw [List.getElem_map]

/-- Gathering reads no more of its sources than what they hold. -/
theorem gatherColumn_congr (columnType : ColumnType) {from_ to_ : List (Option (Column F × Nat))}
    (same : List.Forall₂ (fun a b =>
    ∃ column j, a = some (column, j) ∧ Gathered columnType column j b) from_ to_) :
    gatherColumn columnType from_ = gatherColumn columnType to_ := by
  have maps {β : Type} (f : Option (Column F × Nat) → β)
      (agree : ∀ column j source, Gathered columnType column j source →
        f (some (column, j)) = f source) : from_.map f = to_.map f := by
    induction same with
    | nil => rfl
    | cons head _ ih =>
      obtain ⟨column, j, rfl, gathered⟩ := head
      rw [List.map_cons, List.map_cons, ih, agree _ _ _ gathered]
  cases columnType with
  | f64 =>
    let valid (source : Option (Column F × Nat)) : Bool :=
      source.any fun (held, row) => held.isValid row
    let value (source : Option (Column F × Nat)) : F :=
      source.elim F64.zero fun (held, row) => held.f64At row
    exact congrArg₂ (fun values validity => Column.f64 values (assembledValidity validity))
      (maps value fun column j source gathered => gathered.2)
        (maps valid fun column j source gathered => gathered.1)
  | i64 =>
    let valid (source : Option (Column F × Nat)) : Bool :=
      source.any fun (held, row) => held.isValid row
    let value (source : Option (Column F × Nat)) : Int64 :=
      source.elim 0 fun (held, row) => held.i64At row
    exact congrArg₂ (fun values validity => Column.i64 values (assembledValidity validity))
      (maps value fun column j source gathered => gathered.2)
        (maps valid fun column j source gathered => gathered.1)
  | key =>
    let text (source : Option (Column F × Nat)) : Option String :=
      source.bind fun (held, row) => held.valueAt row
    exact congrArg (fun texts => assembleKey (internAll texts .empty).1 (texts.map Option.isSome)
      (internAll texts .empty).2)
      (maps text fun column j source gathered => gathered)

theorem length_gatherColumn (columnType : ColumnType) (sources : List (Option (Column F × Nat))) :
    (gatherColumn columnType sources).length = sources.length := by
  cases columnType with
  | f64 | i64 => simp [gatherColumn, Column.length]
  | key => simp [gatherColumn, assembleKey, Column.length, (internAll_value _ _).1]

variable (schema : Schema) (batches : List (RecordBatch F)) (picks : List (Nat × Nat))

theorem numRows_takeRows (named : schema.fields ≠ []) :
    (QueryOutput.takeRows schema batches picks).numRows = picks.length := by
  obtain ⟨field, rest, shape⟩ := List.exists_cons_of_ne_nil named
  simp [QueryOutput.takeRows, RecordBatch.numRows, shape, length_gatherColumn]

theorem takeRows_column {index : Nat} {field : Field} (declared : schema.fields[index]? = some field) :
    (QueryOutput.takeRows schema batches picks).column index =
      gatherColumn field.columnType
        (picks.map fun (batch, row) => (batches[batch]?).map fun source =>
        (source.column index, row)) := by
  simp [QueryOutput.takeRows, RecordBatch.column, List.getD_eq_getElem?_getD, declared]

/-- Gathering from what was gathered is gathering from where it came. -/
theorem takeRows_takeRows {places : List Nat} (inside : ∀ j ∈ places, j < picks.length) :
    QueryOutput.takeRows schema [QueryOutput.takeRows schema batches picks] (places.map (0, ·)) =
      QueryOutput.takeRows schema batches (places.map fun j => picks.getD j (0, 0)) := by
  refine congrArg (RecordBatch.mk schema) (List.map_congr_left fun (field, index) member =>
    gatherColumn_congr _ ?_)
  have declared : schema.fields[index]? = some field := List.mem_zipIdx_iff_getElem?.mp member
  rw [List.map_map, List.map_map, List.forall₂_map_left_iff, List.forall₂_map_right_iff,
    List.forall₂_same]
  intro j chosen
  have bound := inside j chosen
  refine ⟨_, j, rfl, ?_⟩
  rw [takeRows_column _ _ _ declared]
  have gathered := @gatherColumn_gathered F _ field.columnType
    (picks.map fun (batch, row) => (batches[batch]?).map fun source => (source.column index, row)) j
      (by simpa using bound)
  rw [List.getElem_map] at gathered
  simp only [Function.comp_apply, List.getD_eq_getElem _ _ bound]
  exact gathered

end Gather

/-! ### The answer -/

section Answer

variable {output : QueryOutput F} {orderBy : OrderBy} {offset : Nat} {limit : Option Nat}

omit [F64 F] in
theorem positions_single (batch : RecordBatch F) (schema : Schema) :
    (QueryOutput.mk schema [batch]).positions = (List.range batch.numRows).map (0, ·) := by
  simp [QueryOutput.positions]

theorem Schema.resolve_ne_nil {schema : Schema} {name : String} {found : Nat × Field}
    (resolved : schema.resolve name = .ok found) : schema.fields ≠ [] := by
  intro empty
  simp [Schema.resolve, empty] at resolved

omit [F64 F] in
theorem cut_map {α : Type} (f : α → Nat × Nat) (entries : List α) :
    cut offset limit (entries.map f) =
      (limit.elim (entries.drop offset) (entries.drop offset).take).map f := by
  cases limit with
  | none => simp [cut, List.map_drop]
  | some limit => simp [cut, List.map_take, List.map_drop]

/-- Cutting gathered rows gathers the rows that a cut picks. -/
theorem limit_takeRows {schema : Schema} (named : schema.fields ≠ [])
    (batches : List (RecordBatch F)) (picks : List (Nat × Nat)) :
    limitOutput ⟨schema, [QueryOutput.takeRows schema batches picks]⟩ offset limit =
      ⟨schema, if (cut offset limit picks).isEmpty then []
        else [QueryOutput.takeRows schema batches (cut offset limit picks)]⟩ := by
  have places : picks = (List.range picks.length).map fun j => picks.getD j (0, 0) := by
    refine List.ext_getElem (by simp) fun j inside _ => ?_
    simp [List.getD_eq_getElem?_getD, inside]
  have chosen := @cut_map offset limit _ (fun j => picks.getD j (0, 0)) (List.range picks.length)
  rw [← places] at chosen
  have kept := @cut_map offset limit _ (fun j : Nat => ((0, j) : Nat × Nat)) (List.range picks.length)
  have inside : ∀ j ∈ limit.elim ((List.range picks.length).drop
      offset) ((List.range picks.length).drop offset).take, j < picks.length := by
    intro j member
    refine List.mem_range.mp ?_
    cases limit with
    | none => exact List.mem_of_mem_drop member
    | some limit => exact List.mem_of_mem_drop (List.mem_of_mem_take member)
  unfold limitOutput
  simp only [positions_single, numRows_takeRows schema batches picks named]
  change QueryOutput.mk schema
    (if (cut offset limit _).isEmpty then [] else [QueryOutput.takeRows _ _ (cut offset limit _)]) = _
  rw [kept, chosen, takeRows_takeRows schema batches picks inside]
  simp only [List.isEmpty_map]

omit [F64 F] in
/-- A cut does not see what lies beyond the rows that it can reach. -/
theorem cut_reach (picks : List (Nat × Nat)) (held : picks.length < 2 ^ 64) :
    cut offset limit ((reach limit offset).elim picks picks.take) = cut offset limit picks := by
  cases limit with
  | none => rfl
  | some limit =>
    simp only [reach, Option.map_some, Option.elim_some, cut]
    rw [List.drop_take, List.take_take]
    refine List.take_eq_take_iff.mpr ?_
    simp only [List.length_drop]
    omega

end Answer

def readings : QueryOutput UInt64 where
  schema := ⟨[.new "x" .i64 true]⟩
  batches := [⟨⟨[.new "x" .i64 true]⟩, [.i64 [3, 1, 2] none]⟩,
    ⟨⟨[.new "x" .i64 true]⟩, [.i64 [1, 5] (some [true, false])]⟩]

end TallyDB
