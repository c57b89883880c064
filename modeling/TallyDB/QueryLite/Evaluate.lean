import TallyDB.ArrowLite.Rounding
import TallyDB.QueryLite.Compare
import TallyDB.QueryLite.Meaning
import TallyDB.StorageLite.Decoded

/-!
# Evaluation agrees with meaning

At every live row an expression evaluates to its meaning there, and a predicate is true,
false or unknown as it means: wherever no cell meets the rounding of an integer literal.
-/

namespace TallyDB

variable {F : Type}

/-! ### Rows and masks -/

theorem leafResult_get {rows row : Nat} (verdict : Nat → Bool × Bool) (inside : row < rows) :
    (leafResult rows verdict).truth.get row = ((verdict row).1 && (verdict row).2) ∧
      (leafResult rows verdict).falsity.get row = ((verdict row).1 && !(verdict row).2) := by
  simp [leafResult, Bitmap.get, List.getD_eq_getElem?_getD, inside]

theorem scatter_getElem? (isLive : Nat → Bool) (verdict : Nat → Bool × Bool) (rows : List Nat)
    (start index : Nat) :
    (scatter isLive verdict rows start)[index]? = rows[index]?.map fun row =>
      if isLive row then verdict (start + ((rows.take index).filter isLive).length) else
        (false, false) := by
  induction rows generalizing start index with
  | nil => simp [scatter]
  | cons row rest ih =>
    rw [scatter]
    cases index with
    | zero => by_cases live : isLive row <;> simp [live]
    | succ index =>
      by_cases live : isLive row
      · simp only [live, if_true, List.getElem?_cons_succ, ih, List.take_succ_cons,
          List.filter_cons_of_pos, List.length_cons]
        congr 1
        funext other
        rw [show start + 1 + ((rest.take index).filter isLive).length = start +
          (((rest.take index).filter isLive).length + 1) by omega]
      · simp [live, ih]

theorem filter_range_getElem? {pass : Nat → Bool} {count k row : Nat}
    (found : ((List.range count).filter pass)[k]? = some row) :
    row < count ∧ pass row = true ∧ ((List.range row).filter pass).length = k := by
  have member := List.mem_of_getElem? found
  obtain ⟨inside, passes⟩ := List.mem_filter.mp member
  have inside := List.mem_range.mp inside
  refine ⟨inside, passes, ?_⟩
  have nodup : ((List.range count).filter pass).Nodup := List.nodup_range.filter _
  have split_ : (List.range count).filter pass = (List.range row).filter pass ++
      row :: ((List.range' (row + 1) (count - row - 1)).filter pass) := by
    have ranges : List.range count = List.range row ++ row :: List.range' (row + 1)
        (count - row - 1) := by
      rw [List.range_eq_range', List.range_eq_range',
        show row :: List.range' (row + 1) (count - row - 1) =
        List.range' row (count - row) by rw [show count - row = (count - row - 1) + 1 by omega]; rfl]
      rw [show List.range' row (count - row) = List.range' (0 + 1 * row) (count - row) by
          simp, List.range'_append]
      congr 1
      omega
    rw [ranges, List.filter_append, List.filter_cons_of_pos passes]
  have at_ : ((List.range count).filter pass)[((List.range row).filter pass).length]? = some row := by
    rw [split_, List.getElem?_append_right le_rfl]
    simp
  have less : ((List.range row).filter pass).length < ((List.range count).filter pass).length :=
    (List.getElem?_eq_some_iff.mp at_).1
  exact (List.getElem?_inj less nodup).mp (at_.trans found.symm)

namespace SegmentView

/-- `row` is the `k`-th row that a reader sees. -/
def LiveAt (view : SegmentView F) (k row : Nat) : Prop := view.liveIndices[k]? = some row

theorem LiveAt.row_lt {view : SegmentView F} {k row : Nat} (at_ : view.LiveAt k row) :
    row < view.segment.numRows :=
  (filter_range_getElem? at_).1

theorem LiveAt.lt {view : SegmentView F} {k row : Nat} (at_ : view.LiveAt k row) :
    k < view.liveIndices.length :=
  (List.getElem?_eq_some_iff.mp at_).1

/-- A verdict computed over the live rows lands on the row it was computed for. -/
theorem LiveAt.scatter {view : SegmentView F} {k row : Nat} (at_ : view.LiveAt k row)
    (verdict : Nat → Bool × Bool) :
    (scatter view.isLive verdict (List.range view.segment.numRows) 0).getD row
    (false, false) = verdict k := by
  obtain ⟨inside, live, place⟩ := filter_range_getElem? at_
  rw [List.getD_eq_getElem?_getD, scatter_getElem?, List.getElem?_range inside, List.take_range,
    Nat.min_eq_left inside.le, Nat.zero_add, place]
  simp [live]

end SegmentView

/-! ### The view and the row -/

/-- The value at a live position, none where it is null. -/
def Scalars.read [F64 F] (result : Scalars F) (k : Nat) : Option F :=
  if result.2.getD k false then some (result.1.getD k F64.zero) else none

namespace ViewScalars

/-- A view whose batch agrees with the schema, beside windows that have a validity for each value.
-/
structure Bound (scalars : ViewScalars F) : Prop where
  schema : scalars.schema = scalars.view.segment.batch.schema
  binds : List.Forall₂ (Column.Binds scalars.view.segment.numRows)
    scalars.view.segment.batch.schema.fields
    scalars.view.segment.batch.columns
  windows : ∀ window ∈ scalars.windows, window.1.length = window.2.length

def contextAt [F64 F] (scalars : ViewScalars F) (k row : Nat) : RowContext F where
  schema := scalars.schema
  cells := scalars.view.segment.row row
  windows := scalars.windows.map fun window : Scalars F => Scalars.read window k

end ViewScalars

theorem columnIndex_ok {schema : Schema} {name : String} {index : Nat}
    (found : columnIndex schema name = .ok index) :
    schema.fields.findIdx? (·.name = name) = some index := by
  unfold columnIndex at found
  split at found
  · next some => rw [some, Except.ok.inj found]
  · cases found

namespace ViewScalars.Bound

variable {scalars : ViewScalars F} {name : String} {index : Nat}

theorem column (bound : scalars.Bound) (found : columnIndex scalars.schema name = .ok index) :
    index < scalars.view.segment.batch.columns.length ∧ ∃ field,
    scalars.schema.fields[index]? = some field ∧
      (scalars.view.segment.batch.column index).Binds scalars.view.segment.numRows field := by
  have place := columnIndex_ok found
  obtain ⟨named, _⟩ := List.findIdx?_eq_some_iff_getElem.mp place
  have inside := named
  rw [bound.schema] at inside
  have length := bound.binds.length_eq
  refine ⟨length ▸ inside, scalars.schema.fields[index], List.getElem?_eq_getElem _, ?_⟩
  have pair := bound.binds.get inside (length ▸ inside)
  rw [RecordBatch.column, List.getD_eq_getElem _ _ (length ▸ inside)]
  simpa [bound.schema] using pair

/-- The cell that a name means at a row is the cell of its column. -/
theorem cell [F64 F] (bound : scalars.Bound) (found : columnIndex scalars.schema name = .ok index)
    (k row : Nat) :
    (scalars.contextAt k row).cell name = cellValue (scalars.view.segment.batch.column index) row := by
  have inside := (bound.column found).1
  have place := columnIndex_ok found
  simp only [RowContext.cell, contextAt, place, Segment.row]
  rw [List.getD_eq_getElem?_getD, List.getElem?_map, List.getElem?_eq_getElem inside,
    RecordBatch.column, List.getD_eq_getElem _ _ inside]
  rfl

end ViewScalars.Bound

/-! ### Leaves -/

theorem cellValue_f64 [F64 F] (values : List F) (validity : Option Bitmap) (row : Nat) :
    cellValue (.f64 values validity) row = if Bitmap.validAt validity row then .f64
      (values.getD row F64.zero) else .null := rfl

theorem cellValue_i64 [F64 F] (values : List Int64) (validity : Option Bitmap) (row : Nat) :
    cellValue (.i64 values validity : Column F) row = if Bitmap.validAt validity row then .i64
      (values.getD row 0) else .null := rfl

theorem cellValue_key [F64 F] (codes : List Nat) (validity : Option Bitmap)
    (dictionary : Dictionary) (row : Nat) :
    cellValue (.key codes validity dictionary : Column F) row =
      if Bitmap.validAt validity row then .key (dictionary.value (codes.getD row 0)) else .null := rfl

section Leaves

variable [F64Math F] {scalars : ViewScalars F} {value : ThreeValued}

namespace ViewScalars

/-- A predicate's result tells its truth at every live row. -/
def Tells (scalars : ViewScalars F) (predicate : Predicate F) (value : ThreeValued) : Prop :=
  ∀ k row, scalars.view.LiveAt k row →
    Kleene.Tells (value.truth.get row) (value.falsity.get row)
      (predicate.meaning (scalars.contextAt k row))

/-- Whatever rows the predicate selects, a live one is among them exactly if the predicate is true
there. -/
def Selects (scalars : ViewScalars F) (predicate : Predicate F) : Prop :=
  ∀ bits, evaluatePredicate scalars predicate = .ok bits → ∀ k row, scalars.view.LiveAt k row →
    (bits.get row = true ↔ predicate.meaning (scalars.contextAt k row) = some true)

def Sized (scalars : ViewScalars F) (value : ThreeValued) : Prop :=
  value.truth.length = scalars.view.segment.numRows ∧
    value.falsity.length = scalars.view.segment.numRows

/-- An expression's result is its value at every live row. -/
def Gives (scalars : ViewScalars F) (expr : ScalarExpr F) (result : Scalars F) : Prop :=
  result.1.length = result.2.length ∧
    ∀ k row, scalars.view.LiveAt k row → Scalars.read result k = expr.meaning (scalars.contextAt k row)

/-- No live float cell meets the rounding of the integer that the predicate compares it with, unless
the operator takes the rounding as it takes the integer. -/
def MissesRounding (scalars : ViewScalars F) (predicate : Predicate F) : Prop :=
  ∀ column op v, predicate = .compare column op (.int v) → ∀ k row, scalars.view.LiveAt k row →
    ∀ x, (scalars.contextAt k row).cell column = .f64 x →
      F64.exact x = F64.exact (F64Arith.ofInt64 v : F) →
      op.holdsOrdering .eq = op.holdsOrdering (compare (F64.exact x) (.finite v.toInt))

end ViewScalars

omit [F64Math F] in
theorem leafResult_sized (verdict : Nat → Bool × Bool) : scalars.Sized
      (leafResult scalars.view.segment.numRows verdict) := by
  simp [ViewScalars.Sized, leafResult]

theorem leafResult_tells {predicate : Predicate F} {verdict : Nat → Bool × Bool}
    (right : ∀ k row, scalars.view.LiveAt k row → Kleene.Tells ((verdict row).1 && (verdict row).2)
      ((verdict row).1 && !(verdict row).2) (predicate.meaning (scalars.contextAt k row))) :
    scalars.Tells predicate (leafResult scalars.view.segment.numRows verdict) := by
  intro k row at_
  obtain ⟨truth, falsity⟩ := leafResult_get verdict at_.row_lt
  rw [truth, falsity]
  exact right k row at_

/-- A float against the rounding of an integer compares as against the integer, wherever they
differ. -/
theorem holds_rounded [LawfulRounding F] (op : CmpOp) (v : Int64) (x : F) :
    op.holdsF64 x (F64Arith.ofInt64 v) = op.holdsOrdering (compare (F64.exact x) (.finite v.toInt)) ↔
      (F64.exact x = F64.exact (F64Arith.ofInt64 v : F) →
        op.holdsOrdering .eq = op.holdsOrdering (compare (F64.exact x) (.finite v.toInt))) := by
  rw [CmpOp.holdsF64, cmpF64_eq]
  rcases lt_trichotomy (F64.exact x) (F64.exact (F64Arith.ofInt64 v : F)) with less | same | more
  · rw [compare_lt_iff_lt.mpr less, compare_lt_iff_lt.mpr (LawfulRounding.below v x less)]
    exact ⟨fun _ same => absurd same less.ne, fun _ => rfl⟩
  · rw [compare_eq_iff_eq.mpr same]
    exact ⟨fun holds _ => holds, fun holds => holds same⟩
  · rw [compare_gt_iff_gt.mpr more, compare_gt_iff_gt.mpr (LawfulRounding.above v x more)]
    exact ⟨fun _ same => absurd same more.ne', fun _ => rfl⟩

/-- What a comparison of a stored column with a literal comes out as. -/
theorem compare_result {column : String} {op : CmpOp} {number : Number F}
    (evaluated : evaluate3vl scalars (.compare column op number) = .ok value) :
    ∃ index verdict, columnIndex scalars.schema column = .ok index ∧
      value = leafResult scalars.view.segment.numRows verdict ∧
      ((∃ values validity, scalars.view.segment.batch.column index = .f64 values validity ∧
          verdict = fun row =>
          (Bitmap.validAt validity row, op.holdsF64 (values.getD row F64.zero) number.asF64)) ∨
        ∃ values validity, scalars.view.segment.batch.column index = .i64 values validity ∧
          verdict = fun row => (Bitmap.validAt validity row,
            op.holdsOrdering (compare (Exact.finite (values.getD row 0).toInt) number.exact))) := by
  rw [evaluate3vl] at evaluated
  obtain ⟨index, found, evaluated⟩ := except_bind_ok evaluated
  split at evaluated
  · next values validity shape =>
    exact ⟨index, _, found, (Except.ok.inj evaluated).symm, .inl ⟨values, validity, shape, rfl⟩⟩
  · next values validity shape =>
    refine ⟨index, _, found, (Except.ok.inj evaluated).symm, .inr ⟨values, validity, shape, ?_⟩⟩
    funext row
    cases number with
    | int target => simp only [CmpOp.holds_int64, Number.exact]
    | float target => simp only [cmpI64F64_eq, Number.exact]
  · cases evaluated

theorem compare_tells [LawfulRounding F] {column : String} {op : CmpOp} {number : Number F}
    (bound : scalars.Bound)
    (evaluated : evaluate3vl scalars (.compare column op number) = .ok value)
    (misses : scalars.MissesRounding (.compare column op number)) :
    scalars.Sized value ∧ scalars.Tells (.compare column op number) value := by
  obtain ⟨index, verdict, found, rfl,
    ⟨values, validity, shape, rfl⟩ | ⟨values, validity, shape, rfl⟩⟩ := compare_result evaluated
  all_goals refine ⟨leafResult_sized _, leafResult_tells fun k row at_ => ?_⟩
  all_goals rw [Predicate.meaning]
  all_goals have cell := bound.cell found k row
  · rw [shape, cellValue_f64] at cell
    refine .ofTest ?_ fun x is => ?_
    · rw [cell]
      split <;> simp [*, RowValue.number]
    · rw [cell] at is
      split at is
      · obtain rfl := Option.some.inj is
        next valid =>
        rw [if_pos valid] at cell
        cases number with
        | int v => exact (holds_rounded op v _).mpr (misses column op v rfl k row at_ _ cell)
        | float t => simp only [Number.asF64, Number.exact, CmpOp.holdsF64, cmpF64_eq]
      · cases is
  · rw [shape, cellValue_i64] at cell
    refine .ofTest ?_ fun x is => ?_
    · rw [cell]
      split <;> simp [*, RowValue.number]
    · rw [cell] at is
      split at is
      · obtain rfl := Option.some.inj is
        rfl
      · cases is

theorem keyPredicate_tells {column : String} {negated : Bool} {matches_ : String → Bool}
    {predicate : Predicate F}
    (bound : scalars.Bound)
    (evaluated : keyPredicate scalars.schema scalars.view column negated matches_ = .ok value)
    (means : ∀ at_ : RowContext F,
      predicate.meaning at_ = Kleene.ofTest (at_.cell column).text fun text =>
      matches_ text != negated) :
    scalars.Sized value ∧ scalars.Tells predicate value := by
  unfold keyPredicate at evaluated
  obtain ⟨index, found, evaluated⟩ := except_bind_ok evaluated
  obtain ⟨_, field, _, binds⟩ := bound.column found
  split at evaluated
  · next codes validity dictionary shape =>
    rw [shape] at binds
    have rows : codes.length = scalars.view.segment.numRows := binds.length
    obtain rfl := (Except.ok.inj evaluated).symm
    rw [rows]
    refine ⟨leafResult_sized _, leafResult_tells fun k row at_ => ?_⟩
    have cell := bound.cell found k row
    rw [shape, cellValue_key] at cell
    rw [means, cell]
    refine .ofTest ?_ fun text is => ?_
    · split <;> simp [*, RowValue.text]
    · split at is
      · obtain rfl := Option.some.inj is
        have inside : codes.getD row 0 < dictionary.values.length :=
          binds.codes _ _ _ rfl _ (by
            rw [List.getD_eq_getElem _ _ (rows ▸ at_.row_lt)]
            exact List.getElem_mem _)
        rw [Dictionary.value, List.getD_eq_getElem _ _ inside, List.getD_eq_getElem _ _ (by
            simpa using inside), List.getElem_map]
      · cases is
  · cases evaluated

theorem isNull_tells {column : String} {negated : Bool} (bound : scalars.Bound)
    (evaluated : evaluate3vl scalars (.isNull column negated) = .ok value) :
    scalars.Sized value ∧ scalars.Tells (.isNull column negated) value := by
  rw [evaluate3vl] at evaluated
  obtain ⟨index, found, evaluated⟩ := except_bind_ok evaluated
  obtain rfl := (Except.ok.inj evaluated).symm
  refine ⟨leafResult_sized _, leafResult_tells fun k row at_ => ?_⟩
  rw [Predicate.meaning, bound.cell found]
  have null : (cellValue (scalars.view.segment.batch.column index) row).isNull =
      !(scalars.view.segment.batch.column index).isValid row := by
    unfold cellValue
    split
    · next valid => split <;> simp [RowValue.isNull, valid]
    · next invalid => simp [RowValue.isNull, invalid]
  rw [null, Bool.not_not]
  constructor <;> simp

end Leaves

/-! ### Expressions -/

section Expressions

variable [F64Math F] {scalars : ViewScalars F}

omit [F64Math F] in
theorem Bitmap.get_and (left right : Bitmap)
    (row : Nat) : (left.and right).get row = (left.get row && right.get row) := by
  simp only [Bitmap.get, Bitmap.and, List.getD_eq_getElem?_getD, List.getElem?_zipWith]
  cases left[row]? <;> cases right[row]? <;> simp

omit [F64Math F] in
theorem Bitmap.get_or {left right : Bitmap} {rows row : Nat} (l : left.length = rows)
    (r : right.length = rows) :
    (left.or right).get row = (left.get row || right.get row) := by
  simp only [Bitmap.get, Bitmap.or, List.getD_eq_getElem?_getD, List.getElem?_zipWith]
  rcases lt_or_ge row rows with inside | outside
  · simp [List.getElem?_eq_getElem (l ▸ inside), List.getElem?_eq_getElem (r ▸ inside)]
  · simp [List.getElem?_eq_none (l ▸ outside), List.getElem?_eq_none (r ▸ outside)]

theorem Scalars.read_eq_some {result : Scalars F} {k : Nat} {x : F}
    (read : Scalars.read result k = some x) :
    result.2.getD k false = true ∧ result.1.getD k F64.zero = x := by
  unfold Scalars.read at read
  split at read
  · next valid => exact ⟨valid, Option.some.inj read⟩
  · cases read

theorem column_gives {name : String} {result : Scalars F} (bound : scalars.Bound)
    (evaluated : scalars.column name = .ok result) :
    scalars.Gives (.column name) result := by
  unfold ViewScalars.column at evaluated
  obtain ⟨index, found, evaluated⟩ := except_bind_ok evaluated
  obtain ⟨_, field, _, binds⟩ := bound.column found
  split at evaluated
  · next values validity shape =>
    rw [shape] at binds
    have rows : values.length = scalars.view.segment.numRows := binds.length
    have cell (k row : Nat) := bound.cell found k row
    simp only [shape, cellValue_f64] at cell
    split at evaluated
    · next unmasked =>
      obtain rfl := Except.ok.inj evaluated
      refine ⟨by simp [rows], fun k row at_ => ?_⟩
      have every : scalars.view.liveIndices = List.range scalars.view.segment.numRows := by
        refine List.filter_eq_self.mpr fun other _ => ?_
        simp [SegmentView.isLive, Option.isNone_iff_eq_none.mp unmasked, Bitmap.validAt]
      obtain rfl : k = row := by
        have := at_
        rw [SegmentView.LiveAt, every, List.getElem?_eq_some_iff] at this
        obtain ⟨_, same⟩ := this
        simpa using same
      rw [ScalarExpr.meaning, cell]
      simp only [Scalars.read, List.getD_eq_getElem?_getD, List.getElem?_map,
        List.getElem?_range at_.row_lt, Option.map_some, Option.getD_some]
      split <;> simp [*, RowValue.float]
    · obtain rfl := Except.ok.inj evaluated
      refine ⟨by simp, fun k row at_ => ?_⟩
      rw [SegmentView.LiveAt] at at_
      rw [ScalarExpr.meaning, cell]
      simp only [Scalars.read, List.getD_eq_getElem?_getD, List.getElem?_map, at_, Option.map_some,
        Option.getD_some]
      split <;> simp [*, RowValue.float]
  · cases evaluated
  · cases evaluated

theorem map_read {result : Scalars F} (f : F → F) (k : Nat)
    (sized : result.1.length = result.2.length) :
    Scalars.read (result.1.map f, result.2) k = (Scalars.read result k).map f := by
  unfold Scalars.read
  by_cases valid : result.2.getD k false = true
  · have inside : k < result.1.length := by
      rw [sized]
      by_contra outside
      rw [List.getD_eq_default _ _ (not_lt.mp outside)] at valid
      cases valid
    rw [if_pos valid, if_pos valid, List.getD_eq_getElem _ _ (by simpa using inside),
      List.getD_eq_getElem _ _ inside,
      List.getElem_map, Option.map_some]
  · rw [if_neg valid, if_neg valid, Option.map_none]

/-- Two expressions' results joined value by value. -/
theorem zipWith_read {left right : Scalars F} (f : F → F → F) (k : Nat)
    (l : left.1.length = left.2.length)
    (r : right.1.length = right.2.length) :
    Scalars.read (left.1.zipWith f right.1, left.2.zipWith (· && ·) right.2) k =
      (Scalars.read left k).bind fun a => (Scalars.read right k).map fun b => f a b := by
  unfold Scalars.read
  simp only [List.getD_eq_getElem?_getD, List.getElem?_zipWith]
  rcases lt_or_ge k left.2.length with inside | outside
  · rcases lt_or_ge k right.2.length with inside' | outside'
    · simp only [List.getElem?_eq_getElem inside, List.getElem?_eq_getElem inside',
        List.getElem?_eq_getElem (l ▸ inside),
        List.getElem?_eq_getElem (r ▸ inside'), Option.getD_some]
      cases left.2[k] <;> cases right.2[k] <;> simp
    · rw [List.getElem?_eq_none outside']
      cases left.2[k]? <;> simp
  · rw [List.getElem?_eq_none outside]
    simp

def ViewScalars.Arms (scalars : ViewScalars F) (arm : Predicate F × ScalarExpr F)
    (result : Bitmap × Scalars F) : Prop :=
  (∀ k row, scalars.view.LiveAt k row →
    (result.1.get row = true ↔ arm.1.meaning (scalars.contextAt k row) = some true)) ∧
    scalars.Gives arm.2 result.2

theorem chooseArm_read {k row : Nat} {whens : List (Predicate F × ScalarExpr F)}
    {arms : List (Bitmap × Scalars F)}
    {otherwise : Option (ScalarExpr F)} {fallback : Option (Scalars F)}
    (at_ : scalars.view.LiveAt k row)
    (given : List.Forall₂ scalars.Arms whens arms)
    (last : Option.Rel scalars.Gives otherwise fallback) :
    (if (chooseArm row k fallback arms).2 then some (chooseArm row k fallback arms).1 else none) =
      whenMeaning (scalars.contextAt k row) whens
        (elseMeaning (scalars.contextAt k row) otherwise) := by
  induction given with
  | nil =>
    rw [whenMeaning]
    cases last with
    | none => simp [chooseArm, elseMeaning]
    | some gives =>
      rw [elseMeaning, ← gives.2 k row at_, chooseArm, Scalars.read]
  | @cons arm result whens arms arm_ _ ih =>
    obtain ⟨condition, value⟩ := arm
    obtain ⟨bits, values, validity⟩ := result
    rw [whenMeaning, armMeaning, chooseArm]
    by_cases holds : bits.get row = true
    · rw [if_pos holds, if_pos ((arm_.1 k row at_).mp holds), ← arm_.2.2 k row at_]
      rfl
    · rw [if_neg holds, if_neg fun means => holds ((arm_.1 k row at_).mpr means)]
      exact ih

theorem args_read {k row : Nat} {args : List (ScalarExpr F)} {results : List (Scalars F)}
    (at_ : scalars.view.LiveAt k row)
    (given : List.Forall₂ scalars.Gives args results) :
    argMeanings (scalars.contextAt k row) args =
      if results.all fun arg => arg.2.getD k false then some
        (results.map fun arg => arg.1.getD k F64.zero) else none := by
  induction given with
  | nil => simp [argMeanings]
  | cons gives _ ih =>
    rw [argMeanings, ih, ← gives.2 k row at_, Scalars.read, List.all_cons]
    split
    · next valid =>
      rw [valid, Bool.true_and, Option.bind_some, apply_ite (Option.map _)]
      rfl
    · next invalid => rw [Bool.eq_false_iff.mpr invalid, Bool.false_and, if_neg Bool.false_ne_true,
        Option.bind_none]

/-- A comparison of two expressions, computed over the live rows and scattered back. -/
theorem compareExpr_tells {left right : ScalarExpr F} {l r : Scalars F} (op : CmpOp)
    (gives : scalars.Gives left l)
    (gives' : scalars.Gives right r) :
    scalars.Tells (.compareExpr left op right) (leafResult scalars.view.segment.numRows fun row =>
      (scatter scalars.view.isLive (fun livePosition =>
        (l.2.getD livePosition false && r.2.getD livePosition false,
          op.holdsOrdering (cmpF64 (l.1.getD livePosition F64.zero) (r.1.getD livePosition F64.zero))))
        (List.range scalars.view.segment.numRows) 0).getD row (false, false)) := by
  refine leafResult_tells fun k row at_ => ?_
  rw [at_.scatter, Predicate.meaning, ← gives.2 k row at_, ← gives'.2 k row at_]
  refine .ofTest ?_ fun sides is => ?_
  · unfold Scalars.read
    cases l.2.getD k false <;> cases r.2.getD k false <;> simp
  · obtain ⟨a, leftIs, is⟩ := Option.bind_eq_some_iff.mp is
    obtain ⟨b, rightIs, rfl⟩ := Option.map_eq_some_iff.mp is
    rw [(Scalars.read_eq_some leftIs).2, (Scalars.read_eq_some rightIs).2, cmpF64_eq]

end Expressions

/-! ### The whole tree -/

section Tree

variable [F64Math F] {scalars : ViewScalars F}

mutual

theorem evaluateScalar_gives [LawfulRounding F] (bound : scalars.Bound) (expr : ScalarExpr F)
    {result : Scalars F}
    (evaluated : evaluateScalar scalars expr = .ok result) (kernels : expr.usesRegistered = false)
    (misses : ∀ part ∈ expr.parts, scalars.MissesRounding part) : scalars.Gives expr result := by
  match expr with
  | .column name =>
    rw [evaluateScalar] at evaluated
    exact column_gives bound evaluated
  | .window index =>
    rw [evaluateScalar] at evaluated
    obtain rfl := Except.ok.inj evaluated
    refine ⟨?_, fun k row at_ => ?_⟩
    · rw [List.getD_eq_getElem?_getD]
      cases found : scalars.windows[index]? with
      | none => rfl
      | some window => exact bound.windows window (List.mem_of_getElem? found)
    · rw [ScalarExpr.meaning, ViewScalars.contextAt, List.getElem?_map, List.getD_eq_getElem?_getD]
      cases scalars.windows[index]? <;> simp [Scalars.read]
  | .literal x =>
    rw [evaluateScalar] at evaluated
    obtain rfl := Except.ok.inj evaluated
    refine ⟨by simp, fun k row at_ => ?_⟩
    simp [ScalarExpr.meaning, Scalars.read, List.getD_eq_getElem?_getD, at_.lt]
  | .negate inner =>
    rw [evaluateScalar] at evaluated
    obtain ⟨⟨values, validity⟩, first, evaluated⟩ := except_bind_ok evaluated
    obtain rfl := Except.ok.inj evaluated
    rw [ScalarExpr.usesRegistered] at kernels
    rw [ScalarExpr.parts] at misses
    have gives := evaluateScalar_gives bound inner first kernels misses
    refine ⟨by simpa using gives.1, fun k row at_ => ?_⟩
    rw [ScalarExpr.meaning, ← gives.2 k row at_]
    exact map_read F64Math.neg k gives.1
  | .binary op left right =>
    rw [evaluateScalar] at evaluated
    obtain ⟨⟨lv, lval⟩, first, evaluated⟩ := except_bind_ok evaluated
    obtain ⟨⟨rv, rval⟩, second, evaluated⟩ := except_bind_ok evaluated
    obtain rfl := Except.ok.inj evaluated
    rw [ScalarExpr.usesRegistered, Bool.or_eq_false_iff] at kernels
    rw [ScalarExpr.parts] at misses
    have l := evaluateScalar_gives bound left first kernels.1 fun part member =>
      misses part (List.mem_append_left _ member)
    have r := evaluateScalar_gives bound right second kernels.2 fun part member =>
      misses part (List.mem_append_right _ member)
    refine ⟨?_, fun k row at_ => ?_⟩
    · have := l.1
      have := r.1
      simp_all
    · rw [ScalarExpr.meaning, ← l.2 k row at_, ← r.2 k row at_]
      exact zipWith_read op.apply k l.1 r.1
  | .call function args =>
    rw [evaluateScalar] at evaluated
    obtain ⟨results, first, evaluated⟩ := except_bind_ok evaluated
    obtain rfl := Except.ok.inj evaluated
    rw [ScalarExpr.usesRegistered] at kernels
    rw [ScalarExpr.parts] at misses
    have given := evaluateScalars_gives bound args first kernels misses
    refine ⟨by simp, fun k row at_ => ?_⟩
    rw [ScalarExpr.meaning, args_read at_ given]
    simp only [Scalars.read, List.getD_eq_getElem?_getD, List.getElem?_map,
      List.getElem?_range at_.lt, Option.map_some, Option.getD_some]
    split
    · rw [Option.map_some]
      congr 2
      funext i
      rw [List.getElem?_map]
      cases results[i]? <;> simp
    · rfl
  | .case whens otherwise =>
    rw [evaluateScalar] at evaluated
    obtain ⟨arms, first, evaluated⟩ := except_bind_ok evaluated
    obtain ⟨fallback, second, evaluated⟩ := except_bind_ok evaluated
    obtain rfl := Except.ok.inj evaluated
    rw [ScalarExpr.usesRegistered, Bool.or_eq_false_iff] at kernels
    rw [ScalarExpr.parts] at misses
    have given := evaluateWhens_gives bound whens first kernels.1 fun part member =>
      misses part (List.mem_append_left _ member)
    have last := evaluateElse_gives bound otherwise second kernels.2 fun part member =>
      misses part (List.mem_append_right _ member)
    refine ⟨by simp, fun k row at_ => ?_⟩
    rw [ScalarExpr.meaning, ← chooseArm_read at_ given last]
    have place : (scalars.view.liveIndices.zipIdx)[k]? = some (row, k) := by
      rw [List.getElem?_zipIdx, at_]
      simp
    simp only [Scalars.read, List.getD_eq_getElem?_getD, List.getElem?_map, place, Option.map_some,
      Option.getD_some]
  | .registered name args => simp [ScalarExpr.usesRegistered] at kernels

theorem evaluateScalars_gives [LawfulRounding F] (bound : scalars.Bound)
    (args : List (ScalarExpr F)) {results : List (Scalars F)}
    (evaluated : evaluateScalars scalars args = .ok results) (kernels : anyUsesRegistered args = false)
    (misses : ∀ part ∈ argParts args, scalars.MissesRounding part) :
    List.Forall₂ scalars.Gives args results := by
  match args with
  | [] =>
    rw [evaluateScalars] at evaluated
    obtain rfl := Except.ok.inj evaluated
    exact .nil
  | expr :: rest =>
    rw [evaluateScalars] at evaluated
    obtain ⟨value, first, evaluated⟩ := except_bind_ok evaluated
    obtain ⟨values, second, evaluated⟩ := except_bind_ok evaluated
    obtain rfl := Except.ok.inj evaluated
    rw [anyUsesRegistered, Bool.or_eq_false_iff] at kernels
    rw [argParts] at misses
    exact .cons (evaluateScalar_gives bound expr first kernels.1 fun part member =>
      misses part (List.mem_append_left _ member))
      (evaluateScalars_gives bound rest second kernels.2 fun part member =>
        misses part (List.mem_append_right _ member))

theorem evaluateWhens_gives [LawfulRounding F] (bound : scalars.Bound)
    (whens : List (Predicate F × ScalarExpr F))
    {arms : List (Bitmap × Scalars F)} (evaluated : evaluateWhens scalars whens = .ok arms)
    (kernels : whensUseRegistered whens = false)
    (misses : ∀ part ∈ whenParts whens, scalars.MissesRounding part) :
    List.Forall₂ scalars.Arms whens arms := by
  match whens with
  | [] =>
    rw [evaluateWhens] at evaluated
    obtain rfl := Except.ok.inj evaluated
    exact .nil
  | (condition, value) :: rest =>
    rw [evaluateWhens] at evaluated
    obtain ⟨matched, first, evaluated⟩ := except_bind_ok evaluated
    obtain ⟨result, second, evaluated⟩ := except_bind_ok evaluated
    obtain ⟨arms, third, evaluated⟩ := except_bind_ok evaluated
    obtain rfl := Except.ok.inj evaluated
    rw [whensUseRegistered, Bool.or_eq_false_iff, Bool.or_eq_false_iff] at kernels
    rw [whenParts] at misses
    have tells := (evaluate3vl_tells bound condition first kernels.1.1 fun part member =>
      misses part (List.mem_append_left _ (List.mem_append_left _ member))).2
    have gives := evaluateScalar_gives bound value second kernels.1.2 fun part member =>
      misses part (List.mem_append_left _ (List.mem_append_right _ member))
    exact .cons ⟨fun k row at_ => (tells k row at_).true_iff, gives⟩
      (evaluateWhens_gives bound rest third kernels.2 fun part member =>
        misses part (List.mem_append_right _ member))

theorem evaluateElse_gives [LawfulRounding F] (bound : scalars.Bound)
    (otherwise : Option (ScalarExpr F)) {fallback : Option (Scalars F)}
    (evaluated : evaluateElse scalars otherwise = .ok fallback)
    (kernels : elseUsesRegistered otherwise = false)
    (misses : ∀ part ∈ elseParts otherwise, scalars.MissesRounding part) :
    Option.Rel scalars.Gives otherwise fallback := by
  match otherwise with
  | none =>
    rw [evaluateElse] at evaluated
    obtain rfl := Except.ok.inj evaluated
    exact .none
  | some expr =>
    rw [evaluateElse] at evaluated
    obtain ⟨value, first, evaluated⟩ := except_bind_ok evaluated
    obtain rfl := Except.ok.inj evaluated
    rw [elseUsesRegistered] at kernels
    rw [elseParts] at misses
    exact .some (evaluateScalar_gives bound expr first kernels misses)

theorem evaluate3vl_tells [LawfulRounding F] (bound : scalars.Bound) (predicate : Predicate F)
    {value : ThreeValued}
    (evaluated : evaluate3vl scalars predicate = .ok value) (kernels : predicate.usesRegistered = false)
    (misses : ∀ part ∈ predicate.parts, scalars.MissesRounding part) : scalars.Sized value ∧
    scalars.Tells predicate value := by
  match predicate with
  | .compare column op number =>
      exact compare_tells bound evaluated (misses _ (by simp [Predicate.parts]))
  | .keyEquals column text negated =>
    rw [evaluate3vl] at evaluated
    exact keyPredicate_tells bound evaluated fun at_ => by simp [Predicate.meaning, eq_comm]
  | .keyIn column values negated =>
    rw [evaluate3vl] at evaluated
    exact keyPredicate_tells bound evaluated fun at_ => by simp [Predicate.meaning, List.any_eq]
  | .keyLike column pattern negated =>
    rw [evaluate3vl] at evaluated
    exact keyPredicate_tells bound evaluated fun at_ => by rw [Predicate.meaning]
  | .isNull column negated => exact isNull_tells bound evaluated
  | .compareExpr left op right =>
    rw [evaluate3vl] at evaluated
    obtain ⟨⟨lv, lval⟩, first, evaluated⟩ := except_bind_ok evaluated
    obtain ⟨⟨rv, rval⟩, second, evaluated⟩ := except_bind_ok evaluated
    rw [Predicate.usesRegistered, Bool.or_eq_false_iff] at kernels
    rw [Predicate.parts] at misses
    have l := evaluateScalar_gives bound left first kernels.1 fun part member =>
      misses part (List.mem_cons_of_mem _ (List.mem_append_left _ member))
    have r := evaluateScalar_gives bound right second kernels.2 fun part member =>
      misses part (List.mem_cons_of_mem _ (List.mem_append_right _ member))
    have tells := compareExpr_tells op l r
    have same := Except.ok.inj evaluated
    subst same
    exact ⟨leafResult_sized _, tells⟩
  | .and left right =>
    rw [evaluate3vl] at evaluated
    obtain ⟨l, first, evaluated⟩ := except_bind_ok evaluated
    obtain ⟨r, second, evaluated⟩ := except_bind_ok evaluated
    obtain rfl := Except.ok.inj evaluated
    rw [Predicate.usesRegistered, Bool.or_eq_false_iff] at kernels
    rw [Predicate.parts] at misses
    obtain ⟨lsize, ltells⟩ := evaluate3vl_tells bound left first kernels.1 fun part member =>
      misses part (List.mem_cons_of_mem _ (List.mem_append_left _ member))
    obtain ⟨rsize, rtells⟩ := evaluate3vl_tells bound right second kernels.2 fun part member =>
      misses part (List.mem_cons_of_mem _ (List.mem_append_right _ member))
    refine ⟨?_, fun k row at_ => ?_⟩
    · simp [ViewScalars.Sized, ThreeValued.and, Bitmap.and, Bitmap.or, lsize.1, lsize.2, rsize.1,
        rsize.2]
    rw [Predicate.meaning, ThreeValued.and, Bitmap.get_and, Bitmap.get_or lsize.2 rsize.2]
    exact (ltells k row at_).and (rtells k row at_)
  | .or left right =>
    rw [evaluate3vl] at evaluated
    obtain ⟨l, first, evaluated⟩ := except_bind_ok evaluated
    obtain ⟨r, second, evaluated⟩ := except_bind_ok evaluated
    obtain rfl := Except.ok.inj evaluated
    rw [Predicate.usesRegistered, Bool.or_eq_false_iff] at kernels
    rw [Predicate.parts] at misses
    obtain ⟨lsize, ltells⟩ := evaluate3vl_tells bound left first kernels.1 fun part member =>
      misses part (List.mem_cons_of_mem _ (List.mem_append_left _ member))
    obtain ⟨rsize, rtells⟩ := evaluate3vl_tells bound right second kernels.2 fun part member =>
      misses part (List.mem_cons_of_mem _ (List.mem_append_right _ member))
    refine ⟨?_, fun k row at_ => ?_⟩
    · simp [ViewScalars.Sized, ThreeValued.or, Bitmap.and, Bitmap.or, lsize.1, lsize.2, rsize.1,
        rsize.2]
    rw [Predicate.meaning, ThreeValued.or, Bitmap.get_or lsize.1 rsize.1, Bitmap.get_and]
    exact (ltells k row at_).or (rtells k row at_)
  | .not inner =>
    rw [evaluate3vl] at evaluated
    obtain ⟨value, first, evaluated⟩ := except_bind_ok evaluated
    obtain rfl := Except.ok.inj evaluated
    rw [Predicate.usesRegistered] at kernels
    rw [Predicate.parts] at misses
    obtain ⟨size, tells⟩ := evaluate3vl_tells bound inner first kernels fun part member =>
      misses part (List.mem_cons_of_mem _ member)
    refine ⟨size.symm, fun k row at_ => ?_⟩
    rw [Predicate.meaning]
    exact (tells k row at_).not

end

end Tree

end TallyDB
