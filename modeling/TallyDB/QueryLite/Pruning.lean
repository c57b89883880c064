import TallyDB.QueryLite.Evaluate
import TallyDB.Logic.Except
import TallyDB.QueryLite.Join
import TallyDB.StorageLite.Built

/-!
# Pruning is sound

A segment that holds a row where the predicate is true is never ruled out by its zone maps.
So whatever execution returns without pruning it returns with it, joins included. Pruning
only hides what evaluating a segment that it skips would have refused.
-/

namespace TallyDB

variable {F : Type}

/-! ### Zone maps bound the valid values -/

section Ranges

variable [F64 F]

/-- A value that a running range has taken in. -/
def Within (range : Option (F × F)) (hasNan : Bool) (value : F) : Prop :=
  (F64.exact value = .nan → hasNan = true) ∧
    (F64.exact value ≠ .nan → ∃ bounds ∈ range, F64.exact bounds.1 ≤ F64.exact value ∧
      F64.exact value ≤ F64.exact bounds.2)

theorem exact_min (left right : F) : F64.exact (F64.min left right) ≤ F64.exact left ∧ F64.exact
      (F64.min left right) ≤ F64.exact right := by
  unfold F64.min
  split
  · next less => exact ⟨less.le, le_rfl⟩
  · next above => exact ⟨le_rfl, not_lt.mp above⟩

theorem exact_max (left right : F) : F64.exact left ≤ F64.exact (F64.max left right) ∧
    F64.exact right ≤ F64.exact (F64.max left right) := by
  unfold F64.max
  split
  · next less => exact ⟨less.le, le_rfl⟩
  · next above => exact ⟨le_rfl, not_lt.mp above⟩

theorem f64Range_cons (value : F) (valid : Bool) (rest : List (F × Bool)) (range : Option (F × F))
    (hasNan : Bool) :
    f64Range ((value, valid) :: rest) range hasNan =
      if !valid then f64Range rest range hasNan
      else if F64.isNan value then f64Range rest range true
      else f64Range rest
        (some (range.elim (value, value) fun bounds =>
        (F64.min bounds.1 value, F64.max bounds.2 value))) hasNan := by
  rw [f64Range.eq_def]
  cases range <;> rfl

omit [F64 F] in
theorem i64Range_cons (value : Int64) (valid : Bool) (rest : List (Int64 × Bool))
    (range : Option (Int64 × Int64)) :
    i64Range ((value, valid) :: rest) range =
      if !valid then i64Range rest range
      else i64Range rest (some (range.elim (value, value) fun bounds =>
        (if value < bounds.1 then value else bounds.1,
        if bounds.2 < value then value else bounds.2))) := by
  rw [i64Range.eq_def]
  cases range <;> rfl

theorem f64Range_within {cells : List (F × Bool)} {range : Option (F × F)} {hasNan : Bool} {value : F}
    (seen : Within range hasNan value ∨ (value, true) ∈ cells) :
    Within (f64Range cells range hasNan).1 (f64Range cells range hasNan).2 value := by
  induction cells generalizing range hasNan with
  | nil => exact seen.resolve_right (by simp)
  | cons cell cells ih =>
    obtain ⟨first, valid⟩ := cell
    rw [f64Range_cons]
    cases valid with
    | false =>
      refine ih (seen.imp_right fun member => ?_)
      simpa using member
    | true =>
      by_cases nan : F64.isNan first = true
      · rw [if_neg (by simp), if_pos nan]
        refine ih ?_
        rcases seen with ⟨marked, inside⟩ | member
        · exact .inl ⟨fun _ => rfl, inside⟩
        · rcases List.mem_cons.mp member with same | later
          · obtain rfl := (Prod.mk.inj same).1
            exact .inl ⟨fun _ => rfl, fun number => absurd (of_decide_eq_true nan) number⟩
          · exact .inr later
      · rw [if_neg (by simp), if_neg nan]
        refine ih ?_
        rcases seen with ⟨marked, inside⟩ | member
        · refine .inl ⟨marked, fun number => ?_⟩
          obtain ⟨bounds, rfl, low, high⟩ := inside number
          exact ⟨_, rfl, (exact_min _ _).1.trans low, high.trans (exact_max _ _).1⟩
        · rcases List.mem_cons.mp member with same | later
          · obtain rfl := (Prod.mk.inj same).1
            refine .inl ⟨fun isNan => absurd (decide_eq_true isNan) nan, fun _ => ⟨_, rfl, ?_⟩⟩
            cases range with
            | none => exact ⟨le_rfl, le_rfl⟩
            | some bounds => exact ⟨(exact_min _ _).2, (exact_max _ _).2⟩
          · exact .inr later

theorem i64Range_within {cells : List (Int64 × Bool)} {range : Option (Int64 × Int64)} {value : Int64}
    (seen : (∃ bounds ∈ range, bounds.1 ≤ value ∧ value ≤ bounds.2) ∨ (value, true) ∈ cells) :
    ∃ bounds ∈ i64Range cells range, bounds.1 ≤ value ∧ value ≤ bounds.2 := by
  induction cells generalizing range with
  | nil => exact seen.resolve_right (by simp)
  | cons cell cells ih =>
    obtain ⟨first, valid⟩ := cell
    rw [i64Range_cons]
    cases valid with
    | false =>
      refine ih (seen.imp_right fun member => ?_)
      simpa using member
    | true =>
      refine ih ?_
      rcases seen with ⟨bounds, rfl, low, high⟩ | member
      · refine .inl ⟨_, rfl, ?_, ?_⟩ <;> simp only [Option.elim]
        · split
          · next less => exact Int64.le_trans (Int64.le_of_lt less) low
          · exact low
        · split
          · next less => exact Int64.le_trans high (Int64.le_of_lt less)
          · exact high
      · rcases List.mem_cons.mp member with same | later
        · obtain rfl := (Prod.mk.inj same).1
          refine .inl ⟨_, rfl, ?_⟩
          cases range with
          | none => exact ⟨Int64.le_refl _, Int64.le_refl _⟩
          | some bounds =>
            simp only [Option.elim]
            constructor
            · split
              · exact Int64.le_refl _
              · next above => exact Int64.not_lt.mp above
            · split
              · exact Int64.le_refl _
              · next below => exact Int64.not_lt.mp below
        · exact .inr later

theorem withValidity_mem {α : Type} {values : List α} {isValid : Nat → Bool} {row : Nat}
    (inside : row < values.length)
    (valid : isValid row = true) : (values[row], true) ∈ withValidity values isValid := by
  refine List.mem_map.mpr ⟨(values[row], row), ?_, Prod.ext rfl valid⟩
  exact List.mem_zipIdx_iff_getElem?.mpr (by simp [inside])

/-- The zone map of a float column bounds each of its valid values. -/
theorem computeZoneMap_f64 {values : List F} {validity : Option Bitmap} {row : Nat}
    (inside : row < values.length)
    (valid : Bitmap.validAt validity row = true) :
    ∃ min max hasNan, computeZoneMap (.f64 values validity) = some (.f64 min max hasNan) ∧ Within
      (some (min, max)) hasNan values[row] := by
  have within := @f64Range_within F _ _ none false _
    (.inr (withValidity_mem inside (show (Column.f64 values validity).isValid row = true from valid)))
  unfold computeZoneMap
  simp only
  rcases found : f64Range (withValidity values (Column.f64 values validity).isValid) none false with
    ⟨range, hasNan⟩
  rw [found] at within
  cases range with
  | some bounds => exact ⟨bounds.1, bounds.2, hasNan, rfl, within⟩
  | none =>
    have nan : F64.exact values[row] = .nan := by
      by_contra number
      obtain ⟨bounds, absent, _⟩ := within.2 number
      cases absent
    obtain rfl := within.1 nan
    exact ⟨F64.nan, F64.nan, true, rfl, fun _ => rfl, fun number => absurd nan number⟩

theorem computeZoneMap_i64 {values : List Int64} {validity : Option Bitmap} {row : Nat}
    (inside : row < values.length)
    (valid : Bitmap.validAt validity row = true) :
    ∃ min max, computeZoneMap (F := F) (.i64 values validity) = some (.i64 min max) ∧
    min ≤ values[row] ∧ values[row] ≤ max := by
  obtain ⟨bounds, found, low, high⟩ := @i64Range_within _ none _
    (.inr (withValidity_mem inside (show (Column.i64 values validity : Column F).isValid row =
      true from valid)))
  have map : computeZoneMap (F := F) (.i64 values validity) =
      (i64Range (withValidity values (Column.i64 values validity : Column F).isValid) none).map
        fun bounds => .i64 bounds.1 bounds.2 := rfl
  exact ⟨bounds.1, bounds.2, by rw [map, Option.mem_def.mp found]; rfl, low, high⟩

/-! ### Comparisons against the bounds -/

theorem floatInterval_sound {op : CmpOp} {min max value target : F} {hasNan : Bool}
    (within : Within (some (min, max)) hasNan value)
    (number : F64.isNan target = false) (holds : op.holdsF64 value target = true) :
    floatIntervalMayHold op min max hasNan target = true := by
  have number : F64.exact target ≠ .nan := of_decide_eq_false number
  have below : F64.exact target < .nan := Exact.lt_nan_of_ne number
  by_cases nan : F64.exact value = .nan
  · have marked := within.1 nan
    cases op <;>
      simp only [CmpOp.holdsF64, CmpOp.holdsOrdering, cmpF64_eq, nan, decide_eq_true_eq, ne_eq,
        compare_eq_iff_eq, compare_lt_iff_lt,
        compare_gt_iff_gt] at holds <;>
      simp only [floatIntervalMayHold, marked, Bool.true_or]
    · exact absurd holds.symm number
    · exact absurd holds (not_lt.mpr below.le)
    · exact absurd below holds
  · obtain ⟨bounds, same, low, high⟩ := within.2 nan
    obtain rfl := Option.some.inj same
    cases op <;>
      simp only [CmpOp.holdsF64, CmpOp.holdsOrdering, cmpF64_eq, decide_eq_true_eq, ne_eq,
        compare_eq_iff_eq, compare_lt_iff_lt,
        compare_gt_iff_gt, not_lt] at holds <;>
      simp only [floatIntervalMayHold, cmpF64_eq, Bool.and_eq_true, Bool.or_eq_true,
        Bool.not_eq_true', decide_eq_true_eq, ne_eq,
        compare_eq_iff_eq, compare_lt_iff_lt, compare_gt_iff_gt, not_lt, Bool.and_eq_false_iff,
        decide_eq_false_iff_not]
    · exact ⟨holds ▸ low, holds ▸ high⟩
    · refine .inr (not_and_or.mp fun both => holds (le_antisymm ?_ ?_))
      · exact both.2 ▸ high
      · exact both.1 ▸ low
    · exact low.trans_lt holds
    · exact low.trans holds
    · exact .inr (holds.trans_le high)
    · exact .inr (holds.trans high)

theorem interval_sound {op : CmpOp} {min max value target : Int64} (low : min ≤ value)
    (high : value ≤ max)
    (holds : op.holds value target = true) : intervalMayHold op min max target = true := by
  cases op <;> simp only [CmpOp.holds, decide_eq_true_eq] at holds <;>
    simp only [intervalMayHold, Bool.and_eq_true, Bool.not_eq_true', decide_eq_true_eq,
      Bool.and_eq_false_iff, decide_eq_false_iff_not]
  · exact holds ▸ ⟨low, high⟩
  · refine not_and_or.mp fun both => holds (Int64.le_antisymm ?_ ?_)
    · exact both.2 ▸ high
    · exact both.1 ▸ low
  · exact Int64.lt_of_le_of_lt low holds
  · exact Int64.le_trans low holds
  · exact Int64.lt_of_lt_of_le holds high
  · exact Int64.le_trans holds high

end Ranges

/-! ### A true row is never ruled out -/

/-- The zone maps of a handle stand for the columns that its schema's names reach. -/
structure Judges [F64 F] (schema : Schema) (handle : SegmentHandle F)
    (scalars : ViewScalars F) : Prop where
  reaches : ∀ column index, schema.fields.findIdx? (·.name = column) = some index →
    columnIndex scalars.schema column = .ok index
  maps : ∀ index field, schema.fields[index]? = some field →
    handle.zoneMap index = computeZoneMap (scalars.view.segment.batch.column index)
  typed : ∀ index field, schema.fields[index]? = some field →
    (scalars.view.segment.batch.column index).columnType = field.columnType
  rows : ∀ index field, schema.fields[index]? = some field →
    (scalars.view.segment.batch.column index).length = scalars.view.segment.numRows

theorem leafResult_true {rows row : Nat} {verdict : Nat → Bool × Bool}
    (holds : (leafResult rows verdict).truth.get row = true) :
    row < rows ∧ (verdict row).1 = true ∧ (verdict row).2 = true := by
  have inside : row < rows := by
    by_contra outside
    have beyond : (leafResult rows verdict).truth[row]? = none := by
      rw [List.getElem?_eq_none]
      simp only [leafResult, List.length_map, List.length_range]
      omega
    rw [Bitmap.get, List.getD_eq_getElem?_getD, beyond] at holds
    cases holds
  rw [(leafResult_get verdict inside).1, Bool.and_eq_true] at holds
  exact ⟨inside, holds⟩

theorem Bitmap.and_true {left right : Bitmap} {row : Nat} (holds : (left.and right).get row = true) :
    left.get row = true ∧ right.get row = true := by
  rw [Bitmap.get_and] at holds
  exact Bool.and_eq_true_iff.mp holds

theorem Bitmap.or_true {left right : Bitmap} {row : Nat} (holds : (left.or right).get row = true) :
    left.get row = true ∨ right.get row = true := by
  simp only [Bitmap.get, Bitmap.or, List.getD_eq_getElem?_getD, List.getElem?_zipWith] at holds ⊢
  cases l : left[row]? <;> cases r : right[row]? <;> simp_all

section Sound

variable [F64Math F] {schema : Schema} {handle : SegmentHandle F} {scalars : ViewScalars F}

omit [F64Math F] in
/-- What judges a test is the zone map of the column that its name reaches, no key. -/
theorem judgedBy_some {column : String} {zoneMap : Option (ZoneMap F)}
    (judged : judgedBy schema handle column = some zoneMap) :
    ∃ index field, schema.fields.findIdx? (·.name = column) = some index ∧
    schema.fields[index]? = some field ∧
      field.columnType ≠ .key ∧ handle.zoneMap index = zoneMap := by
  unfold judgedBy at judged
  split at judged
  · cases judged
  next index found =>
  obtain ⟨inside, _⟩ := List.findIdx?_eq_some_iff_getElem.mp found
  have field := List.getElem?_eq_getElem inside
  split at judged
  · cases judged
  next notKey =>
  refine ⟨index, _, found, field, fun key => notKey ?_, Option.some.inj judged⟩
  rw [field]
  simpa using key

theorem Judges.compare (judges : Judges schema handle scalars) {column : String} {op : CmpOp}
    {value : Number F} {result : ThreeValued}
    (evaluated : evaluate3vl scalars (.compare column op value) = .ok result) {row : Nat}
    (holds : result.truth.get row = true)
    {zoneMap : Option (ZoneMap F)} (judged : judgedBy schema handle column = some zoneMap) :
    ∃ bounds, zoneMap = some bounds ∧ zoneMayHold op value bounds = true := by
  obtain ⟨index, field, found, declared, notKey, rfl⟩ := judgedBy_some judged
  have typed := judges.typed index field declared
  have rows := judges.rows index field declared
  rw [judges.maps index field declared]
  rw [evaluate3vl, judges.reaches column index found] at evaluated
  simp only [bind, Except.bind] at evaluated
  cases shape : scalars.view.segment.batch.column index with
  | f64 values validity =>
    rw [shape] at evaluated rows
    obtain rfl := Except.ok.inj evaluated
    obtain ⟨inside, valid, held⟩ := leafResult_true holds
    have stored : row < values.length := lt_of_lt_of_eq inside rows.symm
    obtain ⟨min, max, hasNan, map, within⟩ := computeZoneMap_f64 stored valid
    refine ⟨_, map, ?_⟩
    rw [List.getD_eq_getElem _ _ stored] at held
    rw [zoneMayHold]
    split
    · rfl
    · next number => exact floatInterval_sound within (Bool.eq_false_iff.mpr number) held
  | i64 values validity =>
    rw [shape] at evaluated rows
    obtain rfl := Except.ok.inj evaluated
    obtain ⟨inside, valid, held⟩ := leafResult_true holds
    have stored : row < values.length := lt_of_lt_of_eq inside rows.symm
    obtain ⟨min, max, map, low, high⟩ := @computeZoneMap_i64 F _ values validity row stored valid
    refine ⟨_, map, ?_⟩
    rw [List.getD_eq_getElem _ _ stored] at held
    cases value with
    | int target => exact interval_sound low high held
    | float target => rfl
  | key codes validity dictionary =>
    rw [shape] at typed
    exact absurd typed.symm notKey

theorem Judges.isNotNull (judges : Judges schema handle scalars) {column : String}
    {result : ThreeValued}
    (evaluated : evaluate3vl scalars (.isNull column true) = .ok result) {row : Nat}
    (holds : result.truth.get row = true)
    {zoneMap : Option (ZoneMap F)} (judged : judgedBy schema handle column = some zoneMap) :
    zoneMap.isSome = true := by
  obtain ⟨index, field, found, declared, notKey, rfl⟩ := judgedBy_some judged
  have typed := judges.typed index field declared
  have rows := judges.rows index field declared
  rw [judges.maps index field declared]
  rw [evaluate3vl, judges.reaches column index found] at evaluated
  obtain rfl := Except.ok.inj evaluated
  obtain ⟨inside, _, held⟩ := leafResult_true holds
  have valid : (scalars.view.segment.batch.column index).isValid row = true := by simpa using held
  cases shape : scalars.view.segment.batch.column index with
  | f64 values validity =>
    rw [shape] at rows valid
    have valid : Bitmap.validAt validity row = true := valid
    obtain ⟨min, max, hasNan, map, _⟩ :=
      computeZoneMap_f64 (lt_of_lt_of_eq inside rows.symm : row < values.length) valid
    rw [map]
    rfl
  | i64 values validity =>
    rw [shape] at rows valid
    obtain ⟨min, max, map, _⟩ :=
      @computeZoneMap_i64 F _ values validity row (lt_of_lt_of_eq inside rows.symm) valid
    rw [map]
    rfl
  | key codes validity dictionary =>
    rw [shape] at typed
    exact absurd typed.symm notKey

/-- A segment with a row where the predicate is true passes. -/
theorem canMatch_of_true (judges : Judges schema handle scalars) (predicate : Predicate F)
    {result : ThreeValued}
    (evaluated : evaluate3vl scalars predicate = .ok result) {row : Nat}
    (holds : result.truth.get row = true) :
    canMatch schema handle predicate = true := by
  by_cases present : handle.zoneMapsPresent = true
  swap
  · unfold canMatch
    simp [present]
  match predicate with
  | .compare column op value =>
    simp only [canMatch, present, Bool.not_true, Bool.false_eq_true, if_false]
    cases judged : judgedBy schema handle column with
    | none => rfl
    | some zoneMap =>
      obtain ⟨bounds, rfl, mayHold⟩ := judges.compare evaluated holds judged
      exact mayHold
  | .and left right =>
    rw [evaluate3vl] at evaluated
    obtain ⟨l, first, evaluated⟩ := except_bind_ok evaluated
    obtain ⟨r, second, evaluated⟩ := except_bind_ok evaluated
    obtain rfl := Except.ok.inj evaluated
    obtain ⟨inLeft, inRight⟩ := Bitmap.and_true holds
    simp only [canMatch, present, Bool.not_true, Bool.false_eq_true, if_false,
      canMatch_of_true judges left first inLeft,
      canMatch_of_true judges right second inRight, Bool.and_self]
  | .or left right =>
    rw [evaluate3vl] at evaluated
    obtain ⟨l, first, evaluated⟩ := except_bind_ok evaluated
    obtain ⟨r, second, evaluated⟩ := except_bind_ok evaluated
    obtain rfl := Except.ok.inj evaluated
    rcases Bitmap.or_true holds with inLeft | inRight
    · simp only [canMatch, present, Bool.not_true, Bool.false_eq_true, if_false,
        canMatch_of_true judges left first inLeft, Bool.true_or]
    · simp only [canMatch, present, Bool.not_true, Bool.false_eq_true, if_false,
        canMatch_of_true judges right second inRight, Bool.or_true]
  | .isNull column true =>
    simp only [canMatch, present, Bool.not_true, Bool.false_eq_true, if_false]
    cases judged : judgedBy schema handle column with
    | none => rfl
    | some zoneMap => exact judges.isNotNull evaluated holds judged
  | .isNull column false | .compareExpr _ _ _ | .keyEquals _ _ _ | .keyLike _ _ _ | .keyIn _ _
      _ | .not _ => simp [canMatch]

end Sound

/-! ### Segments and their handles -/

/-- A handle whose metadata is what storage computed for the segment it reads. -/
def SegmentHandle.Faithful [F64 F] (read : SegmentReader F) (schema : Schema)
    (handle : SegmentHandle F) : Prop :=
  ∀ view, handle.fetch read = .ok view → view.segment.Mapped schema ∧
    handle.slot.info.zoneMaps = view.segment.zoneMaps

theorem columnIndex_append {schema : Schema} {extra : List Field} {column : String} {index : Nat}
    (found : schema.fields.findIdx? (·.name = column) = some index) :
    columnIndex ⟨schema.fields ++ extra⟩ column = .ok index := by
  unfold columnIndex
  rw [List.findIdx?_append, found]
  rfl

/-- The zone maps of a stored segment judge its rows, also when more columns follow. -/
theorem Segment.Mapped.judges [F64Math F] {schema : Schema} {segment : Segment F}
    (mapped : segment.Mapped schema) {handle : SegmentHandle F}
    (maps : handle.slot.info.zoneMaps = segment.zoneMaps) {scalars : ViewScalars F}
    {extra : List Field} {more : List (Column F)}
    (under : scalars.schema = ⟨schema.fields ++ extra⟩)
    (columns : scalars.view.segment.batch.columns = segment.batch.columns ++ more) :
    Judges schema handle scalars := by
  have inside {index : Nat} {field : Field} (declared : schema.fields[index]? = some field) :
      ∃ here : index < segment.batch.columns.length,
        segment.batch.columns[index].Binds segment.numRows field ∧
        scalars.view.segment.batch.column index = segment.batch.columns[index] := by
    obtain ⟨place, same⟩ := List.getElem?_eq_some_iff.mp declared
    have here : index < segment.batch.columns.length := mapped.binds.length_eq ▸ place
    refine ⟨here, by simpa [same] using mapped.binds.get place here, ?_⟩
    rw [RecordBatch.column, columns, List.getD_eq_getElem?_getD, List.getElem?_append_left here,
      List.getElem?_eq_getElem here]
    rfl
  refine ⟨fun column index found => under ▸ columnIndex_append found, fun index field declared =>
    ?_, fun index field declared => ?_,
    fun index field declared => ?_⟩
  · obtain ⟨here, _, same⟩ := inside declared
    rw [SegmentHandle.zoneMap, maps, mapped.zoneMaps, List.getElem?_map,
      List.getElem?_eq_getElem here, same]
    rfl
  · obtain ⟨_, binds, same⟩ := inside declared
    rw [same]
    exact binds.typed
  · obtain ⟨here, binds, same⟩ := inside declared
    rw [same, binds.length, Segment.numRows, Segment.numRows, RecordBatch.numRows,
      RecordBatch.numRows, columns]
    cases list : segment.batch.columns with
    | nil => rw [list] at here; cases here
    | cons column rest => rfl

theorem Segment.Mapped.judges_own [F64Math F] {schema : Schema} {segment : Segment F}
    (mapped : segment.Mapped schema) {handle : SegmentHandle F}
    (maps : handle.slot.info.zoneMaps = segment.zoneMaps) {scalars : ViewScalars F}
    (under : scalars.schema = schema)
    (same : scalars.view.segment = segment) : Judges schema handle scalars := by
  refine @Segment.Mapped.judges F _ schema segment mapped handle maps scalars [] [] ?_ ?_
  · rw [under, List.append_nil]
  · rw [same, List.append_nil]

/-! ### What pruning drops -/

section Materialize

variable [F64Math F] {schema : Schema} {registry : Registry F} {read : SegmentReader F}
  {predicate : Option (Predicate F)}

theorem Bitmap.countSet_eq_zero {bits : Bitmap} (dead : ∀ row, bits.get row = false) :
    bits.countSet = 0 := by
  refine List.count_eq_zero.mpr fun member => ?_
  obtain ⟨row, inside, same⟩ := List.getElem_of_mem member
  have here := dead row
  rw [Bitmap.get, List.getD_eq_getElem _ _ inside, same] at here
  cases here

/-- Where no row is true, `WHERE` leaves no live row. -/
theorem restrict_dead {view view' : SegmentView F} {test : Predicate F} {matched : Bitmap}
    (evaluated : evaluatePredicate ⟨schema, view, registry, []⟩ test = .ok matched)
    (dead : ∀ row, matched.get row = false)
    (restricted : restrict schema registry (some test) view = .ok view') : view'.liveRowCount = 0 := by
  simp only [restrict, evaluated] at restricted
  obtain rfl := Except.ok.inj restricted
  simp only [SegmentView.liveRowCount, Option.elim]
  cases view.live with
  | none => exact Bitmap.countSet_eq_zero dead
  | some live =>
    refine Bitmap.countSet_eq_zero fun row => ?_
    by_contra holds
    have both := Bitmap.and_true (Bool.eq_true_of_not_eq_false holds)
    rw [dead row] at both
    cases both.2

/-- A segment that may be skipped keeps no row. -/
def Skips (schema : Schema) (registry : Registry F) (read : SegmentReader F)
    (predicate : Option (Predicate F))
    (mayMatch : SegmentHandle F → Bool) (handle : SegmentHandle F) : Prop :=
  mayMatch handle = false → ∀ view view', handle.fetch read = .ok view →
    restrict schema registry predicate view = .ok view' →
    view'.liveRowCount = 0

/-- A test from zone maps that judge the rows skips only segments that keep none. -/
theorem skips_of_judges {own : Schema} {judged handle : SegmentHandle F}
    {mayMatch : SegmentHandle F → Bool}
    (test : mayMatch handle = predicate.all (canMatch own judged))
    (judges : ∀ view, handle.fetch read = .ok view → Judges own judged ⟨schema, view, registry, []⟩) :
    Skips schema registry read predicate mayMatch handle := by
  intro ruled view view' fetched restricted
  cases predicate with
  | none => rw [test] at ruled; cases ruled
  | some predicate =>
    rw [test, Option.all_some] at ruled
    cases evaluated : evaluate3vl ⟨schema, view, registry, []⟩ predicate with
    | error e =>
      rw [restrict, evaluatePredicate, evaluated] at restricted
      cases restricted
    | ok result =>
      have found : evaluatePredicate ⟨schema, view, registry, []⟩ predicate = .ok result.truth := by
        rw [evaluatePredicate, evaluated]
        rfl
      refine restrict_dead found (fun row => ?_) restricted
      by_contra holds
      rw [canMatch_of_true (judges view fetched) predicate evaluated
        (Bool.eq_true_of_not_eq_false holds)] at ruled
      cases ruled

theorem materialize_pruned {mayMatch : SegmentHandle F → Bool} {handles : List (SegmentHandle F)}
    {views : List (SegmentView F)}
    (skips : ∀ handle ∈ handles, Skips schema registry read predicate mayMatch handle)
    (all : materialize schema registry read predicate (fun _ => true) handles = .ok views) :
    materialize schema registry read predicate mayMatch handles = .ok views := by
  induction handles generalizing views with
  | nil => exact all
  | cons handle rest ih =>
    have later := fun other member => skips other (List.mem_cons_of_mem _ member)
    rw [materialize] at all ⊢
    split at all
    · next none => rw [if_pos none]; exact ih later all
    next some_ =>
    rw [if_neg some_]
    rw [if_neg (by simp)] at all
    obtain ⟨view, fetched, all⟩ := except_bind_ok all
    obtain ⟨view', restricted, all⟩ := except_bind_ok all
    obtain ⟨others, materialized, all⟩ := except_bind_ok all
    have same := Except.ok.inj all
    cases test : mayMatch handle with
    | true =>
      rw [if_neg (by simp), fetched, ← same]
      simp only [bind, Except.bind, restricted, ih later materialized]
    | false =>
      rw [if_pos (by simp), ih later materialized, ← same]
      rw [skips handle List.mem_cons_self test view view' fetched restricted]
      simp

/-- What execution without pruning returns, execution that skips such segments returns. -/
theorem executeOver_pruned {mayMatch : SegmentHandle F → Bool} {handles : List (SegmentHandle F)}
    {orderingKey : Option Nat} {plan : Plan F}
    {output : QueryOutput F}
    (skips : ∀ handle ∈ handles, Skips schema registry read plan.predicate mayMatch handle)
    (ran : executeOver (fun _ => true) schema handles orderingKey plan registry read = .ok output) :
    executeOver mayMatch schema handles orderingKey plan registry read = .ok output := by
  unfold executeOver at ran ⊢
  obtain ⟨views, materialized, finished⟩ := except_bind_ok ran
  rw [materialize_pruned skips materialized]
  exact finished

theorem faithful_skips {handle : SegmentHandle F} (faithful : handle.Faithful read schema) :
    Skips schema registry read predicate
      (fun handle => predicate.all (canMatch schema handle)) handle := by
  refine skips_of_judges rfl fun view fetched => ?_
  obtain ⟨mapped, maps⟩ := faithful view fetched
  exact mapped.judges_own maps rfl rfl

end Materialize

/-! ### The fact side of a join -/

section Joined

variable [F64Math F] {schema : Schema} {registry : Registry F} {read : SegmentReader F}
  {predicate : Option (Predicate F)}

omit [F64Math F] in
theorem internAll_length (values : List (Option String)) (dictionary : Dictionary) :
    (internAll values dictionary).1.length = values.length := by
  induction values generalizing dictionary with
  | nil => rfl
  | cons value rest ih => cases value <;> simp [internAll, ih]

omit [F64Math F] in
theorem gatherColumn_length [F64 F] (columnType : ColumnType)
    (sources : List (Option (Column F × Nat))) :
    (gatherColumn columnType sources).length = sources.length := by
  cases columnType <;> simp [gatherColumn, Column.length, assembleKey, internAll_length]

/-- A widened segment is judged by the zone maps computed for it. -/
theorem joinView_judges {factSchema : Schema} {view : SegmentView F}
    (mapped : view.segment.Mapped factSchema)
    {columns : List (Field × Nat)} {left : Bool} {dimensionViews : List (SegmentView F)}
    {picks : List (Option Pick)}
    (under : schema = joinedSchema factSchema columns)
    (covers : picks.length = view.segment.numRows) (scalars : ViewScalars F)
    (same : scalars.schema = schema)
    (widened : scalars.view = joinView schema left dimensionViews columns picks view) :
    Judges schema (.resident scalars.view.segment scalars.view.live) scalars := by
  obtain ⟨axis, declared, _⟩ := mapped.axis
  have batch : scalars.view.segment.batch.columns = view.segment.batch.columns ++
      columns.map fun column => gatherColumn column.1.columnType
        (picks.map (dimensionSource dimensionViews column.2)) := by
    rw [widened]
    rfl
  -- Every field binds its column: those of the fact table as stored, the others as gathered.
  have bound : List.Forall₂ (fun field column => column.columnType = field.columnType ∧
    column.length = view.segment.numRows)
      schema.fields scalars.view.segment.batch.columns := by
    rw [under, batch, joinedSchema]
    refine List.rel_append (mapped.binds.imp fun _ _ binds => ⟨binds.typed, binds.length⟩) ?_
    rw [List.forall₂_map_left_iff, List.forall₂_map_right_iff]
    exact List.forall₂_same.mpr fun column _ =>
      ⟨gatherColumn_columnType _ _, by rw [gatherColumn_length, List.length_map, covers]⟩
  have inside {index : Nat} {field : Field} (declared : schema.fields[index]? = some field) :
      ∃ here : index < scalars.view.segment.batch.columns.length,
        scalars.view.segment.batch.column index = scalars.view.segment.batch.columns[index] ∧
        scalars.view.segment.batch.columns[index].columnType = field.columnType ∧
        scalars.view.segment.batch.columns[index].length = view.segment.numRows := by
    obtain ⟨place, named⟩ := List.getElem?_eq_some_iff.mp declared
    have here := lt_of_lt_of_eq place bound.length_eq
    obtain ⟨typed, length⟩ := bound.get place here
    refine ⟨here, ?_, ?_, length⟩
    · rw [RecordBatch.column, List.getD_eq_getElem _ _ here]
    · simpa [named] using typed
  have rows : scalars.view.segment.numRows = view.segment.numRows := by
    rw [Segment.numRows, Segment.numRows, RecordBatch.numRows, RecordBatch.numRows, batch]
    cases list : view.segment.batch.columns with
    | nil =>
      have fields := mapped.binds.length_eq
      rw [list, List.length_nil] at fields
      rw [List.length_eq_zero_iff.mp fields] at declared
      cases declared
    | cons column rest => rfl
  refine ⟨fun column index found => ?_, fun index field declared => ?_, fun index field declared =>
    ?_, fun index field declared => ?_⟩
  · rw [same]
    unfold columnIndex
    rw [found]
  · obtain ⟨here, column, _⟩ := inside declared
    have maps : scalars.view.segment.zoneMaps = scalars.view.segment.batch.columns.map
      computeZoneMap := by rw [widened]; rfl
    rw [SegmentHandle.zoneMap,
      show (SegmentHandle.resident scalars.view.segment scalars.view.live).slot.info.zoneMaps =
      _ from maps,
      List.getElem?_map, List.getElem?_eq_getElem here, column]
    rfl
  · obtain ⟨_, column, typed, _⟩ := inside declared
    rw [column]
    exact typed
  · obtain ⟨_, column, _, length⟩ := inside declared
    rw [column, length, rows]

/-- Leaving out fact segments whose widened rows all fail leaves the same views. -/
theorem materialize_joined {mayMatch : SegmentHandle F → Bool} {widen : SegmentView F → SegmentView F}
    {handles : List (SegmentHandle F)} {views out : List (SegmentView F)}
    (skips : ∀ handle ∈ handles, mayMatch handle = false → ∀ view view', handle.fetch read = .ok view →
      restrict schema registry predicate (widen view) = .ok view' → view'.liveRowCount = 0)
    (fetched : handles.mapM (SegmentHandle.fetch read) = .ok views)
    (all : materialize schema registry read predicate (fun _ => true)
      (views.map fun view => .resident (widen view).segment (widen view).live) = .ok out) :
    ∃ kept, (handles.filter mayMatch).mapM (SegmentHandle.fetch read) = .ok kept ∧
      materialize schema registry read predicate (fun _ => true)
        (kept.map fun view => .resident (widen view).segment (widen view).live) = .ok out := by
  induction handles generalizing views out with
  | nil =>
    obtain rfl := Except.ok.inj fetched
    exact ⟨[], rfl, all⟩
  | cons handle rest ih =>
    have ih := fun {views out} => @ih views out fun other member =>
      skips other (List.mem_cons_of_mem _ member)
    rw [List.mapM_cons] at fetched
    obtain ⟨view, here, fetched⟩ := except_bind_ok fetched
    obtain ⟨later, others, fetched⟩ := except_bind_ok fetched
    obtain rfl := Except.ok.inj fetched
    rw [List.map_cons, materialize] at all
    cases test : mayMatch handle with
    | true =>
      rw [List.filter_cons_of_pos test, List.mapM_cons, here]
      split at all
      · next none =>
        obtain ⟨kept, same, passed⟩ := ih others all
        refine ⟨view :: kept, by simp [bind, Except.bind, same, pure, Except.pure], ?_⟩
        rw [List.map_cons, materialize, if_pos none]
        exact passed
      next live =>
      rw [if_neg (by simp)] at all
      obtain ⟨joined, resident, all⟩ := except_bind_ok all
      obtain ⟨restricted, holds, all⟩ := except_bind_ok all
      obtain ⟨tail, materialized, all⟩ := except_bind_ok all
      obtain ⟨kept, same, passed⟩ := ih others materialized
      refine ⟨view :: kept, by simp [bind, Except.bind, same, pure, Except.pure], ?_⟩
      rw [List.map_cons, materialize, if_neg live, if_neg (by simp), resident, ← all]
      simp only [bind, Except.bind, holds, passed]
    | false =>
      rw [List.filter_cons_of_neg (by simp [test])]
      split at all
      · exact ih others all
      rw [if_neg (by simp)] at all
      obtain ⟨joined, resident, all⟩ := except_bind_ok all
      obtain ⟨restricted, holds, all⟩ := except_bind_ok all
      obtain ⟨tail, materialized, all⟩ := except_bind_ok all
      rw [← Except.ok.inj resident] at holds
      rw [skips handle List.mem_cons_self test view restricted here holds] at all
      rw [← Except.ok.inj all]
      exact ih others materialized

omit [F64Math F] in
theorem picks_length [F64 F] (index : DimensionIndex) (batch : RecordBatch F)
    (keyIndex timeIndex : Nat) :
    (index.picks batch keyIndex timeIndex).length = batch.numRows := by
  rw [DimensionIndex.picks, List.length_map, List.length_range]

/-- What a join returns without pruning, it returns with it. -/
theorem executeJoinOver_pruned {join : JoinPlan} {fact dimension : JoinSide F} {plan : Plan F}
    {output : QueryOutput F}
    (faithful : ∀ handle ∈ fact.handles, handle.Faithful read fact.schema)
    (ran : executeJoinOver (fun _ => true) (fun _ _ => true) join fact dimension plan registry
      read = .ok output) :
    executeJoinOver (fun handle => plan.predicate.all (canMatch fact.schema handle))
      (fun schema handle => plan.predicate.all (canMatch schema handle)) join fact dimension plan
        registry read = .ok output := by
  unfold executeJoinOver at ran ⊢
  rw [List.filter_eq_self.mpr fun _ _ => rfl] at ran
  obtain ⟨factViews, fetched, ran⟩ := except_bind_ok ran
  obtain ⟨dimensionViews, dimensionFetched, ran⟩ := except_bind_ok ran
  obtain ⟨factKey, factResolved, ran⟩ := except_bind_ok ran
  obtain ⟨dimensionKey, dimensionResolved, ran⟩ := except_bind_ok ran
  obtain ⟨index, indexed, ran⟩ := except_bind_ok ran
  obtain ⟨columns, joined, ran⟩ := except_bind_ok ran
  simp only [List.map_map] at ran
  unfold executeOver at ran
  obtain ⟨out, materialized, finished⟩ := except_bind_ok ran
  -- Zone maps of a fact segment judge its widened rows as well.
  have skips (handle : SegmentHandle F) (member : handle ∈ fact.handles)
    (ruled : plan.predicate.all (canMatch fact.schema handle) = false)
      (view view' : SegmentView F) (here : handle.fetch read = .ok view)
        (restricted : restrict (joinedSchema fact.schema columns) registry
        plan.predicate (joinView (joinedSchema fact.schema columns) join.left dimensionViews columns
          (index.picks view.segment.batch factKey fact.orderingKey) view) = .ok view') :
          view'.liveRowCount = 0 := by
    obtain ⟨kept, maps⟩ := faithful handle member view here
    refine @skips_of_judges F _ (joinedSchema fact.schema columns) registry read plan.predicate
      fact.schema handle (.resident _ _) (fun _ => _) rfl
      (fun widened resident => ?_) ruled _ view' rfl restricted
    obtain rfl := Except.ok.inj resident
    exact kept.judges maps rfl rfl
  obtain ⟨kept, same, passed⟩ := materialize_joined skips fetched materialized
  rw [same]
  simp only [bind, Except.bind, dimensionFetched, factResolved, dimensionResolved, indexed,
    joined, List.map_map]
  refine executeOver_pruned (fun handle member => ?_) (show executeOver _ _ _ _ _ _ _ = _ by
    unfold executeOver
    simp only [bind, Except.bind, Function.comp_def, passed]
    exact finished)
  obtain ⟨view, present, rfl⟩ := List.mem_map.mp member
  obtain ⟨handle, origin, here⟩ := forall₂_mem_right (except_mapM_ok same) present
  have judges := joinView_judges (faithful handle (List.mem_of_mem_filter origin) view here).1 rfl
    (picks_length index _ _ _)
    ⟨_, joinView (joinedSchema fact.schema columns) join.left dimensionViews columns
      (index.picks view.segment.batch factKey fact.orderingKey) view, registry, []⟩ rfl rfl
  refine skips_of_judges rfl fun widened resident => ?_
  obtain rfl := Except.ok.inj resident
  exact judges

end Joined

section Executed

variable [F64Math F] {fact dimension : JoinSide F} {registry : Registry F} {read : SegmentReader F}

/-- Pruning drops no true row: where execution without it returns rows, execution with it
returns the same, and over one table the two differ only where reading or testing the
segments fails. -/
theorem pruning_keeps_answers (faithful : ∀ handle ∈ fact.handles, handle.Faithful read fact.schema) :
    (∀ handle ∈ fact.handles, ∀ view, handle.fetch read = .ok view → ∀ predicate result,
      evaluate3vl ⟨fact.schema, view, registry, []⟩ predicate = .ok result →
      ∀ row, result.truth.get row = true →
        canMatch fact.schema handle predicate = true) ∧
    (∀ plan orderingKey output,
      executeOver (fun _ => true) fact.schema fact.handles orderingKey plan registry read = .ok output →
      executeSingle fact.schema fact.handles orderingKey plan registry read = .ok output) ∧
    (∀ plan orderingKey views, materialize fact.schema registry read plan.predicate (fun _ => true)
      fact.handles = .ok views →
      executeSingle fact.schema fact.handles orderingKey plan registry read =
        executeOver (fun _ => true) fact.schema fact.handles orderingKey plan registry read) ∧
    ∀ plan join output, plan.join = some join →
      executeJoinOver (fun _ => true)
        (fun _ _ => true) join fact dimension plan registry read = .ok output →
        executeJoin fact dimension plan registry read = .ok output := by
  have skips (predicate : Option (Predicate F)) := fun handle member =>
    @faithful_skips F _ fact.schema registry read predicate handle (faithful handle member)
  refine ⟨fun handle member view fetched predicate result evaluated row holds => ?_,
    fun plan orderingKey output ran => ?_,
    fun plan orderingKey views materialized => ?_, fun plan join output joined ran => ?_⟩
  · obtain ⟨mapped, maps⟩ := faithful handle member view fetched
    exact canMatch_of_true (mapped.judges_own maps rfl rfl) predicate evaluated holds
  · exact executeOver_pruned (skips plan.predicate) ran
  · unfold executeSingle executeOver
    rw [materialized, materialize_pruned (skips plan.predicate) materialized]
  · unfold executeJoin
    rw [joined]
    exact executeJoinOver_pruned faithful ran

end Executed

/-! ### A refusal that pruning hides -/

def tradesSegment : Segment UInt64 where
  batch := {
    schema := ⟨[.new "ts" .i64 false, .new "sym" .key true]⟩
    columns := [.i64 [1, 9] none, .key [0, 1] none ⟨["A", "B"], by decide⟩] }
  orderingKey := 0
  ordered := true
  baseRowId := 0
  zoneMaps := [computeZoneMap (.i64 [1, 9] none),
    computeZoneMap (.key [0, 1] none ⟨["A", "B"], by decide⟩)]
  sequence := .rowIds
  superseded := none

def tradesSide : JoinSide UInt64 := ⟨tradesSegment.batch.schema, [.resident tradesSegment none], 0⟩

def noFunctions : Registry UInt64 := ⟨fun _ => none, fun _ => none⟩

def noReader : SegmentReader UInt64 := fun _ => .error (.misuse "no such segment")

def tradesPlan (predicate : Predicate UInt64) : Plan UInt64 where
  table := "trades"
  join := none
  projection := .items [.column "ts" none]
  distinct := false
  predicate := some predicate
  orderBy := none
  limit := none
  offset := none
  asOf := none

theorem tradesSegment_mapped : tradesSegment.Mapped tradesSegment.batch.schema where
  under := rfl
  binds := by
    refine .cons ⟨rfl, rfl, fun bits absent => ?_, fun codes validity dictionary same => ?_⟩
      (.cons ⟨rfl, rfl, fun bits absent => ?_, fun codes validity dictionary same => ?_⟩ .nil)
    · cases absent
    · cases same
    · cases absent
    · cases same
      decide
  zoneMaps := rfl
  axis := ⟨_, rfl, rfl, rfl⟩

theorem tradesSide_faithful : ∀ handle ∈ tradesSide.handles,
    handle.Faithful noReader tradesSide.schema := by
  intro handle member view fetched
  obtain rfl := List.mem_singleton.mp member
  obtain rfl := Except.ok.inj fetched
  exact ⟨tradesSegment_mapped, rfl⟩

theorem trades_pruned : ∃ output,
    executeOver (fun _ => true) tradesSide.schema tradesSide.handles (some 0)
      (tradesPlan (.compare "ts" .gt (.int 5))) noFunctions noReader =
      .ok output ∧
    executeSingle tradesSide.schema tradesSide.handles (some 0)
      (tradesPlan (.compare "ts" .gt (.int 5))) noFunctions noReader = .ok output ∧
    output.batches.map RecordBatch.numRows = [1] := by
  obtain ⟨output, ran, rows⟩ :=
    except_map_ok (show (executeOver (fun _ => true) tradesSide.schema tradesSide.handles (some 0)
    (tradesPlan (.compare "ts" .gt (.int 5))) noFunctions noReader).map
    (·.batches.map RecordBatch.numRows) = .ok [1] by decide +kernel)
  exact ⟨output, ran,
    (@pruning_keeps_answers UInt64 _ tradesSide tradesSide noFunctions noReader
    tradesSide_faithful).2.1 _ _ output ran, rows⟩

/-- A number compared with a key is refused, unless the bounds rule out the other side. -/
theorem refusal_pruned :
    (executeOver (fun _ => true) tradesSide.schema tradesSide.handles (some 0)
        (tradesPlan (.and (.compare "ts" .gt (.int 9)) (.compare "sym" .eq (.int 5))))
        noFunctions noReader).map
      (·.batches.map RecordBatch.numRows) = .error
      (.typeError "column 'sym' is a key; compare it to a string") ∧
    (executeSingle tradesSide.schema tradesSide.handles (some 0)
        (tradesPlan (.and (.compare "ts" .gt (.int 9)) (.compare "sym" .eq (.int 5))))
        noFunctions noReader).map
      (·.batches.map RecordBatch.numRows) = .ok [] := by
  decide +kernel

end TallyDB
