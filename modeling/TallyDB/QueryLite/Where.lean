import TallyDB.QueryLite.Frames
import TallyDB.QueryLite.Pruning
import TallyDB.QueryLite.Selection

/-!
# What `WHERE` keeps

`WHERE` decides each row by the row's own cells, whatever segment holds it and whether its
zone maps were asked first. An integer against a float column is read as its rounding.
-/

namespace TallyDB

variable {F : Type}

/-! ### Literals as the engine reads them -/

section Rounded

variable [F64Arith F]

def Number.rounded (columnType : Option ColumnType) : Number F → Number F
  | .int value => if columnType = some .f64 then .float (F64Arith.ofInt64 value) else .int value
  | .float value => .float value

def Schema.typeOf (schema : Schema) (name : String) : Option ColumnType :=
  (schema.fields.find? (·.name = name)).map Field.columnType

mutual

def ScalarExpr.rounded (schema : Schema) : ScalarExpr F → ScalarExpr F
  | .column name => .column name
  | .window index => .window index
  | .literal value => .literal value
  | .negate inner => .negate (inner.rounded schema)
  | .binary op left right => .binary op (left.rounded schema) (right.rounded schema)
  | .call function args => .call function (argsRounded schema args)
  | .case whens otherwise => .case (whensRounded schema whens) (elseRounded schema otherwise)
  | .registered name args => .registered name (argsRounded schema args)

def argsRounded (schema : Schema) : List (ScalarExpr F) → List (ScalarExpr F)
  | [] => []
  | expr :: rest => expr.rounded schema :: argsRounded schema rest

def whensRounded (schema : Schema) : List (Predicate F × ScalarExpr F) → List
      (Predicate F × ScalarExpr F)
  | [] => []
  | (condition, value) :: rest =>
      (condition.rounded schema, value.rounded schema) :: whensRounded schema rest

def elseRounded (schema : Schema) : Option (ScalarExpr F) → Option (ScalarExpr F)
  | none => none
  | some expr => some (expr.rounded schema)

/-- The predicate with every literal as its column's type makes it. -/
def Predicate.rounded (schema : Schema) : Predicate F → Predicate F
  | .compare column op value => .compare column op (value.rounded (schema.typeOf column))
  | .compareExpr left op right => .compareExpr (left.rounded schema) op (right.rounded schema)
  | .keyEquals column value negated => .keyEquals column value negated
  | .keyLike column pattern negated => .keyLike column pattern negated
  | .isNull column negated => .isNull column negated
  | .keyIn column values negated => .keyIn column values negated
  | .and left right => .and (left.rounded schema) (right.rounded schema)
  | .or left right => .or (left.rounded schema) (right.rounded schema)
  | .not inner => .not (inner.rounded schema)

end

end Rounded

section Passes

variable [F64Math F]

/-- A row that `WHERE` keeps. -/
def Predicate.Passes (schema : Schema) (predicate : Predicate F) (row : Row F) : Prop :=
  (predicate.rounded schema).meaning ⟨schema, row, []⟩ = some true

instance (schema : Schema) (predicate : Predicate F) (row : Row F) : Decidable
      (predicate.Passes schema row) :=
  inferInstanceAs (Decidable (_ = _))

/-- The rows that `WHERE` keeps. -/
def keep (schema : Schema) (predicate : Option (Predicate F)) (rows : List (Row F)) : List (Row F) :=
  predicate.elim rows fun predicate => rows.filter fun row => predicate.Passes schema row

end Passes

/-! ### What rounding leaves -/

section Parts

variable [F64Arith F] {schema : Schema}

/-- A predicate that compares no float column with an integer. -/
def Predicate.Settled (schema : Schema) (part : Predicate F) : Prop :=
  ∀ column op v, part = .compare column op (.int v) → schema.typeOf column ≠ some .f64

theorem settled_compare (column : String) (op : CmpOp) (value : Number F) :
    (Predicate.compare column op (value.rounded (schema.typeOf column))).Settled schema := by
  rintro column' op' v same
  obtain ⟨rfl, rfl, literal⟩ := Predicate.compare.inj same
  intro float
  cases value with
  | int value =>
    rw [Number.rounded, if_pos float] at literal
    cases literal
  | float value => cases literal

theorem argsRounded_length (args : List (ScalarExpr F)) :
    (argsRounded schema args).length = args.length := by
  induction args with
  | nil => rw [argsRounded]
  | cons expr rest ih => rw [argsRounded, List.length_cons, List.length_cons, ih]

mutual

theorem ScalarExpr.rounded_settled (expr : ScalarExpr F) : ∀ part ∈ (expr.rounded schema).parts,
    part.Settled schema := by
  match expr with
  | .column _ | .window _ | .literal _ => simp [ScalarExpr.rounded, ScalarExpr.parts]
  | .negate inner =>
    rw [ScalarExpr.rounded, ScalarExpr.parts]
    exact inner.rounded_settled
  | .binary _ left right =>
    rw [ScalarExpr.rounded, ScalarExpr.parts]
    exact List.forall_mem_append.mpr ⟨left.rounded_settled, right.rounded_settled⟩
  | .call _ args | .registered _ args =>
    rw [ScalarExpr.rounded, ScalarExpr.parts]
    exact argsRounded_settled args
  | .case whens otherwise =>
    rw [ScalarExpr.rounded, ScalarExpr.parts]
    exact List.forall_mem_append.mpr ⟨whensRounded_settled whens, elseRounded_settled otherwise⟩

theorem argsRounded_settled (args : List (ScalarExpr F)) :
    ∀ part ∈ argParts (argsRounded schema args), part.Settled schema := by
  match args with
  | [] => simp [argsRounded, argParts]
  | expr :: rest =>
    rw [argsRounded, argParts]
    exact List.forall_mem_append.mpr ⟨expr.rounded_settled, argsRounded_settled rest⟩

theorem whensRounded_settled (whens : List (Predicate F × ScalarExpr F)) :
    ∀ part ∈ whenParts (whensRounded schema whens), part.Settled schema := by
  match whens with
  | [] => simp [whensRounded, whenParts]
  | (condition, value) :: rest =>
    rw [whensRounded, whenParts]
    exact List.forall_mem_append.mpr
      ⟨List.forall_mem_append.mpr ⟨condition.rounded_settled, value.rounded_settled⟩,
        whensRounded_settled rest⟩

theorem elseRounded_settled (otherwise : Option (ScalarExpr F)) :
    ∀ part ∈ elseParts (elseRounded schema otherwise), part.Settled schema := by
  match otherwise with
  | none => simp [elseRounded, elseParts]
  | some expr =>
    rw [elseRounded, elseParts]
    exact expr.rounded_settled

theorem Predicate.rounded_settled (predicate : Predicate F) :
    ∀ part ∈ (predicate.rounded schema).parts, part.Settled schema := by
  match predicate with
  | .compare column op value =>
    rw [Predicate.rounded, Predicate.parts]
    · intro part member
      rw [List.mem_singleton.mp member]
      exact settled_compare column op value
    all_goals intros; contradiction
  | .keyEquals _ _ _ | .keyLike _ _ _ | .isNull _ _ | .keyIn _ _ _ =>
    rw [Predicate.rounded]
    intro part member column op v same
    rw [Predicate.parts] at member
    · rw [List.mem_singleton.mp member] at same
      cases same
    all_goals intros; contradiction
  | .compareExpr left _ right =>
    rw [Predicate.rounded, Predicate.parts]
    exact List.forall_mem_cons.mpr ⟨(fun _ _ _ same => by cases same),
      List.forall_mem_append.mpr ⟨left.rounded_settled, right.rounded_settled⟩⟩
  | .and left right | .or left right =>
    rw [Predicate.rounded, Predicate.parts]
    exact List.forall_mem_cons.mpr ⟨(fun _ _ _ same => by cases same),
      List.forall_mem_append.mpr ⟨left.rounded_settled, right.rounded_settled⟩⟩
  | .not inner =>
    rw [Predicate.rounded, Predicate.parts]
    exact List.forall_mem_cons.mpr ⟨(fun _ _ _ same => by cases same), inner.rounded_settled⟩

end

mutual

theorem ScalarExpr.usesRegistered_rounded (expr : ScalarExpr F) :
    (expr.rounded schema).usesRegistered = expr.usesRegistered := by
  match expr with
  | .column _ | .window _ | .literal _ => rw [ScalarExpr.rounded]
  | .negate inner =>
      rw [ScalarExpr.rounded, ScalarExpr.usesRegistered, ScalarExpr.usesRegistered,
        inner.usesRegistered_rounded]
  | .binary _ left right =>
    rw [ScalarExpr.rounded, ScalarExpr.usesRegistered, ScalarExpr.usesRegistered,
      left.usesRegistered_rounded, right.usesRegistered_rounded]
  | .call _ args =>
      rw [ScalarExpr.rounded, ScalarExpr.usesRegistered, ScalarExpr.usesRegistered,
        anyUsesRegistered_rounded args]
  | .registered _ _ => rw [ScalarExpr.rounded, ScalarExpr.usesRegistered, ScalarExpr.usesRegistered]
  | .case whens otherwise =>
    rw [ScalarExpr.rounded, ScalarExpr.usesRegistered, ScalarExpr.usesRegistered,
      whensUseRegistered_rounded whens, elseUsesRegistered_rounded otherwise]

theorem anyUsesRegistered_rounded (args : List (ScalarExpr F)) : anyUsesRegistered
      (argsRounded schema args) = anyUsesRegistered args := by
  match args with
  | [] => rw [argsRounded]
  | expr :: rest =>
      rw [argsRounded, anyUsesRegistered, anyUsesRegistered, expr.usesRegistered_rounded,
        anyUsesRegistered_rounded rest]

theorem whensUseRegistered_rounded (whens : List (Predicate F × ScalarExpr F)) :
    whensUseRegistered (whensRounded schema whens) = whensUseRegistered whens := by
  match whens with
  | [] => rw [whensRounded]
  | (condition, value) :: rest =>
    rw [whensRounded, whensUseRegistered, whensUseRegistered, condition.usesRegistered_rounded,
      value.usesRegistered_rounded,
      whensUseRegistered_rounded rest]

theorem elseUsesRegistered_rounded (otherwise : Option (ScalarExpr F)) :
    elseUsesRegistered (elseRounded schema otherwise) = elseUsesRegistered otherwise := by
  match otherwise with
  | none => rw [elseRounded]
  | some expr => rw [elseRounded, elseUsesRegistered, elseUsesRegistered, expr.usesRegistered_rounded]

theorem Predicate.usesRegistered_rounded (predicate : Predicate F) :
    (predicate.rounded schema).usesRegistered = predicate.usesRegistered := by
  match predicate with
  | .compare _ _ _ =>
      rw [Predicate.rounded, Predicate.usesRegistered, Predicate.usesRegistered] <;>
        intros <;> contradiction
  | .keyEquals _ _ _ | .keyLike _ _ _ | .isNull _ _ | .keyIn _ _ _ => rw [Predicate.rounded]
  | .compareExpr left _ right =>
    rw [Predicate.rounded, Predicate.usesRegistered, Predicate.usesRegistered,
      left.usesRegistered_rounded, right.usesRegistered_rounded]
  | .and left right | .or left right =>
    rw [Predicate.rounded, Predicate.usesRegistered, Predicate.usesRegistered,
      left.usesRegistered_rounded, right.usesRegistered_rounded]
  | .not inner =>
      rw [Predicate.rounded, Predicate.usesRegistered, Predicate.usesRegistered,
        inner.usesRegistered_rounded]

end

end Parts

/-! ### Rounding changes no verdict -/

section Evaluation

variable [F64Math F] {scalars : ViewScalars F}

theorem typeOf_columnIndex {schema : Schema} {name : String} {index : Nat}
    (found : columnIndex schema name = .ok index) :
    schema.typeOf name = (schema.fields[index]?).map Field.columnType := by
  have place := columnIndex_ok found
  rw [Schema.typeOf, List.find?_eq_bind_findIdx?_getElem?, place]
  rfl

theorem compare_rounded (bound : scalars.Bound) (column : String) (op : CmpOp) (value : Number F) :
    evaluate3vl scalars (.compare column op (value.rounded (scalars.schema.typeOf column))) =
      evaluate3vl scalars (.compare column op value) := by
  rw [evaluate3vl, evaluate3vl]
  cases found : columnIndex scalars.schema column with
  | error e => rfl
  | ok index =>
    obtain ⟨-, field, declared, binds⟩ := bound.column found
    have typed : scalars.schema.typeOf column =
        some (scalars.view.segment.batch.column index).columnType := by
      rw [typeOf_columnIndex found, declared, Option.map_some, binds.typed]
    rw [typed]
    simp only [bind, Except.bind]
    cases shape : scalars.view.segment.batch.column index with
    | f64 values validity => cases value <;> rfl
    | i64 values validity => cases value <;> rfl
    | key codes validity dictionary => rfl

mutual

theorem evaluateScalar_rounded (bound : scalars.Bound) (expr : ScalarExpr F) :
    evaluateScalar scalars (expr.rounded scalars.schema) = evaluateScalar scalars expr := by
  match expr with
  | .column _ | .window _ | .literal _ => rw [ScalarExpr.rounded]
  | .negate inner =>
      rw [ScalarExpr.rounded, evaluateScalar, evaluateScalar, evaluateScalar_rounded bound inner]
  | .binary _ left right =>
    rw [ScalarExpr.rounded, evaluateScalar, evaluateScalar, evaluateScalar_rounded bound left,
      evaluateScalar_rounded bound right]
  | .call _ args =>
      rw [ScalarExpr.rounded, evaluateScalar, evaluateScalar, evaluateScalars_rounded bound args]
  | .registered _ args =>
    rw [ScalarExpr.rounded, evaluateScalar, evaluateScalar, evaluateScalars_rounded bound args,
      argsRounded_length]
  | .case whens otherwise =>
    rw [ScalarExpr.rounded, evaluateScalar, evaluateScalar, evaluateWhens_rounded bound whens,
      evaluateElse_rounded bound otherwise]

theorem evaluateScalars_rounded (bound : scalars.Bound) (args : List (ScalarExpr F)) :
    evaluateScalars scalars (argsRounded scalars.schema args) = evaluateScalars scalars args := by
  match args with
  | [] => rw [argsRounded]
  | expr :: rest =>
    rw [argsRounded, evaluateScalars, evaluateScalars, evaluateScalar_rounded bound expr,
      evaluateScalars_rounded bound rest]

theorem evaluateWhens_rounded (bound : scalars.Bound) (whens : List (Predicate F × ScalarExpr F)) :
    evaluateWhens scalars (whensRounded scalars.schema whens) = evaluateWhens scalars whens := by
  match whens with
  | [] => rw [whensRounded]
  | (condition, value) :: rest =>
    rw [whensRounded, evaluateWhens, evaluateWhens, evaluate3vl_rounded bound condition,
      evaluateScalar_rounded bound value,
      evaluateWhens_rounded bound rest]

theorem evaluateElse_rounded (bound : scalars.Bound) (otherwise : Option (ScalarExpr F)) :
    evaluateElse scalars (elseRounded scalars.schema otherwise) = evaluateElse scalars otherwise := by
  match otherwise with
  | none => rw [elseRounded]
  | some expr => rw [elseRounded, evaluateElse, evaluateElse, evaluateScalar_rounded bound expr]

theorem evaluate3vl_rounded (bound : scalars.Bound) (predicate : Predicate F) :
    evaluate3vl scalars (predicate.rounded scalars.schema) = evaluate3vl scalars predicate := by
  match predicate with
  | .compare column op value => rw [Predicate.rounded, compare_rounded bound]
  | .compareExpr left _ right =>
    rw [Predicate.rounded, evaluate3vl, evaluate3vl, evaluateScalar_rounded bound left,
      evaluateScalar_rounded bound right]
  | .keyEquals _ _ _ | .keyLike _ _ _ | .isNull _ _ | .keyIn _ _ _ => rw [Predicate.rounded]
  | .and left right | .or left right =>
    rw [Predicate.rounded, evaluate3vl, evaluate3vl, evaluate3vl_rounded bound left,
      evaluate3vl_rounded bound right]
  | .not inner => rw [Predicate.rounded, evaluate3vl, evaluate3vl, evaluate3vl_rounded bound inner]

end

end Evaluation

/-! ### Every row by its own cells -/

section Local

variable [F64Math F] [LawfulRounding F] {scalars : ViewScalars F}

omit [LawfulRounding F] in
theorem settled_misses (bound : scalars.Bound) {part : Predicate F}
    (settled : part.Settled scalars.schema) : scalars.MissesRounding part := by
  rintro column op v rfl k row at_ x cell -
  refine absurd ?_ (settled column op v rfl)
  cases found : columnIndex scalars.schema column with
  | error e =>
    unfold columnIndex at found
    split at found
    · cases found
    · next unknown => simp [RowContext.cell, ViewScalars.contextAt, unknown] at cell
  | ok index =>
    obtain ⟨-, field, declared, binds⟩ := bound.column found
    rw [bound.cell found] at cell
    rw [typeOf_columnIndex found, declared, Option.map_some, ← binds.typed]
    cases shape : scalars.view.segment.batch.column index with
    | f64 values validity => rfl
    | i64 values validity =>
      rw [shape, cellValue_i64] at cell
      split at cell <;> cases cell
    | key codes validity dictionary =>
      rw [shape, cellValue_key] at cell
      split at cell <;> cases cell

/-- The rows of a view that a predicate selects are the live ones that pass. -/
theorem evaluatePredicate_passes (bound : scalars.Bound) (alone : scalars.windows = [])
    {predicate : Predicate F}
    (kernels : predicate.usesRegistered = false) {bits : Bitmap}
    (evaluated : evaluatePredicate scalars predicate = .ok bits) {k row : Nat}
    (at_ : scalars.view.LiveAt k row) : bits.get row = true ↔ predicate.Passes scalars.schema
      (scalars.view.segment.row row) := by
  have selects : scalars.Selects (predicate.rounded scalars.schema) :=
    selects_of_misses bound (predicate.usesRegistered_rounded.trans kernels) fun part member =>
      settled_misses bound (predicate.rounded_settled part member)
  have same : evaluatePredicate scalars (predicate.rounded scalars.schema) = .ok bits := by
    rw [evaluatePredicate, evaluate3vl_rounded bound]
    exact evaluated
  have context : scalars.contextAt k row = ⟨scalars.schema, scalars.view.segment.row row, []⟩ := by
    rw [ViewScalars.contextAt, alone]
    rfl
  rw [selects bits same k row at_, context]
  exact Iff.rfl

end Local

/-! ### Every row of a snapshot -/

section Snapshot

variable [F64Math F] {schema : Schema} {registry : Registry F} {read : SegmentReader F}
  {handle : SegmentHandle F} {view : SegmentView F}

def unregistered : Registry F := ⟨fun _ => none, fun _ => none⟩

/-- A handle through which a stored segment is read. -/
structure SegmentHandle.Holds [F64 F] (read : SegmentReader F) (schema : Schema)
    (handle : SegmentHandle F) (view : SegmentView F) : Prop where
  fetched : handle.fetch read = .ok view
  stored : view.segment.Stored schema
  zoneMaps : handle.slot.info.zoneMaps = view.segment.zoneMaps
  rows : handle.slot.info.rows = view.segment.numRows

omit [F64Math F] in
theorem SegmentHandle.fetch_live {read : SegmentReader F} (fetched : handle.fetch read = .ok view) :
    handle.live = view.live := by
  unfold SegmentHandle.fetch at fetched
  split at fetched
  · rw [← Except.ok.inj fetched]
  · split at fetched
    · rw [← Except.ok.inj fetched]
    · cases fetched

omit [F64Math F] in
theorem Segment.Stored.bound [F64 F] (stored : view.segment.Stored schema) (registry : Registry F) :
    ViewScalars.Bound (⟨schema, view, registry, []⟩ : ViewScalars F) where
  schema := stored.under.symm
  binds := by
    rw [stored.under]
    exact stored.binds
  windows := fun window none_ => by cases none_

theorem liveRows_of_count {view : SegmentView F} (none_ : ¬ 0 < view.liveRowCount) :
    view.liveRows = [] := by
  rw [SegmentView.liveRows, List.map_eq_nil_iff, List.filter_eq_nil_iff]
  intro row member
  have inside := List.mem_range.mp member
  unfold SegmentView.liveRowCount at none_
  cases mask : view.live with
  | none =>
    rw [mask, Option.elim_none] at none_
    omega
  | some bits =>
    rw [mask, Option.elim_some, Bitmap.countSet, List.count_pos_iff] at none_
    rw [SegmentView.isLive, mask, Bitmap.validAt, Bitmap.get, List.getD_eq_getElem?_getD]
    intro set_
    cases here : bits[row]? with
    | none =>
      rw [here] at set_
      cases set_
    | some bit =>
      rw [here] at set_
      obtain rfl : bit = true := set_
      exact none_ (List.mem_of_getElem? here)

theorem SegmentHandle.Holds.dead (holds : handle.Holds read schema view)
    (none_ : handle.liveRowCount = 0) : view.liveRows = [] := by
  refine liveRows_of_count ?_
  unfold SegmentHandle.liveRowCount at none_
  unfold SegmentView.liveRowCount
  rw [← SegmentHandle.fetch_live holds.fetched, ← holds.rows]
  omega

variable [LawfulRounding F]

/-- `WHERE` over one segment keeps the rows that pass. -/
theorem restrict_rows (stored : view.segment.Stored schema) {predicate : Option (Predicate F)}
    (kernels : ∀ test ∈ predicate, test.usesRegistered = false) {view' : SegmentView F}
    (restricted : restrict schema registry predicate view = .ok view') :
    view'.segment = view.segment ∧ view'.liveRows = keep schema predicate view.liveRows := by
  cases predicate with
  | none =>
    obtain rfl := Except.ok.inj restricted
    exact ⟨rfl, rfl⟩
  | some test =>
    obtain ⟨matched, evaluated, restricted⟩ := except_bind_ok restricted
    obtain rfl := Except.ok.inj restricted
    refine ⟨rfl, ?_⟩
    rw [keep, Option.elim_some, SegmentView.liveRows, SegmentView.liveRows, List.filter_map,
      List.filter_filter]
    refine congrArg (List.map _) (List.filter_congr fun row member => ?_)
    have mask : Bitmap.validAt (some (view.live.elim matched (·.and matched))) row =
        (view.isLive row && matched.get row) := by
      cases live : view.live with
      | none => simp [Bitmap.validAt, SegmentView.isLive, live]
      | some bits => simp [Bitmap.validAt, SegmentView.isLive, live, Bitmap.get_and]
    rw [SegmentView.isLive, mask, Bool.and_comm]
    by_cases live : view.isLive row = true
    · obtain ⟨k, at_⟩ :=
        List.getElem?_of_mem (show row ∈ view.liveIndices from List.mem_filter.mpr ⟨member, live⟩)
      have passes := @evaluatePredicate_passes F _ _ _ (stored.bound registry) rfl test
        (kernels test rfl) matched evaluated k row at_
      rw [live, Bool.and_true, Bool.and_true, Bool.eq_iff_iff, passes, Function.comp_apply,
        decide_eq_true_iff]
    · rw [Bool.not_eq_true] at live
      rw [live, Bool.and_false, Bool.and_false]

omit [LawfulRounding F] in
theorem mem_liveRows {view : SegmentView F} {row : Row F} (live : row ∈ view.liveRows) :
    ∃ k place, view.LiveAt k place ∧ view.segment.row place = row := by
  obtain ⟨place, inside, rfl⟩ := List.mem_map.mp live
  obtain ⟨k, at_⟩ := List.getElem?_of_mem inside
  exact ⟨k, place, at_, rfl⟩

/-- Zone maps rule out no row that a test of one column keeps. -/
theorem leaf_ruled (holds : handle.Holds read schema view) {leaf : Predicate F}
    (kernels : leaf.usesRegistered = false) {result : ThreeValued}
    (evaluated : evaluate3vl ⟨schema, view, registry, []⟩ leaf = .ok result)
    (ruled : canMatch schema handle leaf = false)
    {row : Row F} (live : row ∈ view.liveRows) : ¬ leaf.Passes schema row := by
  intro passes
  obtain ⟨k, place, at_, rfl⟩ := mem_liveRows live
  have selected : evaluatePredicate (⟨schema, view, registry, []⟩ : ViewScalars F) leaf =
      .ok result.truth := by
    rw [evaluatePredicate, evaluated]
    rfl
  have true_ := (evaluatePredicate_passes (holds.stored.bound registry) rfl kernels selected
    at_).mpr passes
  have judges : Judges schema handle ⟨schema, view, registry, []⟩ :=
    holds.stored.judges_own holds.zoneMaps rfl rfl
  rw [canMatch_of_true judges leaf evaluated true_] at ruled
  cases ruled

omit [LawfulRounding F] in
/-- A test that zone maps judge is of a column that it can be made of. -/
theorem judged_evaluates (holds : handle.Holds read schema view) {column : String}
    {zoneMap : Option (ZoneMap F)}
    (judged : judgedBy schema handle column = some zoneMap) :
    ∃ index, columnIndex schema column = .ok index ∧
    (view.segment.batch.column index).columnType ≠ .key := by
  obtain ⟨index, field, found, declared, numeric, -⟩ := judgedBy_some judged
  have resolved : columnIndex schema column = .ok index := by rw [columnIndex, found]
  refine ⟨index, resolved, ?_⟩
  obtain ⟨-, field', declared', binds⟩ := (holds.stored.bound unregistered).column resolved
  rw [declared] at declared'
  obtain rfl := Option.some.inj declared'
  rwa [binds.typed]

omit [LawfulRounding F] in
theorem ruled_present {predicate : Predicate F} (ruled : canMatch schema handle predicate = false) :
    handle.zoneMapsPresent = true := by
  by_contra absent
  rw [Bool.not_eq_true] at absent
  unfold canMatch at ruled
  simp [absent] at ruled

theorem compare_ruled (holds : handle.Holds read schema view) {column : String} {op : CmpOp}
    {value : Number F}
    (ruled : canMatch schema handle (.compare column op value) = false) {row : Row F}
    (live : row ∈ view.liveRows) :
    ¬ (Predicate.compare column op value).Passes schema row := by
  have judging := ruled
  simp only [canMatch, ruled_present ruled, Bool.not_true, Bool.false_eq_true, if_false] at judging
  cases judged : judgedBy schema handle column with
  | none =>
    rw [judged] at judging
    cases judging
  | some zoneMap =>
    obtain ⟨index, found, numeric⟩ := judged_evaluates holds judged
    obtain ⟨result, evaluated⟩ : ∃ result,
        evaluate3vl (⟨schema, view, unregistered, []⟩ : ViewScalars F) (.compare column op value) =
        .ok result := by
      rw [evaluate3vl, found]
      simp only [bind, Except.bind]
      cases shape : view.segment.batch.column index with
      | f64 values validity => exact ⟨_, rfl⟩
      | i64 values validity => exact ⟨_, rfl⟩
      | key codes validity dictionary =>
        rw [shape] at numeric
        exact absurd rfl numeric
    exact leaf_ruled holds (by rw [Predicate.usesRegistered] <;> intros <;> contradiction)
      evaluated ruled live

theorem isNull_ruled (holds : handle.Holds read schema view) {column : String} {negated : Bool}
    (ruled : canMatch schema handle (.isNull column negated) = false) {row : Row F}
    (live : row ∈ view.liveRows) :
    ¬ (Predicate.isNull column negated).Passes schema row := by
  cases negated with
  | false => simp [canMatch] at ruled
  | true =>
    have judging := ruled
    simp only [canMatch, ruled_present ruled, Bool.not_true, Bool.false_eq_true, if_false] at judging
    cases judged : judgedBy schema handle column with
    | none =>
      rw [judged] at judging
      cases judging
    | some zoneMap =>
      obtain ⟨index, found, -⟩ := judged_evaluates holds judged
      have evaluated : ∃ result, evaluate3vl (⟨schema, view, unregistered, []⟩ : ViewScalars F)
          (.isNull column true) = .ok result := by
        rw [evaluate3vl, found]
        exact ⟨_, rfl⟩
      obtain ⟨result, evaluated⟩ := evaluated
      exact leaf_ruled holds (by rw [Predicate.usesRegistered] <;> intros <;> contradiction)
        evaluated ruled live

/-- A segment that zone maps rule out has no row that passes. -/
theorem ruled_out (holds : handle.Holds read schema view) {row : Row F} (live : row ∈ view.liveRows)
    (predicate : Predicate F) :
    canMatch schema handle predicate = false → ¬ predicate.Passes schema row := by
  match predicate with
  | .compare column op value => exact fun ruled => compare_ruled holds ruled live
  | .isNull column negated => exact fun ruled => isNull_ruled holds ruled live
  | .and left right =>
    intro ruled
    simp only [canMatch, ruled_present ruled, Bool.not_true, Bool.false_eq_true, if_false,
      Bool.and_eq_false_iff] at ruled
    rw [Predicate.Passes, Predicate.rounded, Predicate.meaning, Kleene.and_eq_true]
    rintro ⟨first, second⟩
    rcases ruled with ruled | ruled
    · exact ruled_out holds live left ruled first
    · exact ruled_out holds live right ruled second
  | .or left right =>
    intro ruled
    simp only [canMatch, ruled_present ruled, Bool.not_true, Bool.false_eq_true, if_false,
      Bool.or_eq_false_iff] at ruled
    rw [Predicate.Passes, Predicate.rounded, Predicate.meaning, Kleene.or_eq_true]
    rintro (first | second)
    · exact ruled_out holds live left ruled.1 first
    · exact ruled_out holds live right ruled.2 second
  | .compareExpr _ _ _ | .keyEquals _ _ _ | .keyLike _ _ _ | .keyIn _ _ _ | .not _ =>
    intro ruled
    simp [canMatch] at ruled

omit [LawfulRounding F] in
theorem keep_append (predicate : Option (Predicate F)) (rows more : List (Row F)) :
    keep schema predicate
      (rows ++ more) = keep schema predicate rows ++ keep schema predicate more := by
  cases predicate with
  | none => rfl
  | some test => exact List.filter_append _ _

/-- What is read of a snapshot under `WHERE` are the live rows that pass, whatever was pruned. -/
theorem materialize_rows {predicate : Option (Predicate F)}
    (kernels : ∀ test ∈ predicate, test.usesRegistered = false)
    {handles : List (SegmentHandle F)} {all views : List (SegmentView F)}
    (held : List.Forall₂ (SegmentHandle.Holds read schema) handles all)
    (read_ : materialize schema registry read predicate
      (fun handle => predicate.all (canMatch schema handle)) handles = .ok views) :
    (∀ view ∈ views, view.segment.Stored schema) ∧
      views.flatMap SegmentView.liveRows = keep schema predicate
        (all.flatMap SegmentView.liveRows) := by
  induction held generalizing views with
  | nil =>
    rw [← Except.ok.inj read_]
    refine ⟨by simp, ?_⟩
    cases predicate <;> rfl
  | @cons handle view handles all holds _ ih =>
    rw [List.flatMap_cons, keep_append]
    rw [materialize] at read_
    split at read_
    next dead =>
      obtain ⟨stored, rest⟩ := ih read_
      rw [holds.dead dead, rest]
      cases predicate <;> exact ⟨stored, rfl⟩
    split at read_
    next ruled =>
      obtain ⟨stored, rest⟩ := ih read_
      refine ⟨stored, ?_⟩
      cases predicate with
      | none => cases ruled
      | some test =>
        have none_ : keep schema (some test) view.liveRows = [] := by
          refine List.filter_eq_nil_iff.mpr fun row live => ?_
          have fails := ruled_out holds live test (by simpa using ruled)
          simpa using fails
        rw [none_, rest, List.nil_append]
    obtain ⟨fetched, here, read_⟩ := except_bind_ok read_
    obtain ⟨restricted, tested, read_⟩ := except_bind_ok read_
    obtain ⟨others, later, read_⟩ := except_bind_ok read_
    obtain rfl := Except.ok.inj (here.symm.trans holds.fetched)
    obtain ⟨same, kept⟩ := restrict_rows holds.stored kernels tested
    obtain ⟨stored, rest⟩ := ih later
    rw [← Except.ok.inj read_]
    split
    · rw [List.flatMap_cons, kept, rest]
      refine ⟨fun other member => ?_, rfl⟩
      rcases List.mem_cons.mp member with rfl | member
      · rw [same]
        exact holds.stored
      · exact stored other member
    next empty =>
      rw [← kept, liveRows_of_count empty, rest]
      exact ⟨stored, rfl⟩

end Snapshot

end TallyDB
