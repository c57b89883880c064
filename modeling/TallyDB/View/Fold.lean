import TallyDB.Chronicle.Maintain
import TallyDB.QueryLite.Answer
import TallyDB.QueryLite.Where
import TallyDB.View.Buckets

/-!
# Buckets at a time

Each row of a bucketed answer belongs to one bucket. So the answer over the rows of some
buckets is the answer's rows of these buckets, and answers over different buckets add up.
-/

namespace TallyDB

open GroupBy

variable {F : Type}

/-! ### The column of a bucket -/

def GroupKey.term (orderingKey : Nat) : GroupKey → GroupTerm
  | .column _ => .bucket orderingKey 1 none
  | .bucket _ divide multiply => .bucket orderingKey divide multiply

theorem GroupKey.markOf_term (bucket : GroupKey) (orderingKey : Nat) (row : Row F) :
    (bucket.term orderingKey).markOf row = .word (bucket.stored (orderingValue orderingKey row)) := by
  cases bucket <;> rfl

theorem exactBuckets_ofView {keys : List GroupKey} (widths : ∀ key ∈ keys, key.OfView)
    (orderingKey : Nat) (rows : List (Row F)) :
    ExactBuckets orderingKey keys rows := by
  intro name divide multiply member
  obtain ⟨positive, same⟩ := widths _ member
  have above : 1 ≤ divide.toInt := Int64.le_iff_toInt_le.mp positive
  have zero : (0 : Int64).toInt = 0 := rfl
  have strict : 0 < divide := Int64.lt_iff_toInt_lt.mpr (by omega)
  refine ⟨strict, fun factor times => same factor times ▸ strict, fun row _ factor times => ?_⟩
  obtain rfl := same factor times
  obtain ⟨low, high⟩ := IsIndex.times_bounds ⟨orderingValue orderingKey row, rfl⟩ positive
  rw [Int64.toInt_mul]
  exact Int.bmod_eq_of_le (by omega) (by omega)

def Mark.tests (p : Int64 → Bool) : Mark → Bool
  | .word value => p value
  | .text _ => false

/-- A grouping that tells its rows by a bucket of the ordering key, and shows it in a column. -/
structure BucketedBy (schema : Schema) (orderingKey : Nat) (keys : List GroupKey)
    (items : List AggItem) (bucket : GroupKey) (column : Nat) : Prop where
  ofView : bucket.OfView
  listed : bucket ∈ keys
  shown : ∃ as, items[column]? = some (.key bucket as)
  resolved : resolveGroupKey schema (some orderingKey) bucket = .ok (bucket.term orderingKey)

theorem answerCells_getD {keys : List GroupKey} {marks : List Mark} {cells : List (AggCell F)}
    {items : List AggItem} {column : Nat} {key : GroupKey}
    {as : Option String} (shown : items[column]? = some (.key key as)) (call : Nat) :
    (answerCells keys marks cells items call)[column]? = some
    (marks.getD (keys.idxOf key) (.text none)).cell := by
  induction items generalizing column call with
  | nil => cases shown
  | cons item items ih =>
    cases column with
    | zero =>
      rw [List.getElem?_cons_zero] at shown
      cases shown
      rfl
    | succ column =>
      rw [List.getElem?_cons_succ] at shown
      cases item with
      | key other as => rw [answerCells, List.getElem?_cons_succ, ih shown]
      | call aggregate => rw [answerCells, List.getElem?_cons_succ, ih shown]

/-- A row that stores the bucket of some ordering key. -/
def GroupKey.StoredIn (bucket : GroupKey) (column : Nat) (row : Row F) : Prop :=
  ∃ key, row[column]? = some (.i64 (bucket.stored key))

theorem GroupKey.StoredIn.value {bucket : GroupKey} {column : Nat} {row : Row F}
    (stored : bucket.StoredIn column row) :
    ∃ key, row[column]? = some (.i64 (bucket.stored key)) ∧
    orderingValue column row = bucket.stored key := by
  obtain ⟨key, cell⟩ := stored
  refine ⟨key, cell, ?_⟩
  rw [orderingValue, cell]

section Answer

variable [F64Math F] {schema : Schema} {orderingKey column : Nat} {keys : List GroupKey}
  {items : List AggItem} {bucket : GroupKey}
variable {rows more : List (Row F)} {out fresh : List (Row F)} {plan : GroupPlan F}

theorem answer_iff {out : List (Row F)} : answer schema (some orderingKey) keys items rows = .ok out ↔
    ∃ plan groups, groupPlan (F := F) schema [] (some orderingKey) keys items = .ok plan ∧
      Grouped plan.known plan.template (rows.map (plan.keyed schema)) groups ∧
      out = groups.map fun group =>
        answerCells keys group.1 (group.2.map Accumulator.cell) items 0 := by
  constructor
  · intro answered
    obtain ⟨plan, planned, answered⟩ := except_bind_ok answered
    obtain ⟨groups, folded, answered⟩ := except_bind_ok answered
    exact ⟨plan, groups, planned, groupsOf_iff.mp folded, (Except.ok.inj answered).symm⟩
  · rintro ⟨plan, groups, planned, grouped, rfl⟩
    unfold answer
    rw [planned]
    have folded : plan.fold schema rows = .ok groups := groupsOf_iff.mpr grouped
    simp only [bind, Except.bind, folded]

namespace BucketedBy

variable (by_ : BucketedBy schema orderingKey keys items bucket column)
include by_

theorem term_at (planned : groupPlan (F := F) schema [] (some orderingKey) keys items = .ok plan) :
    plan.terms[keys.idxOf bucket]? = some (bucket.term orderingKey) := by
  obtain ⟨resolved, -, -⟩ := groupPlan_ok planned
  have here : keys[keys.idxOf bucket]? = some bucket := by
    have inside := List.idxOf_lt_length_iff.mpr by_.listed
    rw [List.getElem?_eq_getElem inside, List.getElem_idxOf]
  obtain ⟨term, found, same⟩ := forall₂_get resolved here
  rw [found, Except.ok.inj (same.symm.trans by_.resolved)]

theorem known_nil (planned : groupPlan (F := F) schema [] (some orderingKey) keys items =
      .ok plan) : plan.known = [] := by
  have here := by_.term_at planned
  unfold GroupPlan.known
  cases terms : plan.terms with
  | nil =>
    rw [terms] at here
    cases here
  | cons term rest => rfl

theorem mark (planned : groupPlan (F := F) schema [] (some orderingKey) keys items = .ok plan)
    (row : Row F) :
    (plan.keyed schema row).1.getD (keys.idxOf bucket) (.text none) = .word
      (bucket.stored (orderingValue orderingKey row)) := by
  have here := by_.term_at planned
  rw [GroupPlan.keyed, List.getD_eq_getElem?_getD, List.getElem?_map, here, Option.map_some,
    Option.getD_some, GroupKey.markOf_term]

theorem cell (planned : groupPlan (F := F) schema [] (some orderingKey) keys items = .ok plan)
    {groups : List (List Mark × List (Accumulator F))}
    (grouped : Grouped plan.known plan.template (rows.map (plan.keyed schema)) groups)
      {group : List Mark × List (Accumulator F)}
    (member : group ∈ groups) : ∃ row ∈ rows, group.1.getD (keys.idxOf bucket) (.text none) = .word
      (bucket.stored (orderingValue orderingKey row)) ∧
      (answerCells keys group.1 (group.2.map Accumulator.cell) items 0)[column]? =
        some (.i64 (bucket.stored (orderingValue orderingKey row))) := by
  obtain ⟨listed, -⟩ := grouped.mem member
  rw [by_.known_nil planned, List.nil_append, List.map_map] at listed
  obtain ⟨row, inside, same⟩ := List.mem_map.mp listed
  have marked := by_.mark planned row
  rw [show (plan.keyed schema row).1 = group.1 from same] at marked
  obtain ⟨as, shown⟩ := by_.shown
  refine ⟨row, inside, marked, ?_⟩
  rw [answerCells_getD shown, marked]
  rfl

theorem stored (answered : answer schema (some orderingKey) keys items rows = .ok out) : ∀ row ∈ out,
    ∃ source ∈ rows, row[column]? = some (.i64 (bucket.stored (orderingValue orderingKey source))) := by
  obtain ⟨plan, groups, planned, grouped, rfl⟩ := answer_iff.mp answered
  intro row member
  obtain ⟨group, listed, rfl⟩ := List.mem_map.mp member
  obtain ⟨source, inside, -, shown⟩ := by_.cell planned grouped listed
  exact ⟨source, inside, shown⟩

/-- Over the rows of some buckets the answer is its rows of these buckets. -/
theorem answer_filter (answered : answer schema (some orderingKey) keys items rows = .ok out)
    (p : Int64 → Bool) :
    answer schema (some orderingKey) keys items
      (rows.filter fun row => p (bucket.stored (orderingValue orderingKey row))) =
      .ok (out.filter fun row => p (orderingValue column row)) := by
  obtain ⟨plan, groups, planned, grouped, rfl⟩ := answer_iff.mp answered
  let passes (marks : List Mark) : Bool := (marks.getD (keys.idxOf bucket) (.text none)).tests p
  have parts := grouped.filter passes
  rw [by_.known_nil planned, List.filter_nil] at parts
  refine answer_iff.mpr ⟨plan, groups.filter fun group => passes group.1, planned, ?_, ?_⟩
  · have rows_ : (rows.map (plan.keyed schema)).filter (fun row => passes row.1) =
        (rows.filter fun row => p (bucket.stored (orderingValue orderingKey row))).map
          (plan.keyed schema) := by
      rw [List.filter_map]
      congr 1
      refine List.filter_congr fun row _ => ?_
      simp only [Function.comp_apply, passes, by_.mark planned row, Mark.tests]
    rw [by_.known_nil planned, ← rows_]
    exact parts
  · rw [List.filter_map]
    congr 1
    refine List.filter_congr fun group member => ?_
    obtain ⟨row, -, marked, shown⟩ := by_.cell planned grouped member
    simp only [Function.comp_apply, passes, marked, Mark.tests, orderingValue, shown]

/-- Answers over rows of different buckets add up. -/
theorem answer_append (left : answer schema (some orderingKey) keys items rows = .ok out)
    (right : answer schema (some orderingKey) keys items more = .ok fresh)
    (apart : ∀ row ∈ rows, ∀ other ∈ more, bucket.stored (orderingValue orderingKey row) ≠
      bucket.stored (orderingValue orderingKey other)) :
    answer schema (some orderingKey) keys items (rows ++ more) = .ok (out ++ fresh) := by
  obtain ⟨plan, groups, planned, grouped, rfl⟩ := answer_iff.mp left
  obtain ⟨plan', groups', planned', grouped', rfl⟩ := answer_iff.mp right
  obtain rfl := Except.ok.inj (planned'.symm.trans planned)
  rw [by_.known_nil planned] at grouped grouped'
  refine answer_iff.mpr ⟨plan', groups ++ groups', planned, ?_, by rw [List.map_append]⟩
  rw [by_.known_nil planned, List.map_append]
  refine grouped.append grouped' fun key first second => ?_
  rw [List.map_map] at first second
  obtain ⟨row, inside, rfl⟩ := List.mem_map.mp first
  obtain ⟨other, behind, same⟩ := List.mem_map.mp second
  have marks : (plan'.keyed schema other).1 = (plan'.keyed schema row).1 := same
  have marked := by_.mark planned other
  rw [marks, by_.mark planned row] at marked
  exact apart row inside other behind (Mark.word.inj marked)

end BucketedBy

end Answer

/-! ### The rows of some runs -/

def inRanges (ranges : List (Int64 × Int64)) (value : Int64) : Bool :=
  ranges.any fun range => range.1 ≤ value && value ≤ range.2

theorem inRanges_iff {ranges : List (Int64 × Int64)} {value : Int64} :
    inRanges ranges value = true ↔ Ranges.Covers ranges value := by
  simp [inRanges, Ranges.Covers, Ranges.Within]

section Ranged

variable [F64Math F] {schema : Schema} {row : Row F} {name : String} {index : Nat} {value : Int64}

structure NamesI64 (schema : Schema) (row : Row F) (name : String) (index : Nat)
    (value : Int64) : Prop where
  named : columnIndex schema name = .ok index
  typed : schema.typeOf name = some .i64
  cell : row[index]? = some (.i64 value)

namespace NamesI64

omit [F64Math F] in
theorem cell_eq (holds : NamesI64 schema row name index value) :
    RowContext.cell ⟨schema, row, []⟩ name = .i64 value := by
  have found : schema.fields.findIdx? (·.name = name) = some index := by
    have named := holds.named
    unfold columnIndex at named
    split at named
    · next place same =>
      rw [← Except.ok.inj named]
      exact same
    · cases named
  rw [RowContext.cell]
  simp only [found, List.getD_eq_getElem?_getD, holds.cell, Option.getD_some]

theorem compare (holds : NamesI64 schema row name index value) (op : CmpOp) (target : Int64) :
    ((Predicate.compare name op (.int target) : Predicate F).rounded schema).meaning
      ⟨schema, row, []⟩ = some (op.holds value target) := by
  have literal : (Number.int target : Number F).rounded (schema.typeOf name) = .int target := by
    rw [holds.typed, Number.rounded, if_neg (by decide)]
  rw [Predicate.rounded, Predicate.meaning, literal, holds.cell_eq, CmpOp.holds_int64]
  rfl

theorem arm (holds : NamesI64 schema row name index value) (range : Int64 × Int64) :
    ((rangeArm name range : Predicate F).rounded schema).meaning ⟨schema, row, []⟩ = some
    (decide (range.1 ≤ value) && decide (value ≤ range.2)) := by
  rw [rangeArm, Predicate.rounded, Predicate.meaning, holds.compare, holds.compare]
  simp only [CmpOp.holds]
  cases decide (range.1 ≤ value) <;> cases decide (value ≤ range.2) <;> rfl

/-- The chain of ranges is true just where the value lies in one of them, and false elsewhere. -/
theorem ranges (holds : NamesI64 schema row name index value) {ranges : List (Int64 × Int64)}
    {predicate : Predicate F}
    (chained : rangesPredicate name ranges = some predicate) :
    (predicate.rounded schema).meaning ⟨schema, row, []⟩ = some (inRanges ranges value) := by
  cases ranges with
  | nil => cases chained
  | cons first rest =>
    obtain rfl := Option.some.inj chained
    have chain (before : Predicate F) (seen : Bool)
      (already : (before.rounded schema).meaning ⟨schema, row, []⟩ = some seen)
        (rest : List (Int64 × Int64)) :
        (((rest.map (rangeArm name)).foldl .or before).rounded schema).meaning ⟨schema, row, []⟩ =
          some (seen || inRanges rest value) := by
      induction rest generalizing before seen with
      | nil => simpa [inRanges] using already
      | cons range rest ih =>
        have both : ((Predicate.or before (rangeArm name range)).rounded schema).meaning
          ⟨schema, row, []⟩ =
            some (seen || (decide (range.1 ≤ value) && decide (value ≤ range.2))) := by
          rw [Predicate.rounded, Predicate.meaning, already, holds.arm]
          generalize (decide (range.1 ≤ value) && decide (value ≤ range.2)) = inside
          cases seen <;> cases inside <;> rfl
        rw [List.map_cons, List.foldl_cons, ih _ _ both, Bool.or_assoc]
        rfl
    exact chain _ _ (holds.arm first) rest

theorem passes_ranges (holds : NamesI64 schema row name index value) {ranges : List (Int64 × Int64)}
    {predicate : Predicate F}
    (chained : rangesPredicate name ranges = some predicate) : predicate.Passes schema row ↔
    inRanges ranges value = true := by
  rw [Predicate.Passes, holds.ranges chained, Option.some.injEq]

theorem passes_not_ranges (holds : NamesI64 schema row name index value)
    {ranges : List (Int64 × Int64)} {predicate : Predicate F}
    (chained : rangesPredicate name ranges = some predicate) :
    (Predicate.not predicate).Passes schema row ↔ inRanges ranges value = false := by
  rw [Predicate.Passes, Predicate.rounded, Predicate.meaning, holds.ranges chained]
  simp [Kleene.not]

end NamesI64

theorem passes_and {left right : Predicate F} : (Predicate.and left right).Passes schema row ↔
    left.Passes schema row ∧ right.Passes schema row := by
  rw [Predicate.Passes, Predicate.rounded, Predicate.meaning, Kleene.and_eq_true]
  exact Iff.rfl

theorem keep_filter (predicate : Option (Predicate F)) (p : Row F → Bool) (rows : List (Row F)) :
    keep schema predicate (rows.filter p) = (keep schema predicate rows).filter p := by
  cases predicate with
  | none => rfl
  | some test =>
    rw [keep, keep, Option.elim_some, Option.elim_some, List.filter_filter, List.filter_filter]
    exact List.filter_congr fun row _ => Bool.and_comm _ _

theorem mem_of_keep {predicate : Option (Predicate F)} {rows : List (Row F)}
    (kept : row ∈ keep schema predicate rows) : row ∈ rows := by
  cases predicate with
  | none => exact kept
  | some test => exact (List.mem_filter.mp kept).1

/-- Ranges in front of a test keep what the test keeps of the rows in the ranges. -/
theorem keep_ranges {own : Option (Predicate F)} {ranges : List (Int64 × Int64)}
    {predicate : Predicate F}
    (chained : rangesPredicate name ranges = some predicate) {rows : List (Row F)}
    (holds : ∀ row ∈ rows, NamesI64 schema row name index (orderingValue index row)) :
    keep schema (some (own.elim predicate (.and predicate))) rows =
      keep schema own (rows.filter fun row => inRanges ranges (orderingValue index row)) := by
  cases own with
  | none =>
    refine List.filter_congr fun row member => ?_
    rw [Bool.eq_iff_iff, decide_eq_true_iff]
    exact (holds row member).passes_ranges chained
  | some own =>
    rw [keep, keep, Option.elim_some, Option.elim_some, Option.elim_some, List.filter_filter]
    refine List.filter_congr fun row member => ?_
    rw [Bool.eq_iff_iff, decide_eq_true_iff, passes_and, (holds row member).passes_ranges chained,
      Bool.and_eq_true, decide_eq_true_iff, and_comm]

omit [F64Math F] in
theorem usesRegistered_ranges {ranges : List (Int64 × Int64)} {predicate : Predicate F}
    (chained : rangesPredicate name ranges = some predicate) :
    predicate.usesRegistered = false := by
  cases ranges with
  | nil => cases chained
  | cons first rest =>
    obtain rfl := Option.some.inj chained
    have chain (before : Predicate F) (already : before.usesRegistered = false)
      (rest : List (Int64 × Int64)) :
        ((rest.map (rangeArm name)).foldl .or before).usesRegistered = false := by
      induction rest generalizing before with
      | nil => exact already
      | cons range rest ih =>
        refine ih _ ?_
        rw [Predicate.usesRegistered, already]
        rfl
    exact chain _ rfl rest

end Ranged

/-! ### A definition over the rows of a table -/

section Restricted

variable [F64Math F] {definition : Definition F} {schema : Schema} {orderingKey column : Nat}
  {name : String} {keys : List GroupKey}
variable {items : List AggItem} {bucket : GroupKey} {runs : List (Int64 × Int64)}
  {rows : List (Row F)} {touched : List Int64} {restricted : Plan F}

omit [F64Math F] in
theorem Definition.restrictedTo_eq (chosen : definition.restrictedTo runs name = some restricted) :
    ∃ ranges, rangesPredicate name
      (runs.map fun run =>
      (bucketLow run.1 definition.divide, bucketHigh run.2 definition.divide)) = some ranges ∧
      restricted = { definition.plan with
        predicate := some (definition.plan.predicate.elim ranges (.and ranges)) } := by
  obtain ⟨ranges, chained, same⟩ := Option.bind_eq_some_iff.mp chosen
  refine ⟨ranges, chained, ?_⟩
  cases own : definition.plan.predicate with
  | none =>
    rw [own] at same
    exact (Option.some.inj same).symm
  | some test =>
    rw [own] at same
    exact (Option.some.inj same).symm

/-- The restricted plan keeps what the definition keeps of the rows in the runs. -/
theorem Definition.Spells.keep_restricted (spells : definition.Spells bucket)
    (indices : ∀ run ∈ runs, IsIndex definition.divide run.1 ∧ IsIndex definition.divide run.2)
    (chosen : definition.restrictedTo runs name = some restricted)
    (holds : ∀ row ∈ rows, NamesI64 schema row name orderingKey (orderingValue orderingKey row)) :
    keep schema restricted.predicate rows =
      keep schema definition.plan.predicate
        (rows.filter fun row => inRanges runs (orderingValue orderingKey row / definition.divide)) := by
  obtain ⟨ranges, chained, rfl⟩ := restrictedTo_eq chosen
  rw [keep_ranges chained holds]
  congr 1
  refine List.filter_congr fun row _ => ?_
  rw [Bool.eq_iff_iff, inRanges_iff, inRanges_iff]
  simp only [Ranges.Covers, List.mem_map, exists_exists_and_eq_and]
  refine exists_congr fun run => and_congr_right fun member => ?_
  exact within_edges spells.positive (indices run member).1 (indices run member).2 _

omit [F64Math F] in
/-- Two ordering keys are of one bucket where the view stores the same for both. -/
theorem Definition.Spells.stored_inj (spells : definition.Spells bucket) {key other : Int64} :
    bucket.stored key = bucket.stored other ↔ key / definition.divide = other / definition.divide := by
  have is : IsIndex definition.divide (other / definition.divide) := ⟨other, rfl⟩
  have own := (spells.within_scaled is is other).mpr ⟨Int64.le_refl _, Int64.le_refl _⟩
  constructor
  · intro same
    obtain ⟨low, high⟩ := (spells.within_scaled is is key).mp (same ▸ own)
    exact Int64.le_antisymm high low
  · intro same
    have both := (spells.within_scaled is is key).mpr (by
        rw [same]
        exact ⟨Int64.le_refl _, Int64.le_refl _⟩)
    exact Int64.le_antisymm (Int64.le_trans both.2 own.1) (Int64.le_trans own.2 both.1)

omit [F64Math F] in
/-- No run where nothing was touched, and otherwise the runs of the touched buckets. -/
theorem Definition.Spells.touchedRuns_cases (spells : definition.Spells bucket) (touched : List Int64) :
    (touched = [] ∧ definition.touchedRuns touched = none) ∨ touched ≠ [] ∧ ∃ runs,
    definition.touchedRuns touched = some runs ∧ runs ≠ [] ∧
      (∀ run ∈ runs, IsIndex definition.divide run.1 ∧ IsIndex definition.divide run.2) ∧
      ∀ key, inRanges runs
        (key / definition.divide) = decide (bucket.stored key ∈ touched.map bucket.stored) := by
  obtain ⟨ascending, members⟩ := touched_buckets definition.divide touched
  by_cases none_ : touched = []
  · subst none_
    exact .inl ⟨rfl, rfl⟩
  have nonempty : ((touched.map (· / definition.divide)).insertionSort (· ≤ ·)).dedup ≠ [] := by
    obtain ⟨key, inside⟩ := List.exists_mem_of_ne_nil _ none_
    exact List.ne_nil_of_mem ((members _).mpr ⟨key, inside, rfl⟩)
  refine .inr ⟨none_, _, by rw [touchedRuns, if_neg (by simpa [List.isEmpty_iff] using nonempty)],
    fun bare => nonempty ?_,
    contiguousRuns_ends fun bucket member => ?_, fun key => ?_⟩
  · rw [contiguousRuns, Ranges.merge_eq_nil, List.map_eq_nil_iff] at bare
    exact bare
  · obtain ⟨key, -, same⟩ := (members bucket).mp member
    exact ⟨key, same⟩
  · rw [Bool.eq_iff_iff, inRanges_iff, covers_contiguousRuns ascending, members,
      decide_eq_true_iff, List.mem_map]
    refine exists_congr fun other => and_congr_right fun _ => ?_
    rw [← spells.stored_inj]

/-- What the view's ranges select are the rows that store the runs' buckets. -/
theorem Definition.Spells.viewRanges_passes (spells : definition.Spells bucket)
    (indices : ∀ run ∈ runs, IsIndex definition.divide run.1 ∧ IsIndex definition.divide run.2)
    {predicate : Predicate F} (chained : definition.viewRanges runs = some predicate)
    {row : Row F} {key : Int64}
    (holds : NamesI64 schema row definition.bucketName column (bucket.stored key)) :
    (predicate.Passes schema row ↔ inRanges runs (key / definition.divide) = true) ∧
      ((Predicate.not predicate).Passes schema row ↔
        inRanges runs (key / definition.divide) = false) := by
  have cover : inRanges
    (runs.map fun run =>
    (Saturating.mul run.1 definition.viewScale, Saturating.mul run.2 definition.viewScale))
    (bucket.stored key) =
      inRanges runs (key / definition.divide) := by
    rw [Bool.eq_iff_iff, inRanges_iff, inRanges_iff]
    simp only [Ranges.Covers, List.mem_map, exists_exists_and_eq_and]
    refine exists_congr fun run => and_congr_right fun member => ?_
    exact spells.within_scaled (indices run member).1 (indices run member).2 key
  rw [← cover]
  exact ⟨holds.passes_ranges chained, holds.passes_not_ranges chained⟩

end Restricted

/-! ### The fold of a view -/

section Folding

open Chronicle

variable [F64Math F] {schema : Schema} {orderingKey column : Nat} {keys : List GroupKey}
  {items : List AggItem} {bucket : GroupKey}

/-- What a bucketed definition makes of rows, by what the view stores for their buckets. -/
def BucketedBy.fold (by_ : BucketedBy schema orderingKey keys items bucket column)
    (own : Option (Predicate F)) :
    BucketFold QueryError (Row F) (Row F) Int64 where
  fold rows := answer schema (some orderingKey) keys items (keep schema own rows)
  bucket row := bucket.stored (orderingValue orderingKey row)
  shown row := orderingValue column row
  parts rows out folds p := by
    rw [keep_filter own (fun row => p (bucket.stored (orderingValue orderingKey row)))]
    exact by_.answer_filter folds p
  sums rows more out fresh folds refolds apart := by
    rw [keep_append]
    refine by_.answer_append folds refolds fun row first other second => ?_
    exact apart row (mem_of_keep first) other (mem_of_keep second)

end Folding

end TallyDB
